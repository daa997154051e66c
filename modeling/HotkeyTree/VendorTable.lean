import HotkeyTree.Basic
import HotkeyTree.Node.Basic
import HotkeyTree.PropertyList.Xml

/-!
# The vendor's shortcut table

The table is a property list: an array of dictionaries, one for each node, with the children of a
node under one of its keys. An attribute of another type than expected counts as missing, and
whatever is no dictionary is not a node.
-/

namespace HotkeyTree

namespace VendorTable

open PropertyList

/-! ## The vendor's names of the attributes -/

/-- The display name. -/
def nameKey : String := "name"
/-- The class of the node. -/
def nodeClassKey : String := "node_class"
/-- The hotkey id; the spelling is the vendor's. -/
def hotkeyIdKey : String := "sybmolichotkey"
/-- The id of the slow-motion variant. -/
def slowHotkeyIdKey : String := "slow_sybmolichotkey"
/-- The identifier. -/
def identifierKey : String := "identifier"
/-- The default key. -/
def keyKey : String := "key"
/-- The modifier keys. -/
def modifierKey : String := "modifier"
/-- The character of the default key. -/
def charKeyKey : String := "charKey"
/-- Whether the hotkey is enabled. -/
def enabledKey : String := "enabled"
/-- Whether the shortcut is created at run time. -/
def dynamicKey : String := "dynamic"
/-- The children. -/
def childrenKey : String := "elements"

/-! ## Reading attributes -/

/-- A text. -/
def text? : PropertyList → Option String
  | .string s => some s
  | _ => none

/-- An integer of 64 bits with sign. -/
def int64? : PropertyList → Option Int64
  | .integer i => Bits64.signed? i
  | _ => none

/-- A truth value. -/
def bool? : PropertyList → Option Bool
  | .bool b => some b
  | _ => none

/-- A key: a text, or an integer that stands for its digits. -/
def keyText? : PropertyList → Option String
  | .string s => some s
  | .integer i => (int64? (.integer i)).map fun i => toString i.toInt
  | _ => none

/-- The attributes in a dictionary. -/
def attributesOf (entries : List (String × PropertyList)) : Node.Attributes where
  name := (entries.lookup nameKey).bind text?
  nodeClass := (entries.lookup nodeClassKey).bind text?
  hotkeyId := (entries.lookup hotkeyIdKey).bind int64?
  slowHotkeyId := (entries.lookup slowHotkeyIdKey).bind int64?
  identifier := (entries.lookup identifierKey).bind text?
  key := (entries.lookup keyKey).bind keyText?
  modifier := (entries.lookup modifierKey).bind int64?
  charKey := (entries.lookup charKeyKey).bind keyText?
  enabled := (entries.lookup enabledKey).bind bool?
  dynamic := (entries.lookup dynamicKey).bind bool?

/-! ## Reading nodes -/

mutual

/-- The node that a dictionary stands for. -/
def nodeOf? : PropertyList → Option Node
  | .dict entries => some { toAttributes := attributesOf entries, children := childrenOf entries }
  | _ => none
termination_by structural p => p

/-- The children in a dictionary. -/
def childrenOf : List (String × PropertyList) → Option (List Node)
  | [] => none
  | e :: es => if e.1 = childrenKey then childrenIn e else childrenOf es
termination_by structural es => es

/-- The children in the value of an entry, if it is an array. -/
def childrenIn : String × PropertyList → Option (List Node)
  | (_, .array items) => some (nodesOf items)
  | _ => none
termination_by structural e => e

/-- The nodes among the items of an array. -/
def nodesOf : List PropertyList → List Node
  | [] => []
  | p :: ps =>
    match nodeOf? p with
    | some n => n :: nodesOf ps
    | none => nodesOf ps
termination_by structural ps => ps

end

/-- Why a file is not a table. -/
inductive Fault where
  /-- It is no property list. -/
  | notPropertyList
  /-- The property list is no array. -/
  | notArray
deriving DecidableEq, Repr

/-- The wording of a fault. -/
def Fault.text : Fault → String
  | notPropertyList => "invalid property list"
  | notArray => "expected an array at the top level of the shortcut table"

/-- The nodes of a property list. -/
def ofPropertyList : PropertyList → Except Fault (List Node)
  | .array items => .ok (nodesOf items)
  | _ => .error .notArray

/-- The nodes in a file. -/
def ofBytes (file : ByteArray) : Except Fault (List Node) :=
  match PropertyList.ofBytes? file with
  | some p => ofPropertyList p
  | none => .error .notPropertyList

end VendorTable

end HotkeyTree
