/-!
# Vendor nodes

The vendor's shortcut table is a forest of nodes. Every attribute of a node may be missing, and a
missing child list differs from an empty one.
-/

namespace HotkeyTree

/-- The attributes of a node, without its children. -/
structure Node.Attributes where
  /-- The display name. -/
  name : Option String := none
  /-- The class of the node in the vendor's user interface. -/
  nodeClass : Option String := none
  /-- The id of the hotkey the node stands for. -/
  hotkeyId : Option Int64 := none
  /-- The id of the slow-motion variant of the hotkey. -/
  slowHotkeyId : Option Int64 := none
  /-- The vendor's identifier of the node. -/
  identifier : Option String := none
  /-- The default key. -/
  key : Option String := none
  /-- The modifier keys, as a bit mask. -/
  modifier : Option Int64 := none
  /-- The character of the default key. -/
  charKey : Option String := none
  /-- Whether the hotkey is enabled by default. -/
  enabled : Option Bool := none
  /-- Whether the shortcut is created at run time. -/
  dynamic : Option Bool := none
deriving DecidableEq, Repr

/-- A node of the vendor's table. -/
structure Node extends Node.Attributes where
  /-- The nodes below it, if it has a child list. -/
  children : Option (List Node) := none
deriving Repr

namespace Node

/-- The class of nodes that are only labels on the screen. -/
def displayOnlyClass : String := "DisplayOnlyNode"

/-- The name, unless it is empty. -/
def nonEmptyName (n : Node) : Option String := n.name.filter (· ≠ "")

/-- The identifier, unless it is empty. -/
def nonEmptyIdentifier (n : Node) : Option String := n.identifier.filter (· ≠ "")

/-- Whether the node is only a label. -/
def isDisplayOnly (n : Node) : Bool := n.nodeClass == some displayOnlyClass

/-- The nodes below, none if there is no child list. -/
def childNodes (n : Node) : List Node := n.children.getD []

end Node

end HotkeyTree
