import HotkeyTree.Json.Record
import HotkeyTree.Node.Basic

/-!
# Nodes as JSON

A node is a record of its attributes and its child list; a field that is missing or `null` stands
for an attribute the node does not have. Nodes and child lists nest no deeper than a text may, while
the values of unknown fields are skipped, however deep they are.
-/

namespace HotkeyTree.Node

open Json

/-- The names of a node's fields, in their order. -/
def fieldNames : List String :=
  ["name", "nodeClass", "hotkeyId", "slowHotkeyId", "identifier", "key", "modifier", "charKey",
   "enabled", "dynamic", "children"]

/-- Reads the attributes of a node from its fields. -/
def attributesOf? (fields : List (String × Json)) : Option Attributes := do
  some
    { name := ← optional fields "name" text?
      nodeClass := ← optional fields "nodeClass" text?
      hotkeyId := ← optional fields "hotkeyId" int64?
      slowHotkeyId := ← optional fields "slowHotkeyId" int64?
      identifier := ← optional fields "identifier" text?
      key := ← optional fields "key" text?
      modifier := ← optional fields "modifier" int64?
      charKey := ← optional fields "charKey" text?
      enabled := ← optional fields "enabled" bool?
      dynamic := ← optional fields "dynamic" bool? }

/-- Reads a node with so many more brackets allowed to open: the node itself opens one, and its
child list another. -/
def readWithin? : Nat → Json → Option Node
  | 0, _ => none
  | levels + 1, v => do
    let fields ← record? fieldNames v
    let attributes ← attributesOf? fields
    let children ← optional fields "children" fun w =>
      match levels with
      | 0 => none
      | levels + 1 => list? (readWithin? levels) w
    some { toAttributes := attributes, children }

/-- Reads a child list with so many more brackets allowed to open. -/
def listWithin? : Nat → Json → Option (List Node)
  | 0, _ => none
  | levels + 1, v => list? (readWithin? levels) v

/-- Reads a node as it stands in a text of its own. -/
def ofJson? (v : Json) : Option Node := readWithin? maxDepth v

/-- Reads a list of nodes as it stands in a text of its own. -/
def listOfJson? (v : Json) : Option (List Node) := listWithin? maxDepth v

/-- `null` for the lack of a value. -/
def orNull {α : Type} (write : α → Json) : Option α → Json
  | some a => write a
  | none => .null

/-- The attributes as members, in their order. -/
def attributeMembers (a : Attributes) : List (Literal × Json) :=
  member "name" (orNull ofText a.name)
    ++ member "nodeClass" (orNull ofText a.nodeClass)
    ++ member "hotkeyId" (orNull ofInt64 a.hotkeyId)
    ++ member "slowHotkeyId" (orNull ofInt64 a.slowHotkeyId)
    ++ member "identifier" (orNull ofText a.identifier)
    ++ member "key" (orNull ofText a.key)
    ++ member "modifier" (orNull ofInt64 a.modifier)
    ++ member "charKey" (orNull ofText a.charKey)
    ++ member "enabled" (orNull .bool a.enabled)
    ++ member "dynamic" (orNull .bool a.dynamic)

mutual

/-- A node as an object with all its fields. -/
def toJson : Node → Json
  | ⟨attributes, children⟩ =>
    .object (attributeMembers attributes
      ++ member "children" (match children with
        | some nodes => .array (toJsons nodes)
        | none => .null))
termination_by structural n => n

/-- Nodes as objects with all their fields. -/
def toJsons : List Node → List Json
  | [] => []
  | n :: ns => toJson n :: toJsons ns
termination_by structural ns => ns

end

end HotkeyTree.Node
