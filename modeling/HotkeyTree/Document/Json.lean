import HotkeyTree.Json.Reader
import HotkeyTree.Json.Record
import HotkeyTree.Json.Writer
import HotkeyTree.Tree

/-!
# Documents as JSON texts

A document is written as an indented JSON text and read back from any JSON text of the same shape.

At most 127 arrays and objects may be open at once. The values of unknown fields are skipped,
however they look inside. An entry of a group is different: which of the two kinds of record it is
shows only when it has been taken in as a whole, so everything in it has to be readable and counts
for the depth.
-/

namespace HotkeyTree

open Json

/-! ## Reading -/

namespace Shortcut

/-- The names of a shortcut's fields, in their order. -/
def fieldNames : List String :=
  ["id", "name", "key", "defaultKey", "defaultModifier", "defaultCharKey", "defaultEnabled",
   "slowId", "sourceIdentifier", "dynamic"]

/-- Reads a shortcut. -/
def ofJson? (v : Json) : Option Shortcut := do
  let fields ← record? fieldNames v
  some
    { id := ← required fields "id" int64?
      name := ← required fields "name" text?
      key := ← required fields "key" text?
      defaultKey := ← optional fields "defaultKey" text?
      defaultModifier := ← optional fields "defaultModifier" int64?
      defaultCharKey := ← optional fields "defaultCharKey" text?
      defaultEnabled := ← optional fields "defaultEnabled" bool?
      slowId := ← optional fields "slowId" int64?
      sourceIdentifier := ← optional fields "sourceIdentifier" text?
      dynamic := ← optional fields "dynamic" bool? }

end Shortcut

namespace Group

/-- The names of a group's fields, in their order. -/
def fieldNames : List String := ["name", "key", "sourceIdentifier", "shortcuts"]

/-- Reads a group, given how its entries are read. -/
def ofJsonWith? (entryOf? : Json → Option Entry) (v : Json) : Option Group := do
  let fields ← record? fieldNames v
  some
    { name := ← required fields "name" text?
      key := ← required fields "key" text?
      sourceIdentifier := ← withDefault fields "sourceIdentifier" "" text?
      entries := ← required fields "shortcuts" (mapping? entryOf?) }

end Group

namespace Entry

/-- The two kinds of entry. -/
inductive Kind where
  /-- A shortcut. -/
  | shortcut
  /-- A group. -/
  | group
deriving DecidableEq, Repr

/-- The name of the field that tells the kind of an entry. -/
def kindField : String := "kind"

/-- How a kind is written. -/
def Kind.text : Kind → String
  | shortcut => "shortcut"
  | group => "group"

/-- Reads a kind. Inside another entry it may also be given by its number, 0 or 1. -/
def Kind.ofJson? (inside : Bool) : Json → Option Kind
  | .string (some "shortcut") => some .shortcut
  | .string (some "group") => some .group
  | .number n =>
    if inside then
      match n.toInt? with
      | some 0 => some .shortcut
      | some 1 => some .group
      | _ => none
    else none
  | _ => none

/-- Splits an entry into its kind and the record that remains: an array without its first item, or
an object of which the kind is one more unknown field. -/
def tagged? : Json → Option (Json × Json)
  | .array (kind :: items) => some (kind, .array items)
  | .object members => do
    let fields ← record? [kindField] (.object members)
    let kind ← fields.lookup kindField
    some (kind, .object members)
  | _ => none

/-- Reads an entry below which there are fewer levels of entries than the second argument says;
`inside` tells whether the entry stands inside another one. -/
def readWithin? (inside : Bool) : Nat → Json → Option Entry
  | 0, _ => none
  | levels + 1, v => do
    let (kind, body) ← tagged? v
    match ← Kind.ofJson? inside kind with
    | .shortcut => (Shortcut.ofJson? body).map .shortcut
    | .group => (Group.ofJsonWith? (readWithin? true levels) body).map .group

end Entry

namespace Document

/-- How many arrays and objects may be open at once. -/
def maxDepth : Nat := Json.maxDepth

/-- How many are open around an entry of a group that is directly in a category: the document, its
categories, the category, its subgroups, the group and its shortcuts. -/
def depthOfEntries : Nat := 6

/-- Reads an entry of a group that is directly in a category. -/
def entryOf? (v : Json) : Option Entry :=
  if v.isStrict (maxDepth - depthOfEntries) then Entry.readWithin? false maxDepth v else none

end Document

namespace Category

/-- The names of a category's fields, in their order. -/
def fieldNames : List String := ["name", "key", "sourceIdentifier", "shortcuts", "subgroups"]

/-- Reads a category. -/
def ofJson? (v : Json) : Option Category := do
  let fields ← record? fieldNames v
  some
    { name := ← required fields "name" text?
      key := ← required fields "key" text?
      sourceIdentifier := ← required fields "sourceIdentifier" text?
      shortcuts := ← withDefault fields "shortcuts" [] (mapping? Shortcut.ofJson?)
      subgroups := ← withDefault fields "subgroups" []
        (mapping? (Group.ofJsonWith? Document.entryOf?)) }

end Category

namespace Document

/-- The names of a document's fields, in their order. -/
def fieldNames : List String := ["version", "generatedFrom", "note", "categories"]

/-- Reads a document. -/
def ofJson? (v : Json) : Option Document := do
  let fields ← record? fieldNames v
  some
    { version := ← required fields "version" text?
      generatedFrom := ← required fields "generatedFrom" text?
      note := ← required fields "note" text?
      categories := ← required fields "categories" (mapping? Category.ofJson?) }

/-- Reads a document from a text. -/
def read? (text : String) : Option Document := (Json.parse? text).bind ofJson?

end Document

/-! ## Writing -/

/-- A mapping as an object. -/
def Keyed.toJson {α : Type} (write : α → Json) (m : Keyed α) : Json :=
  .object (m.map fun e => (some e.1, write e.2))

/-- The fields of a shortcut as members; those without a value are left out. -/
def Shortcut.members (s : Shortcut) : List (Literal × Json) :=
  member "id" (ofInt64 s.id)
    ++ member "name" (ofText s.name)
    ++ member "key" (ofText s.key)
    ++ present "defaultKey" ofText s.defaultKey
    ++ present "defaultModifier" ofInt64 s.defaultModifier
    ++ present "defaultCharKey" ofText s.defaultCharKey
    ++ present "defaultEnabled" .bool s.defaultEnabled
    ++ present "slowId" ofInt64 s.slowId
    ++ present "sourceIdentifier" ofText s.sourceIdentifier
    ++ present "dynamic" .bool s.dynamic

/-- A shortcut as an object. -/
def Shortcut.toJson (s : Shortcut) : Json := .object s.members

/-- The kind of an entry as a member. -/
def Entry.kindMember (kind : Entry.Kind) : List (Literal × Json) :=
  member Entry.kindField (ofText kind.text)

mutual

/-- An entry as an object, its kind first. -/
def Entry.toJson : Entry → Json
  | .shortcut s => .object (Entry.kindMember .shortcut ++ s.members)
  | .group g => .object (Entry.kindMember .group ++ Group.members g)
termination_by structural e => e

/-- The fields of a group as members. -/
def Group.members : Group → List (Literal × Json)
  | ⟨name, key, sourceIdentifier, entries⟩ =>
    member "name" (ofText name)
      ++ member "key" (ofText key)
      ++ member "sourceIdentifier" (ofText sourceIdentifier)
      ++ member "shortcuts" (.object (Entry.slots entries))
termination_by structural g => g

/-- The entries of a group as members. -/
def Entry.slots : List (String × Entry) → List (Literal × Json)
  | [] => []
  | e :: es => Entry.slot e :: Entry.slots es
termination_by structural es => es

/-- An entry of a group under its key as a member. -/
def Entry.slot : String × Entry → Literal × Json
  | (k, e) => (some k, Entry.toJson e)
termination_by structural e => e

end

/-- A group as an object. -/
def Group.toJson (g : Group) : Json := .object g.members

/-- A mapping as a member that is left out when it is empty. -/
def Keyed.nonEmptyMember {α : Type} (name : String) (write : α → Json) (m : Keyed α) :
    List (Literal × Json) :=
  if m.isEmpty then [] else member name (m.toJson write)

/-- A category as an object; its mappings are left out when they are empty. -/
def Category.toJson (c : Category) : Json :=
  .object
    (member "name" (ofText c.name)
      ++ member "key" (ofText c.key)
      ++ member "sourceIdentifier" (ofText c.sourceIdentifier)
      ++ Keyed.nonEmptyMember "shortcuts" Shortcut.toJson c.shortcuts
      ++ Keyed.nonEmptyMember "subgroups" Group.toJson c.subgroups)

namespace Document

/-- A document as an object. -/
def toJson (d : Document) : Json :=
  .object
    (member "version" (ofText d.version)
      ++ member "generatedFrom" (ofText d.generatedFrom)
      ++ member "note" (ofText d.note)
      ++ member "categories" (Keyed.toJson Category.toJson d.categories))

/-- The text of a document. -/
def write (d : Document) : String := d.toJson.pretty

end Document

end HotkeyTree
