import HotkeyTree.Document.Json
import HotkeyTree.Text.Quoted

/-!
# Why a text is no document

Of a text that is no document the first misfit is told: the first thing in it, in the order of the
text, that cannot stand where it does. A text in the place of something else is told itself. The
misfits of a record's fields come in the order in which the fields are written, a field that is
missing comes after them, and what is wrong with the text as JSON comes where it goes wrong.

An entry of a group is read in two passes. The first looks for its kind and at the form of
everything else; the second at the fields, which the kind decides.
-/

namespace HotkeyTree.Document

open Json

/-- What keeps a text from being a document. -/
inductive Misfit where
  /-- A text that stands in the place of something else. -/
  | text (s : String)
  /-- Anything else. -/
  | other
deriving DecidableEq, Repr

/-- How a misfit is told. -/
def Misfit.describe : Misfit → String
  | text s => Text.quoted s ++ " cannot stand where it does"
  | other => "the text does not have its form"

/-- The misfit of a value in the place of another one. -/
def Misfit.ofJson : Json → Misfit
  | .string (some s) => .text s
  | _ => .other

/-- What has to stand in a place of a document. -/
inductive Shape where
  /-- A text. -/
  | text
  /-- An integer of 64 bits. -/
  | integer
  /-- A truth value. -/
  | truth
  /-- A mapping to values of this shape. -/
  | mapping (s : Shape)
  /-- A shortcut. -/
  | shortcut
  /-- A group; `inside` tells whether it is itself an entry of one. -/
  | group (inside : Bool)
  /-- An entry of a group; `inside` tells whether that group is itself an entry of one. -/
  | entry (inside : Bool)
  /-- A category. -/
  | category
  /-- A document. -/
  | document
deriving DecidableEq, Repr

namespace Shape

/-- Whether a field has to be there. -/
inductive Presence where
  /-- It has to be there. -/
  | required
  /-- It may be missing. -/
  | missable
  /-- It may be missing or `null`. -/
  | nullable
deriving DecidableEq, Repr

/-- A field of a record. -/
structure Field where
  /-- Its name. -/
  name : String
  /-- What has to stand in it. -/
  shape : Shape
  /-- Whether it has to be there. -/
  presence : Presence
deriving DecidableEq, Repr

/-- The fields of a record, in their order. -/
def fields : Shape → List Field
  | shortcut =>
    [⟨"id", integer, .required⟩, ⟨"name", text, .required⟩, ⟨"key", text, .required⟩,
     ⟨"defaultKey", text, .nullable⟩, ⟨"defaultModifier", integer, .nullable⟩,
     ⟨"defaultCharKey", text, .nullable⟩, ⟨"defaultEnabled", truth, .nullable⟩,
     ⟨"slowId", integer, .nullable⟩, ⟨"sourceIdentifier", text, .nullable⟩,
     ⟨"dynamic", truth, .nullable⟩]
  | group inside =>
    [⟨"name", text, .required⟩, ⟨"key", text, .required⟩, ⟨"sourceIdentifier", text, .missable⟩,
     ⟨"shortcuts", mapping (entry inside), .required⟩]
  | category =>
    [⟨"name", text, .required⟩, ⟨"key", text, .required⟩, ⟨"sourceIdentifier", text, .required⟩,
     ⟨"shortcuts", mapping shortcut, .missable⟩,
     ⟨"subgroups", mapping (group false), .missable⟩]
  | document =>
    [⟨"version", text, .required⟩, ⟨"generatedFrom", text, .required⟩, ⟨"note", text, .required⟩,
     ⟨"categories", mapping category, .required⟩]
  | _ => []

/-- The shape of an entry of this kind. -/
def ofKind : Entry.Kind → Shape
  | .shortcut => .shortcut
  | .group => .group true

/-! ## Entries -/

/-- The misfit of a value in the place of the kind of an entry. -/
def misfitOfKind (inside : Bool) (v : Json) : Option Misfit :=
  if (Entry.Kind.ofJson? inside v).isSome then none else some (.ofJson v)

/-- How many arrays and objects may be open at once in the parts of an entry. -/
def depthOfParts : Nat := maxDepth - depthOfEntries - 1

/-- The first misfit of the members of an entry as to its kind and their form; `tagged` tells
whether the kind came before. The form of an entry inside another one was looked at with that one.
-/
def misfitOfForm (inside tagged : Bool) : List (Literal × Json) → Option Misfit
  | [] => if tagged then none else some .other
  | (none, _) :: _ => some .other
  | (some name, v) :: ms =>
    if name = Entry.kindField then
      if tagged then some .other
      else misfitOfKind inside v <|> misfitOfForm inside true ms
    else if inside || v.isStrict depthOfParts then misfitOfForm inside tagged ms
    else some .other

/-- The kind of an entry with these members. -/
def kindOf? (inside : Bool) (members : List (Literal × Json)) : Option Entry.Kind :=
  (members.lookup (some Entry.kindField)).bind (Entry.Kind.ofJson? inside)

/-! ## Values -/

/-- The misfit of fields of which none is there. -/
def misfitOfMissing (fs : List Field) : Option Misfit :=
  if fs.any (·.presence = .required) then some .other else none

/-- Whether a value stands for the lack of one in a field. -/
def Field.lacks (f : Field) (v : Json) : Bool :=
  match f.presence, v with
  | .nullable, .null => true
  | _, _ => false

mutual

/-- The first misfit of a value in a place of this shape. -/
def misfit (s : Shape) : Json → Option Misfit
  | .bool _ => if s = .truth then none else some .other
  | .number n => if s = .integer ∧ n.toInt64?.isSome then none else some .other
  | .string (some t) => if s = .text then none else some (.text t)
  | .array [] => if s.fields.isEmpty then some .other else misfitOfMissing s.fields
  | .array (v :: vs) =>
    match s with
    | .entry inside =>
      match Entry.Kind.ofJson? inside v with
      | some kind =>
        if inside || itemsAreStrict depthOfParts vs then misfitOfItems (ofKind kind).fields vs
        else some .other
      | none => some (.ofJson v)
    | s => misfitOfItems s.fields (v :: vs)
  | .object members =>
    match s with
    | .mapping s => misfitOfValues s members
    | .entry inside =>
      misfitOfForm inside false members <|>
        match kindOf? inside members with
        | some kind => misfitOfMembers (ofKind kind).fields [] members
        | none => some .other
    | s => if s.fields.isEmpty then some .other else misfitOfMembers s.fields [] members
  | _ => some .other
termination_by structural v => v

/-- The first misfit of items in the places of fields. -/
def misfitOfItems (fs : List Field) : List Json → Option Misfit
  | [] => misfitOfMissing fs
  | v :: vs =>
    match fs with
    | [] => some .other
    | f :: fs => (if f.lacks v then none else misfit f.shape v) <|> misfitOfItems fs vs
termination_by structural vs => vs

/-- The first misfit of the members of a record with these fields after members with the names
seen. -/
def misfitOfMembers (fs : List Field) (seen : List String) :
    List (Literal × Json) → Option Misfit
  | [] => misfitOfMissing (fs.filter fun f => !seen.contains f.name)
  | m :: ms =>
    misfitOfMember fs seen m <|> misfitOfMembers fs (m.1.toList ++ seen) ms
termination_by structural ms => ms

/-- The misfit of a member of a record with these fields after members with the names seen. -/
def misfitOfMember (fs : List Field) (seen : List String) : Literal × Json → Option Misfit
  | (none, _) => some .other
  | (some name, v) =>
    match fs.find? (·.name = name) with
    | some f =>
      if seen.contains name then some .other else if f.lacks v then none else misfit f.shape v
    | none => none
termination_by structural m => m

/-- The first misfit of the members of a mapping. -/
def misfitOfValues (s : Shape) : List (Literal × Json) → Option Misfit
  | [] => none
  | m :: ms => misfitOfValue s m <|> misfitOfValues s ms
termination_by structural ms => ms

/-- The misfit of a member of a mapping. -/
def misfitOfValue (s : Shape) : Literal × Json → Option Misfit
  | (none, _) => some .other
  | (some _, v) => misfit s v
termination_by structural m => m

end

end Shape

/-- What keeps a text from being a document, if it is none. -/
def misfit (text : String) : Misfit :=
  let v := match Json.parse text with
    | .ok v => v
    | .error v => v
  (Shape.misfit .document v).getD .other

end HotkeyTree.Document
