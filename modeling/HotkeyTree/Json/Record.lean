import HotkeyTree.Json.Number
import HotkeyTree.Basic

/-!
# Reading records and mappings from JSON values

A record is an object whose members are its fields, in any order and with any others between them,
or an array of its fields in their order, cut off after any of them. `record?` gives the fields that
are there. A field that is there twice, a member name without text, and an array longer than the
list of fields are faults.

An object also stands for a mapping, with every member an entry.
-/

namespace HotkeyTree.Json

/-- The members of an object by the text of their names. -/
def named? (members : List (Literal × Json)) : Option (List (String × Json)) :=
  members.mapM fun m => m.1.map fun k => (k, m.2)

/-- The fields with these names that a value holds as a record. -/
def record? (names : List String) : Json → Option (List (String × Json))
  | .object members => do
    let fields := (← named? members).filter fun m => names.contains m.1
    if (fields.map Prod.fst).Nodup then some fields else none
  | .array items => if items.length ≤ names.length then some (names.zip items) else none
  | _ => none

/-- A field that must be there. -/
def required {α : Type} (fields : List (String × Json)) (name : String)
    (read : Json → Option α) : Option α :=
  (fields.lookup name).bind read

/-- A field that stands for `missing` when it is not there. -/
def withDefault {α : Type} (fields : List (String × Json)) (name : String) (missing : α)
    (read : Json → Option α) : Option α :=
  match fields.lookup name with
  | some v => read v
  | none => some missing

/-- A value, or `null` for the lack of one. -/
def nullable {α : Type} (read : Json → Option α) : Json → Option (Option α)
  | .null => some none
  | v => (read v).map some

/-- A field that may be missing or `null`. -/
def optional {α : Type} (fields : List (String × Json)) (name : String)
    (read : Json → Option α) : Option (Option α) :=
  withDefault fields name none (nullable read)

/-- The mapping that an object stands for. A repeated name keeps its first place and takes its last
value; every value has to be readable. -/
def mapping? {α : Type} (read : Json → Option α) : Json → Option (Keyed α)
  | .object members => do
    let entries ← (← named? members).mapM fun m => (read m.2).map fun v => (m.1, v)
    some (Keyed.ofPairs entries)
  | _ => none

/-- The items of an array. -/
def list? {α : Type} (read : Json → Option α) : Json → Option (List α)
  | .array items => items.mapM read
  | _ => none

/-- The text of a string. -/
def text? : Json → Option String
  | .string s => s
  | _ => none

/-- A truth value. -/
def bool? : Json → Option Bool
  | .bool b => some b
  | _ => none

/-- An integer of 64 bits. -/
def int64? : Json → Option Int64
  | .number n => n.toInt64?
  | _ => none

/-! ## Strict values -/

/-- How many arrays and objects may be open at once in a text. -/
def maxDepth : Nat := 127

mutual

/-- How many arrays and objects are open at the deepest point of a value. -/
def depth : Json → Nat
  | .array items => depthOfItems items + 1
  | .object members => depthOfMembers members + 1
  | _ => 0
termination_by structural v => v

/-- The greatest depth among items. -/
def depthOfItems : List Json → Nat
  | [] => 0
  | v :: vs => max (depth v) (depthOfItems vs)
termination_by structural vs => vs

/-- The depth of a member's value. -/
def depthOfMember : Literal × Json → Nat
  | (_, v) => depth v
termination_by structural m => m

/-- The greatest depth among members. -/
def depthOfMembers : List (Literal × Json) → Nat
  | [] => 0
  | m :: ms => max (depthOfMember m) (depthOfMembers ms)
termination_by structural ms => ms

end

mutual

/-- Whether a value can be read in full with so many more brackets allowed to open: every string in
it has a text and every number is in range. -/
def isStrict (levels : Nat) : Json → Bool
  | .number n => n.inRange
  | .string s => s.isSome
  | .array items => 0 < levels && itemsAreStrict (levels - 1) items
  | .object members => 0 < levels && membersAreStrict (levels - 1) members
  | _ => true
termination_by structural v => v

/-- Whether all items can be read in full. -/
def itemsAreStrict (levels : Nat) : List Json → Bool
  | [] => true
  | v :: vs => isStrict levels v && itemsAreStrict levels vs
termination_by structural vs => vs

/-- Whether a member's name and value can be read in full. -/
def memberIsStrict (levels : Nat) : Literal × Json → Bool
  | (k, v) => k.isSome && isStrict levels v
termination_by structural m => m

/-- Whether all members can be read in full. -/
def membersAreStrict (levels : Nat) : List (Literal × Json) → Bool
  | [] => true
  | m :: ms => memberIsStrict levels m && membersAreStrict levels ms
termination_by structural ms => ms

end

/-! ## Writing records -/

/-- A string with the given text. -/
def ofText (s : String) : Json := .string (some s)

/-- An integer. -/
def ofInt64 (i : Int64) : Json := .number (.ofInt i.toInt)

/-- A member that is written only when there is a value. -/
def present {α : Type} (name : String) (write : α → Json) : Option α → List (Literal × Json)
  | some a => [(some name, write a)]
  | none => []

/-- A member that is always written. -/
def member (name : String) (v : Json) : List (Literal × Json) := [(some name, v)]

end HotkeyTree.Json
