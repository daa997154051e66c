import HotkeyTree.Toml.Basic

/-!
# How TOML tables grow

A key with several parts leads through tables, which are made where they are missing. A key is given
a value once; a table has one header at most; a table that has a header, or that dotted keys made,
does not grow by the other means; a table between braces does not grow at all.
-/

namespace HotkeyTree.Toml

/-- A table that is growing: how it came to be, and its entries. -/
abbrev Growing := Origin × Keyed (Slot Toml)

/-- What a table has under a key that begins on the line of its value. -/
def Placed.slot (v : Placed Toml) : Slot Toml := { v with keyLine := v.line }

/-- A table that begins on this line. -/
def Growing.placed (line : Nat) : Growing → Placed Toml
  | (origin, entries) => ⟨line, .table origin entries⟩

/-- The same slot with another value. -/
def Slot.set (s : Slot Toml) (v : Toml) : Slot Toml := { s with value := v }

/-- Changes the table that a path leads to, of a key on this line; `dotted` tells whether the path
is that of a dotted key rather than of a header. In an array of tables the path leads into the last
one. -/
def within (dotted : Bool) (line : Nat) (change : Growing → Option Growing) :
    List String → Growing → Option Growing
  | [], t => change t
  | k :: ks, (origin, entries) =>
    match entries.lookup k with
    | none => do
      let made ← within dotted line change ks (if dotted then .dotted else .implied, [])
      some (origin, entries.put k (made.placed line).slot)
    | some slot =>
      match slot.value with
      | .table o es =>
        if o = .inline ∨ (dotted ∧ o = .header) then none
        else do
          let (o, es) ← within dotted line change ks (o, es)
          some (origin, entries.put k (slot.set (.table o es)))
      | .array true items =>
        match items.getLast? with
        | some ⟨first, .table o es⟩ => do
          let last ← within dotted line change ks (o, es)
          some (origin, entries.put k (slot.set
            (.array true (items.dropLast ++ [last.placed first]))))
        | _ => none
      | _ => none

/-- Gives a key its value. The key comes after dotted parts if the table was made by them, and only
then. -/
def assign (afterDots : Bool) (k : String) (s : Slot Toml) : Growing → Option Growing
  | (origin, entries) =>
    if afterDots ≠ (origin = .dotted) ∨ entries.has k then none
    else some (origin, entries.put k s)

/-- Gives a key of several parts on this line its value. -/
def assignPath (path : List String) (line : Nat) (v : Placed Toml) (t : Growing) :
    Option Growing :=
  match path.getLast? with
  | some k =>
    let slot : Slot Toml := { v with keyLine := line }
    within true line (assign (path.length ≠ 1) k slot) path.dropLast t
  | none => none

/-- Opens the table of a header on this line. -/
def openTable (k : String) (line : Nat) : Growing → Option Growing
  | (origin, entries) =>
    let opened (es : Keyed (Slot Toml)) : Growing :=
      (origin, entries.put k (Growing.placed line (.header, es)).slot)
    match entries.lookup k with
    | none => some (opened [])
    | some slot =>
      match slot.value with
      | .table .implied es => some (opened es)
      | _ => none

/-- Appends a table to the array of a header in double brackets on this line. -/
def openItem (k : String) (line : Nat) : Growing → Option Growing
  | (origin, entries) =>
    let item : Placed Toml := Growing.placed line (.header, [])
    match entries.lookup k with
    | none => some (origin, entries.put k (Placed.mk line (.array true [item])).slot)
    | some slot =>
      match slot.value with
      | .array true items =>
        some (origin, entries.put k (slot.set (.array true (items ++ [item]))))
      | _ => none

end HotkeyTree.Toml
