/-!
# Keyed mappings and integers of 64 bits

What the vendor's table, documents and configurations share. A mapping from keys to values remembers
the order in which the keys came. It is the list of its entries; a key that is put again keeps its
place and takes the new value. Integers are held in 64 bits, with or without sign.
-/

namespace HotkeyTree

/-! ## Keyed mappings -/

/-- A mapping from strings, as its entries in insertion order. -/
abbrev Keyed (α : Type) := List (String × α)

namespace Keyed

variable {α : Type}

/-- The keys, in order. -/
def keys (m : Keyed α) : List String := m.map Prod.fst

/-- Whether there is an entry under the key. -/
def has (m : Keyed α) (k : String) : Bool := m.keys.contains k

/-- No key occurs twice. -/
def Distinct (m : Keyed α) : Prop := m.keys.Nodup

/-- The mapping with `v` under `k`: in the place of the entry that was there, else at the end. -/
def put : Keyed α → String → α → Keyed α
  | [], k, v => [(k, v)]
  | (k', v') :: rest, k, v => if k' = k then (k, v) :: rest else (k', v') :: put rest k v

/-- The mapping that results from putting the pairs one after the other. -/
def ofPairs (ps : List (String × α)) : Keyed α := ps.foldl (fun m p => put m p.1 p.2) []

end Keyed

/-! ## Integers of 64 bits -/

namespace Bits64

/-- How many values 64 bits have: the first natural number that does not fit. -/
def count : Nat := 0x10000000000000000

/-- Half of them: the first number that does not fit with sign. -/
def half : Nat := 0x8000000000000000

/-- The integer as one of 64 bits with sign, if it fits. -/
def signed? (i : Int) : Option Int64 :=
  if -(half : Int) ≤ i ∧ i < (half : Int) then some (Int64.ofInt i) else none

end Bits64

end HotkeyTree
