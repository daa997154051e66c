import HotkeyTree.Tree

/-!
# Counting shortcuts

How many shortcuts a category holds, at any depth, and how many of them are created at run time; and
the sums over a tree.
-/

namespace HotkeyTree

/-- A number of shortcuts and how many of them are dynamic. -/
structure Tally where
  /-- How many shortcuts. -/
  shortcuts : Nat := 0
  /-- How many of them are dynamic. -/
  dynamic : Nat := 0
deriving DecidableEq, Repr

namespace Tally

instance : Add Tally := ⟨fun a b => ⟨a.shortcuts + b.shortcuts, a.dynamic + b.dynamic⟩⟩

instance : Zero Tally := ⟨⟨0, 0⟩⟩

/-- The tally of one shortcut. -/
def ofShortcut (s : Shortcut) : Tally := ⟨1, if s.isDynamic then 1 else 0⟩

mutual

/-- The tally of a group. -/
def ofGroup : Group → Tally
  | ⟨_, _, _, entries⟩ => ofSlots entries
termination_by structural g => g

/-- The tally of an entry. -/
def ofEntry : Entry → Tally
  | .shortcut s => ofShortcut s
  | .group g => ofGroup g
termination_by structural e => e

/-- The tally of the entry in a slot. -/
def ofSlot : String × Entry → Tally
  | (_, e) => ofEntry e
termination_by structural e => e

/-- The sum over the entries of a group. -/
def ofSlots : List (String × Entry) → Tally
  | [] => 0
  | e :: es => ofSlot e + ofSlots es
termination_by structural es => es

end

/-- The tally of a category. -/
def ofCategory (c : Category) : Tally :=
  (c.shortcuts.map fun e => ofShortcut e.2).sum + (c.subgroups.map fun e => ofGroup e.2).sum

end Tally

/-- The tally of a category, under its own key. -/
structure CategoryTally where
  /-- The category's own key. -/
  key : String
  /-- Its tally. -/
  tally : Tally
deriving DecidableEq, Repr

/-- The numbers of a tree. -/
structure Statistics where
  /-- The sum over all categories. -/
  total : Tally
  /-- How many categories there are. -/
  categories : Nat
  /-- The tally of each category, in order. -/
  perCategory : List CategoryTally
deriving DecidableEq, Repr

namespace Statistics

/-- The numbers of a tree. -/
def ofCategories (m : Keyed Category) : Statistics :=
  let perCategory := m.map fun e => ⟨e.2.key, Tally.ofCategory e.2⟩
  { total := (perCategory.map CategoryTally.tally).sum
    categories := m.length
    perCategory }

/-- Whether any shortcut of a tree is dynamic. -/
def anyDynamic (m : Keyed Category) : Bool := m.any fun e => 0 < (Tally.ofCategory e.2).dynamic

end Statistics

end HotkeyTree
