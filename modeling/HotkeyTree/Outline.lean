import HotkeyTree.Tree

/-!
# The outline of a tree

The tree as a list of lines with their depth, in the order in which it is shown: a category, the
shortcuts directly below it, then every group followed by what it holds.
-/

namespace HotkeyTree

namespace Outline

/-- What a line stands for. -/
inductive Kind where
  /-- A category. -/
  | category
  /-- A group. -/
  | group
  /-- A shortcut. -/
  | shortcut (id : Int64) (dynamic : Bool)
deriving DecidableEq, Repr

/-- A line of an outline. -/
structure Line where
  /-- How far below the categories it is. -/
  depth : Nat
  /-- The key of what it stands for. -/
  key : String
  /-- The name of what it stands for. -/
  name : String
  /-- What it stands for. -/
  kind : Kind
deriving DecidableEq, Repr

/-- The line of a shortcut. -/
def ofShortcut (depth : Nat) (s : Shortcut) : Line :=
  ⟨depth, s.key, s.name, .shortcut s.id s.isDynamic⟩

mutual

/-- The lines of a group at some depth. -/
def ofGroup (depth : Nat) : Group → List Line
  | ⟨name, key, _, entries⟩ => ⟨depth, key, name, .group⟩ :: ofSlots (depth + 1) entries
termination_by structural g => g

/-- The lines of an entry at some depth. -/
def ofEntry (depth : Nat) : Entry → List Line
  | .shortcut s => [ofShortcut depth s]
  | .group g => ofGroup depth g
termination_by structural e => e

/-- The lines of the entry in a slot. -/
def ofSlot (depth : Nat) : String × Entry → List Line
  | (_, e) => ofEntry depth e
termination_by structural e => e

/-- The lines of the entries of a group, all at one depth. -/
def ofSlots (depth : Nat) : List (String × Entry) → List Line
  | [] => []
  | e :: es => ofSlot depth e ++ ofSlots depth es
termination_by structural es => es

end

/-- The lines of a category. -/
def ofCategory (c : Category) : List Line :=
  ⟨0, c.key, c.name, .category⟩
    :: (c.shortcuts.map fun e => ofShortcut 1 e.2) ++ c.subgroups.flatMap fun e => ofGroup 1 e.2

/-- The lines of a tree. -/
def ofCategories (m : Keyed Category) : List Line := m.flatMap fun e => ofCategory e.2

end Outline

end HotkeyTree
