import HotkeyTree.Build
import HotkeyTree.Proofs.Tree

/-!
# Proofs: what is made of nodes

The builder reports events as it walks through a forest, but what it makes does not depend on them.
Here each of its functions is described by what it makes: of a node at most one entry, and of a list
of nodes the mapping in which those entries were stored one after the other. All that is said about
the tree rests on these descriptions, not on the walk.
-/

namespace HotkeyTree

/-! ## Verdicts on children of categories -/

namespace Node

theorem childNodes_eq_nil {n : Node} (h : n.children = none) : n.childNodes = [] := by
  simp [childNodes, h]

/-- A child of a category is a container exactly if it has a child list and no hotkey id. -/
theorem verdict_categoryChild_eq_container {n : Node} :
    n.verdict .categoryChild = .container ↔ n.children ≠ none ∧ n.hotkeyId = none := by
  unfold verdict
  cases hid : n.hotkeyId with
  | none =>
    cases hc : n.children with
    | none =>
      have hnil := childNodes_eq_nil hc
      cases n.nonEmptyName <;> cases n.isDisplayOnly <;> simp [hnil]
    | some nodes => simp
  | some id => cases n.nonEmptyName <;> cases n.isDisplayOnly <;> simp

/-- A child of a category is a shortcut exactly if it has a name and a hotkey id and is no label. -/
theorem verdict_categoryChild_eq_shortcut {n : Node} :
    n.verdict .categoryChild = .shortcut ↔
      n.nonEmptyName ≠ none ∧ n.isDisplayOnly = false ∧ n.hotkeyId ≠ none := by
  unfold verdict
  cases hid : n.hotkeyId with
  | none =>
    cases n.children.isSome <;> cases n.nonEmptyName <;> cases n.isDisplayOnly <;>
      cases n.childNodes <;> simp
  | some id => cases n.nonEmptyName <;> cases n.isDisplayOnly <;> simp

end Node

namespace Build

open Keyed

/-! ## What is made -/

/-- The shortcut made of a node, if there is one. -/
def madeShortcut (n : Node) : Option Shortcut := (shortcutOrDrop n).1

/-- The group made of a container, if there is one and it has a key. -/
def madeGroup (n : Node) : Option Group := (keyedOrDrop n (groupOf n)).1

/-- The entry made of a child of a group, if there is one. -/
def madeEntry (n : Node) : Option Entry := (entryOf n fun _ => groupOf n).1

/-- The shortcut made of a child of a category, if there is one. -/
def directShortcut (n : Node) : Option Shortcut :=
  if n.verdict .categoryChild = .shortcut then madeShortcut n else none

/-- The group made of a child of a category, if there is one. -/
def directGroup (n : Node) : Option Group :=
  if n.verdict .categoryChild = .container then madeGroup n else none

/-- The category made of a node at the top, if there is one and it has a key. -/
def madeCategory (n : Node) : Option Category := (categoryOf n).1.filter (·.key ≠ "")

/-! ## Entries of groups -/

theorem keyedOrDrop_fst (n : Node) (made : Option Group × List Event) :
    (keyedOrDrop n made).1 = made.1.filter (·.key ≠ "") := by
  obtain ⟨g | g, es⟩ := made
  · rfl
  · by_cases h : g.key = "" <;> simp [keyedOrDrop, Option.filter, h]

theorem madeEntry_eq (n : Node) :
    madeEntry n = match n.verdict .groupChild with
      | .shortcut => (madeShortcut n).map .shortcut
      | .container => (madeGroup n).map .group
      | .dropped _ => none := by
  unfold madeEntry entryOf
  cases n.verdict .groupChild <;> rfl

theorem storeEntry_fst (scope : Scope) (m : Keyed Entry) (e : Option Entry) :
    (storeEntry scope m e).1 = m.insertAll entryHints e.toList := by
  cases e <;> rfl

/-- The entries of a group are what is made of its children, stored in order. -/
theorem entriesOf_fst (scope : Scope) (m : Keyed Entry) (ns : List Node) :
    (entriesOf scope m ns).1 = m.insertAll entryHints (ns.filterMap madeEntry) := by
  induction ns generalizing m with
  | nil => simp [entriesOf, insertAll]
  | cons n ns ih =>
    have hstep : (entriesOf scope m (n :: ns)).1
        = (entriesOf scope (storeEntry scope m (madeEntry n)).1 ns).1 := by
      rw [entriesOf]
      rfl
    rw [hstep, ih, storeEntry_fst, ← insertAll_append]
    cases h : madeEntry n <;> simp [h]

/-- A container with a name becomes a group of what is made of its children, unless that is
nothing. -/
theorem groupOf_fst (n : Node) :
    (groupOf n).1 = n.nonEmptyName.bind fun name => n.children.bind fun nodes =>
      let entries := insertAll entryHints [] (nodes.filterMap madeEntry)
      if entries = [] then none
      else some
        { name := DisplayName.clean name
          key := DisplayName.key name
          sourceIdentifier := n.identifier.getD ""
          entries } := by
  obtain ⟨a, children⟩ := n
  unfold Node.nonEmptyName
  rw [groupOf]
  cases a.name.filter (· ≠ "") with
  | none => rfl
  | some name =>
    cases children with
    | none => rfl
    | some nodes =>
      have hentries := entriesOf_fst (.group (DisplayName.key name)) [] nodes
      by_cases hempty : insertAll entryHints [] (nodes.filterMap madeEntry) = []
      · simp [hentries, hempty]
      · simp [hentries, hempty]

/-! ## Categories -/

/-- A child of a category adds to its shortcuts or to its groups, if it adds anything. -/
theorem addToCategory_fst (scope : Scope) (c : Category) (n : Node) :
    (addToCategory scope c n).1 =
      { c with
        shortcuts := c.shortcuts.insertAll shortcutHints (directShortcut n).toList
        subgroups := c.subgroups.insertAll groupHints (directGroup n).toList } := by
  unfold addToCategory directShortcut directGroup madeShortcut madeGroup
  cases n.verdict .categoryChild with
  | shortcut =>
    obtain ⟨s | s, es⟩ := shortcutOrDrop n
    · rfl
    · rfl
  | container =>
    obtain ⟨g | g, es⟩ := keyedOrDrop n (groupOf n)
    · rfl
    · rfl
  | dropped r => rfl

theorem addEach_addToCategory_fst (scope : Scope) (c : Category) (ns : List Node) :
    (addEach (addToCategory scope) c ns).1 =
      { c with
        shortcuts := c.shortcuts.insertAll shortcutHints (ns.filterMap directShortcut)
        subgroups := c.subgroups.insertAll groupHints (ns.filterMap directGroup) } := by
  induction ns generalizing c with
  | nil => rfl
  | cons n ns ih =>
    -- only the category is passed on from child to child, not the events
    have hstep : (addEach (addToCategory scope) c (n :: ns)).1
        = (addEach (addToCategory scope) (addToCategory scope c n).1 ns).1 := rfl
    rw [hstep, ih, addToCategory_fst]
    simp only [← insertAll_append]
    cases hs : directShortcut n <;> cases hg : directGroup n <;> simp [hs, hg]

/-- A node with a name and an identifier becomes a category of what is made of its children. -/
theorem categoryOf_fst (n : Node) :
    (categoryOf n).1 = n.nonEmptyName.bind fun name => n.nonEmptyIdentifier.map fun identifier =>
      { name := DisplayName.clean name
        key := DisplayName.key name
        sourceIdentifier := identifier
        shortcuts := insertAll shortcutHints [] (n.childNodes.filterMap directShortcut)
        subgroups := insertAll groupHints [] (n.childNodes.filterMap directGroup) } := by
  unfold categoryOf
  cases n.nonEmptyName with
  | none => rfl
  | some name =>
    cases n.nonEmptyIdentifier with
    | none => rfl
    | some identifier => simp [addEach_addToCategory_fst]

theorem addCategory_fst (m : Keyed Category) (n : Node) :
    (addCategory m n).1 = m.insertAll categoryHints (madeCategory n).toList := by
  unfold addCategory madeCategory
  obtain ⟨c | c, es⟩ := categoryOf n
  · rfl
  · by_cases h : c.key = ""
    · simp [Option.filter, h, insertAll]
    · simp [Option.filter, h, insertAll, store]

theorem addEach_addCategory_fst (m : Keyed Category) (ns : List Node) :
    (addEach addCategory m ns).1 = m.insertAll categoryHints (ns.filterMap madeCategory) := by
  induction ns generalizing m with
  | nil => rfl
  | cons n ns ih =>
    have hstep : (addEach addCategory m (n :: ns)).1
        = (addEach addCategory (addCategory m n).1 ns).1 := rfl
    rw [hstep, ih, addCategory_fst, ← insertAll_append]
    cases h : madeCategory n <;> simp [h]

/-- The tree is what is made of the nodes at the top, stored in order. -/
theorem ofNodes_categories (ns : List Node) :
    (ofNodes ns).categories = insertAll categoryHints [] (ns.filterMap madeCategory) :=
  addEach_addCategory_fst [] ns

end Build

end HotkeyTree
