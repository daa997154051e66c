import HotkeyTree.Proofs.Reports

/-!
# Proofs: why nothing is made of a node

What is reported of a node is what happens below it and, at the end, that the node itself was
dropped, if it was. Here the reason for that is said of the node alone, and the reports on nodes are
taken apart accordingly. Nothing is made of a node exactly if there is a reason.
-/

namespace HotkeyTree

namespace Build

open Keyed
open scoped List

/-! ## Reasons -/

/-- Why a node cannot be named. -/
def nameReason? (n : Node) : Option DropReason :=
  match n.nonEmptyName with
  | none => some .missingName
  | some name => if DisplayName.key name = "" then some .emptyKey else none

/-- Why no group is made of a container. -/
def groupReason? (n : Node) : Option DropReason :=
  if n.nonEmptyName ≠ none ∧ ∀ c ∈ n.childNodes, madeEntry c = none then some .emptyContainer
  else nameReason? n

/-- Why nothing is made of a node below a category or a group. -/
def reason? (p : Position) (n : Node) : Option DropReason :=
  match n.verdict p with
  | .shortcut => nameReason? n
  | .container => groupReason? n
  | .dropped r => some r

/-- Why no category is made of a node at the top. -/
def categoryReason? (n : Node) : Option DropReason :=
  if n.nonEmptyName ≠ none ∧ n.nonEmptyIdentifier = none then some .missingIdentifier
  else nameReason? n

/-- The report that a node was dropped, if there is a reason. -/
def dropReport (n : Node) (r : Option DropReason) : List Event :=
  (r.map (.dropped n.toAttributes)).toList

/-! ## What happens below a node -/

/-- What happens when a container is filled. -/
def groupWalk (n : Node) : List Event :=
  match n.nonEmptyName with
  | none => []
  | some name => (entriesOf (.group (DisplayName.key name)) [] n.childNodes).2

/-- What happens below a child of a category or a group. -/
def walkBelow (p : Position) (n : Node) : List Event :=
  if n.verdict p = .container then groupWalk n else []

/-- What is reported of a child of a category or a group. -/
def childReports (p : Position) (n : Node) : List Event :=
  walkBelow p n ++ dropReport n (reason? p n)

/-- What happens when a category is filled. -/
def categoryWalk (n : Node) : List Event :=
  match n.nonEmptyName, n.nonEmptyIdentifier with
  | some name, some identifier =>
    (addEach (addToCategory (.category (DisplayName.key name)))
      { name := DisplayName.clean name
        key := DisplayName.key name
        sourceIdentifier := identifier }
      n.childNodes).2
  | _, _ => []

/-! ## Verdicts -/

theorem verdict_eq_container {p : Position} {n : Node} (h : n.verdict p = .container) :
    n.children ≠ none ∧ n.hotkeyId = none := by
  unfold Node.verdict at h
  split_ifs at h with hdirect hname hlabel hid hnil
  · exact ⟨Option.isSome_iff_ne_none.1 hdirect.2.1, Option.isNone_iff_eq_none.1 hdirect.2.2⟩
  · refine ⟨fun hnone => ?_, by simpa using hid⟩
    simp [Node.childNodes_eq_nil hnone] at hnil

theorem verdict_eq_shortcut {p : Position} {n : Node} (h : n.verdict p = .shortcut) :
    ∃ name id, n.nonEmptyName = some name ∧ n.hotkeyId = some id := by
  unfold Node.verdict at h
  split_ifs at h with h1 h2 h3 h4
  obtain ⟨name, hname⟩ := Option.ne_none_iff_exists'.1 (mt Option.isNone_iff_eq_none.2 h2)
  obtain ⟨id, hid⟩ := Option.isSome_iff_exists.1 h4
  exact ⟨name, id, hname, hid⟩

/-! ## Shortcuts -/

/-- A node with the verdict of a shortcut reports nothing or that its name gives no key. -/
theorem shortcutOrDrop_snd {p : Position} {n : Node} (h : n.verdict p = .shortcut) :
    (shortcutOrDrop n).2 = dropReport n (nameReason? n) := by
  obtain ⟨name, id, hname, hid⟩ := verdict_eq_shortcut h
  unfold shortcutOrDrop shortcutOf nameReason?
  by_cases hkey : DisplayName.key name = "" <;> simp [hname, hid, hkey, dropReport]

theorem madeShortcut_eq_none_iff {p : Position} {n : Node} (h : n.verdict p = .shortcut) :
    madeShortcut n = none ↔ nameReason? n ≠ none := by
  obtain ⟨name, id, hname, hid⟩ := verdict_eq_shortcut h
  unfold madeShortcut shortcutOrDrop shortcutOf nameReason?
  by_cases hkey : DisplayName.key name = "" <;> simp [hname, hid, hkey]

/-! ## Groups -/

theorem insertAll_eq_nil_iff {α : Type} [HasKey α] (hints : α → Hints) (as : List α) :
    insertAll hints [] as = [] ↔ as = [] := by
  have hlen := (forall₂_insertAll hints as).length_eq
  rw [← List.length_eq_zero_iff, ← hlen, List.length_eq_zero_iff]

/-- The group of a container with a name, which may also have no child list. -/
theorem groupOf_fst_of_named {n : Node} {name : String} (hname : n.nonEmptyName = some name) :
    (groupOf n).1 =
      if insertAll entryHints [] (n.childNodes.filterMap madeEntry) = [] then none
      else some
        { name := DisplayName.clean name
          key := DisplayName.key name
          sourceIdentifier := n.identifier.getD ""
          entries := insertAll entryHints [] (n.childNodes.filterMap madeEntry) } := by
  rw [groupOf_fst, hname, Option.bind_some]
  unfold Node.childNodes
  cases n.children with
  | none => rfl
  | some nodes => rfl

/-- A group is made of a container with a name of which something is made of a child. -/
theorem groupOf_fst_eq_none_iff (n : Node) :
    (groupOf n).1 = none ↔
      n.nonEmptyName = none ∨ ∀ c ∈ n.childNodes, madeEntry c = none := by
  cases hname : n.nonEmptyName with
  | none => simp [groupOf_fst, hname]
  | some name => simp [groupOf_fst_of_named hname, insertAll_eq_nil_iff]

/-- What is reported of a container: what happens below it, then that nothing came of it. -/
theorem groupOf_snd (n : Node) :
    (groupOf n).2 = groupWalk n ++ dropReport n
      (if n.nonEmptyName = none then some .missingName
        else if (groupOf n).1 = none then some .emptyContainer else none) := by
  obtain ⟨a, children⟩ := n
  have hname : (Node.mk a children).nonEmptyName = a.name.filter (· ≠ "") := rfl
  unfold groupWalk
  rw [groupOf, hname]
  cases a.name.filter (· ≠ "") with
  | none => rfl
  | some name =>
    cases children with
    | none => rfl
    | some nodes =>
      simp only [Node.childNodes, Option.getD_some]
      by_cases hempty : (entriesOf (.group (DisplayName.key name)) [] nodes).1 = []
      · simp [dropReport, hempty]
      · simp [dropReport, hempty]

theorem keyedOrDrop_snd (n : Node) (made : Option Group × List Event) :
    (keyedOrDrop n made).2 = made.2 ++ dropReport n
      (if made.1.any (·.key = "") then some .emptyKey else none) := by
  obtain ⟨_ | g, es⟩ := made
  · simp [keyedOrDrop, dropReport]
  · by_cases hkey : g.key = "" <;> simp [keyedOrDrop, dropReport, hkey]

/-- The group that is made of a container with entries has the key of its name. -/
theorem key_of_groupOf_fst {n : Node} {g : Group} {name : String} (h : (groupOf n).1 = some g)
    (hname : n.nonEmptyName = some name) : g.key = DisplayName.key name := by
  rw [groupOf_fst_of_named hname, Option.ite_none_left_eq_some, Option.some.injEq] at h
  rw [← h.2]

theorem groupReason?_of_named {n : Node} {name : String} (hname : n.nonEmptyName = some name) :
    groupReason? n = if (groupOf n).1 = none then some .emptyContainer
      else if DisplayName.key name = "" then some .emptyKey else none := by
  unfold groupReason? nameReason?
  simp [groupOf_fst_eq_none_iff, hname]

theorem keyedOrDrop_groupOf_snd_eq (n : Node) :
    (keyedOrDrop n (groupOf n)).2 = groupWalk n ++ dropReport n (groupReason? n) := by
  rw [keyedOrDrop_snd, groupOf_snd]
  cases hname : n.nonEmptyName with
  | none =>
    have hnone := (groupOf_fst_eq_none_iff n).2 (Or.inl hname)
    simp [groupReason?, nameReason?, hname, hnone, dropReport]
  | some name =>
    rw [groupReason?_of_named hname]
    cases hmade : (groupOf n).1 with
    | none => simp [dropReport]
    | some g =>
      have hkey := key_of_groupOf_fst hmade hname
      simp [dropReport, hkey]

theorem madeGroup_eq_none_iff (n : Node) : madeGroup n = none ↔ groupReason? n ≠ none := by
  rw [madeGroup, keyedOrDrop_fst]
  cases hname : n.nonEmptyName with
  | none =>
    have hnone := (groupOf_fst_eq_none_iff n).2 (Or.inl hname)
    simp [groupReason?, nameReason?, hname, hnone]
  | some name =>
    rw [groupReason?_of_named hname]
    cases hmade : (groupOf n).1 with
    | none => simp
    | some g =>
      have hkey := key_of_groupOf_fst hmade hname
      by_cases hempty : DisplayName.key name = "" <;> simp [Option.filter, hkey, hempty]

/-! ## Children of groups and categories -/

theorem entryEvents_eq : entryEvents = childReports .groupChild := by
  funext n
  unfold entryEvents entryOf childReports walkBelow reason?
  cases hv : n.verdict .groupChild with
  | shortcut => exact shortcutOrDrop_snd hv
  | container => exact keyedOrDrop_groupOf_snd_eq n
  | dropped r => rfl

theorem madeEntry_eq_none_iff (n : Node) :
    madeEntry n = none ↔ reason? .groupChild n ≠ none := by
  rw [madeEntry_eq]
  unfold reason?
  cases hv : n.verdict .groupChild with
  | shortcut => exact Option.map_eq_none_iff.trans (madeShortcut_eq_none_iff hv)
  | container => exact Option.map_eq_none_iff.trans (madeGroup_eq_none_iff n)
  | dropped r => simp

theorem childEvents_eq : childEvents = childReports .categoryChild := by
  funext n
  unfold childEvents childReports walkBelow reason?
  cases hv : n.verdict .categoryChild with
  | shortcut => exact shortcutOrDrop_snd hv
  | container => exact keyedOrDrop_groupOf_snd_eq n
  | dropped r => rfl

theorem direct_eq_none_iff (n : Node) :
    directShortcut n = none ∧ directGroup n = none ↔ reason? .categoryChild n ≠ none := by
  unfold directShortcut directGroup reason?
  cases hv : n.verdict .categoryChild with
  | shortcut => simpa using madeShortcut_eq_none_iff hv
  | container => simpa using madeGroup_eq_none_iff n
  | dropped r => simp

/-! ## Nodes at the top -/

theorem categoryEvents_eq (n : Node) :
    categoryEvents n = categoryWalk n ++ dropReport n (categoryReason? n) := by
  unfold categoryEvents categoryOf categoryWalk categoryReason? nameReason?
  cases hname : n.nonEmptyName with
  | none => simp [dropReport]
  | some name =>
    cases hident : n.nonEmptyIdentifier with
    | none => simp [dropReport]
    | some identifier =>
      by_cases hkey : DisplayName.key name = "" <;>
        simp [dropReport, hkey, addEach_addToCategory_fst]

theorem madeCategory_eq_none_iff (n : Node) :
    madeCategory n = none ↔ categoryReason? n ≠ none := by
  rw [madeCategory, categoryOf_fst]
  unfold categoryReason? nameReason?
  cases hname : n.nonEmptyName with
  | none => simp
  | some name =>
    cases hident : n.nonEmptyIdentifier with
    | none => simp
    | some identifier => by_cases hkey : DisplayName.key name = "" <;> simp [Option.filter, hkey]

/-! ## Walks over children -/

/-- A container is filled by what its children report and the renamings among them. -/
theorem groupWalk_perm {n : Node} {name : String} (hname : n.nonEmptyName = some name) :
    groupWalk n ~ n.childNodes.flatMap (childReports .groupChild) ++
      renamed (.group (DisplayName.key name))
        (renamings entryHints [] (n.childNodes.filterMap madeEntry)) := by
  unfold groupWalk
  rw [hname, ← entryEvents_eq]
  exact entriesOf_snd_perm _ _ _

theorem categoryWalk_perm {n : Node} {name identifier : String}
    (hname : n.nonEmptyName = some name) (hident : n.nonEmptyIdentifier = some identifier) :
    categoryWalk n ~ n.childNodes.flatMap (childReports .categoryChild) ++
      renamed (.category (DisplayName.key name))
        (renamings shortcutHints [] (n.childNodes.filterMap directShortcut) ++
          renamings groupHints [] (n.childNodes.filterMap directGroup)) := by
  unfold categoryWalk
  rw [hname, hident, ← childEvents_eq]
  exact addEach_addToCategory_snd_perm _ _ _

end Build

end HotkeyTree
