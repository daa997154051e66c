import HotkeyTree.Proofs.Insertions
import HotkeyTree.Proofs.Soundness

/-!
# Proofs: what is reported of the making

The builder chains the events of its walk: what happened when something was made of a node, then
what happened when that was stored, then the next node. Here the two kinds are told apart. Up to
their order, the events of a walk over some nodes are those of making something of every node, and
the renamings of the mapping in which it was stored; which renamings these are can be read off the
mapping (`renamings_eq`).
-/

namespace HotkeyTree

open scoped List

/-- The renaming that a slot tells of: the entry is not under the key of its name. -/
def Label.renaming? (l : Label) : Option Keyed.Renaming :=
  if l.stored = DisplayName.key l.name then none else some ⟨DisplayName.key l.name, l.stored⟩

namespace Keyed

variable {α : Type} [HasKey α]

/-! ## Renamings -/

/-- The renamings when entries are stored one after the other, each with its hints. -/
def renamings (hints : α → Hints) : Keyed α → List α → List Renaming
  | _, [] => []
  | m, a :: as =>
    (m.insertFresh a (hints a)).2.toList ++ renamings hints (m.insertFresh a (hints a)).1 as

theorem renamings_append (hints : α → Hints) (m : Keyed α) (as bs : List α) :
    renamings hints m (as ++ bs) =
      renamings hints m as ++ renamings hints (m.insertAll hints as) bs := by
  induction as generalizing m with
  | nil => rfl
  | cons a as ih =>
    rw [List.cons_append, renamings, renamings, ih, List.append_assoc]
    rfl

/-- The renamings that the first of some nodes brings, and those of the others after it. -/
theorem renamings_filterMap_cons (hints : α → Hints) (make : Node → Option α) (m : Keyed α)
    (n : Node) (ns : List Node) :
    renamings hints m ((n :: ns).filterMap make) = renamings hints m (make n).toList ++
      renamings hints (m.insertAll hints (make n).toList) (ns.filterMap make) := by
  rw [← renamings_append]
  cases h : make n <;> simp [h]

variable [Labelled α]

theorem labels_append (m m' : Keyed α) : labels (m ++ m') = m.labels ++ labels m' :=
  List.map_append

/-- The label of an entry that was just stored tells if it was renamed, since it was made with the
key of its name. -/
theorem renaming?_slotOf {m : Keyed α} {a : α} (hmade : FreshlyMade a) (h : Hints) :
    (labels [slotOf m a h]).filterMap Label.renaming? = (m.insertFresh a h).2.toList := by
  rw [insertFresh_snd]
  by_cases hfree : HasKey.key a ∉ m.keys
  · have hsame : storedKey m a h = DisplayName.key (Labelled.name a) :=
      (storedKey_of_free hfree h).trans hmade.key_eq
    rw [has_eq_false_iff.2 hfree]
    simp [labels, Label.renaming?, slotOf, hsame, Labelled.name_withKey]
  · have hother : storedKey m a h ≠ DisplayName.key (Labelled.name a) := by
      rw [← hmade.key_eq]
      exact fun heq => hfree (storedKey_eq_iff.1 heq)
    rw [if_pos (has_iff.2 (not_not.1 hfree))]
    simp [labels, Label.renaming?, slotOf, hother, Labelled.name_withKey, hmade.key_eq]

variable [LawfulHasKey α]

theorem exists_renamings_eq (hints : α → Hints) (m : Keyed α) {as : List α}
    (hmade : ∀ a ∈ as, FreshlyMade a) :
    ∃ slots, m.insertAll hints as = m ++ slots ∧
      renamings hints m as = (labels slots).filterMap Label.renaming? := by
  induction as generalizing m with
  | nil => exact ⟨[], (List.append_nil m).symm, rfl⟩
  | cons a as ih =>
    obtain ⟨slots, hslots, hrenamings⟩ :=
      ih (m ++ [slotOf m a (hints a)]) fun b hb => hmade b (List.mem_cons_of_mem _ hb)
    have hfirst := renaming?_slotOf (m := m) (hmade a List.mem_cons_self) (hints a)
    refine ⟨slotOf m a (hints a) :: slots, ?_, ?_⟩
    · rw [insertAll, insertFresh_fst_eq, hslots, List.append_assoc, List.singleton_append]
    · rw [renamings, insertFresh_fst_eq, hrenamings, ← hfirst, ← List.filterMap_append,
        ← labels_append, List.singleton_append]

theorem renamings_eq (hints : α → Hints) {as : List α} (hmade : ∀ a ∈ as, FreshlyMade a) :
    renamings hints [] as = (insertAll hints [] as).labels.filterMap Label.renaming? := by
  obtain ⟨slots, hslots, hrenamings⟩ := exists_renamings_eq hints [] hmade
  rw [hrenamings, hslots, List.nil_append]

end Keyed

namespace Build

open Keyed

/-! ## Walks -/

/-- What a step reports is, up to order, what its node brings along and what was due before the
step but is no more. Then a walk reports what its nodes bring along and what was due. -/
theorem addEach_snd_perm {σ : Type} {add : σ → Node → σ × List Event} {brought : Node → List Event}
    (due : σ → List Node → List Event) (hnil : ∀ s, due s [] = [])
    (hstep : ∀ s n ns, (add s n).2 ++ due (add s n).1 ns ~ brought n ++ due s (n :: ns))
    (s : σ) (ns : List Node) : (addEach add s ns).2 ~ ns.flatMap brought ++ due s ns := by
  induction ns generalizing s with
  | nil =>
    rw [hnil]
    exact List.Perm.refl _
  | cons n ns ih =>
    calc (add s n).2 ++ (addEach add (add s n).1 ns).2
      _ ~ (add s n).2 ++ (ns.flatMap brought ++ due (add s n).1 ns) := (ih _).append_left _
      _ ~ ns.flatMap brought ++ ((add s n).2 ++ due (add s n).1 ns) :=
        List.perm_append_comm_assoc _ _ _
      _ ~ ns.flatMap brought ++ (brought n ++ due s (n :: ns)) := (hstep s n ns).append_left _
      _ ~ brought n ++ (ns.flatMap brought ++ due s (n :: ns)) :=
        List.perm_append_comm_assoc _ _ _
      _ = (n :: ns).flatMap brought ++ due s (n :: ns) := by
        rw [List.flatMap_cons, List.append_assoc]

/-- The renamings of a mapping, as events. -/
def renamed (scope : Scope) (rs : List Renaming) : List Event := rs.map (.renamed scope)

theorem renamed_append (scope : Scope) (rs rs' : List Renaming) :
    renamed scope (rs ++ rs') = renamed scope rs ++ renamed scope rs' :=
  List.map_append

theorem store_snd {α : Type} [HasKey α] (scope : Scope) (hints : α → Hints) (m : Keyed α) (a : α) :
    (store scope m a (hints a)).2 = renamed scope (renamings hints m [a]) := by
  show ((m.insertFresh a (hints a)).2.map _).toList = _
  cases h : (m.insertFresh a (hints a)).2 <;> simp [renamed, renamings, h]

/-! ## Groups -/

def entryEvents (n : Node) : List Event := (entryOf n fun _ => groupOf n).2

/-- Adds a child of a group to the entries. -/
def addEntry (scope : Scope) (m : Keyed Entry) (n : Node) : Keyed Entry × List Event :=
  let stored := storeEntry scope m (madeEntry n)
  (stored.1, entryEvents n ++ stored.2)

theorem entriesOf_eq_addEach (scope : Scope) (m : Keyed Entry) (ns : List Node) :
    entriesOf scope m ns = addEach (addEntry scope) m ns := by
  induction ns generalizing m with
  | nil => rfl
  | cons n ns ih =>
    rw [entriesOf, addEach]
    simp only [ih, addEntry, madeEntry, entryEvents]

theorem storeEntry_snd (scope : Scope) (m : Keyed Entry) (e : Option Entry) :
    (storeEntry scope m e).2 = renamed scope (renamings entryHints m e.toList) := by
  cases e with
  | none => rfl
  | some e => exact store_snd scope entryHints m e

theorem entriesOf_snd_perm (scope : Scope) (m : Keyed Entry) (ns : List Node) :
    (entriesOf scope m ns).2 ~
      ns.flatMap entryEvents ++
        renamed scope (renamings entryHints m (ns.filterMap madeEntry)) := by
  rw [entriesOf_eq_addEach]
  refine addEach_snd_perm
    (fun m ns => renamed scope (renamings entryHints m (ns.filterMap madeEntry)))
    (fun _ => rfl) ?_ m ns
  intro m n ns
  rw [renamings_filterMap_cons, renamed_append, ← List.append_assoc, ← storeEntry_snd,
    ← storeEntry_fst]
  exact List.Perm.refl _

/-- A group that is made reports what its entries report. -/
theorem keyedOrDrop_groupOf_snd {n : Node} {g : Group} (h : madeGroup n = some g) :
    (keyedOrDrop n (groupOf n)).2 =
      (entriesOf (.group (DisplayName.key g.name)) [] n.childNodes).2 := by
  obtain ⟨a, children⟩ := n
  rw [madeGroup, groupOf] at h
  rw [groupOf]
  cases hname : a.name.filter (· ≠ "") with
  | none =>
    rw [hname] at h
    contradiction
  | some name =>
    rw [hname] at h
    cases children with
    | none => contradiction
    | some nodes =>
      show (keyedOrDrop _ _).2 = (entriesOf _ [] nodes).2
      simp only at h ⊢
      by_cases hempty : (entriesOf (.group (DisplayName.key name)) [] nodes).1.isEmpty = true
      · rw [if_pos hempty] at h
        contradiction
      · rw [if_neg hempty] at h ⊢
        by_cases hkey : DisplayName.key name = ""
        · simp [keyedOrDrop, hkey] at h
        · simp only [keyedOrDrop, hkey, if_false, Option.some.injEq] at h ⊢
          rw [← h, DisplayName.key_clean]

/-! ## Categories -/

/-- What happens when something is made of a child of a category. -/
def childEvents (n : Node) : List Event :=
  match n.verdict .categoryChild with
  | .shortcut => (shortcutOrDrop n).2
  | .container => (keyedOrDrop n (groupOf n)).2
  | .dropped r => [.dropped n.toAttributes r]

/-- The renamings in the two mappings of a category. -/
def categoryRenamings (c : Category) (ns : List Node) : List Renaming :=
  renamings shortcutHints c.shortcuts (ns.filterMap directShortcut) ++
    renamings groupHints c.subgroups (ns.filterMap directGroup)

theorem addToCategory_snd (scope : Scope) (c : Category) (n : Node) :
    (addToCategory scope c n).2 = childEvents n ++
      (renamed scope (renamings shortcutHints c.shortcuts (directShortcut n).toList) ++
        renamed scope (renamings groupHints c.subgroups (directGroup n).toList)) := by
  unfold addToCategory childEvents directShortcut directGroup madeShortcut madeGroup
  cases n.verdict .categoryChild with
  | shortcut =>
    obtain ⟨s | s, es⟩ := shortcutOrDrop n
    · simp [renamed, renamings]
    · simp [store_snd, renamed, renamings]
  | container =>
    obtain ⟨g | g, es⟩ := keyedOrDrop n (groupOf n)
    · simp [renamed, renamings]
    · simp [store_snd, renamed, renamings]
  | dropped r => simp [renamed, renamings]

theorem addEach_addToCategory_snd_perm (scope : Scope) (c : Category) (ns : List Node) :
    (addEach (addToCategory scope) c ns).2 ~
      ns.flatMap childEvents ++ renamed scope (categoryRenamings c ns) := by
  refine addEach_snd_perm (fun c ns => renamed scope (categoryRenamings c ns))
    (fun _ => rfl) ?_ c ns
  intro c n ns
  simp only [categoryRenamings, renamings_filterMap_cons, renamed_append, addToCategory_snd,
    addToCategory_fst, List.append_assoc]
  -- the renamings of the groups come before those of later shortcuts
  refine List.Perm.append_left _ (List.Perm.append_left _ ?_)
  exact List.perm_append_comm_assoc _ _ _

/-- What happens when a category is made of a node. -/
def categoryEvents (n : Node) : List Event :=
  match categoryOf n with
  | (some c, es) => if c.key = "" then es ++ [.dropped n.toAttributes .emptyKey] else es
  | (none, es) => es

theorem addCategory_snd (m : Keyed Category) (n : Node) :
    (addCategory m n).2 = categoryEvents n ++
      renamed .categories (renamings categoryHints m (madeCategory n).toList) := by
  unfold addCategory categoryEvents madeCategory
  obtain ⟨c | c, es⟩ := categoryOf n
  · simp [renamed, renamings]
  · by_cases h : c.key = ""
    · simp [Option.filter, h, renamed, renamings]
    · simp [Option.filter, h, store_snd]

theorem events_ofNodes_perm (ns : List Node) :
    (ofNodes ns).events ~
      ns.flatMap categoryEvents ++
        renamed .categories (renamings categoryHints [] (ns.filterMap madeCategory)) := by
  refine addEach_snd_perm
    (fun m ns => renamed .categories (renamings categoryHints m (ns.filterMap madeCategory)))
    (fun _ => rfl) ?_ [] ns
  intro m n ns
  rw [renamings_filterMap_cons, renamed_append, addCategory_snd, addCategory_fst,
    List.append_assoc]

/-- A category that is made reports what its children report and the renamings among them. -/
theorem categoryEvents_perm {n : Node} {c : Category} (h : madeCategory n = some c) :
    categoryEvents n ~
      n.childNodes.flatMap childEvents ++
        renamed (.category (DisplayName.key c.name))
          (renamings shortcutHints [] (n.childNodes.filterMap directShortcut) ++
            renamings groupHints [] (n.childNodes.filterMap directGroup)) := by
  obtain ⟨name, identifier, hname, hident, hkey, rfl⟩ := madeCategory_eq_some h
  unfold categoryEvents categoryOf
  simp only [hname, hident]
  rw [addEach_addToCategory_fst]
  simp only [hkey, if_false]
  rw [DisplayName.key_clean]
  exact addEach_addToCategory_snd_perm _ _ _

end Build

end HotkeyTree
