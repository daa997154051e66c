import HotkeyTree.Proofs.Insertions
import HotkeyTree.Proofs.Soundness

/-!
# Proofs: how a tree grows with its forest

Two runs of the builder are compared: on some nodes, and on these with more after them. Under which
key an entry is stored depends on the keys before it and on nothing else that is stored there, so
what comes later never reaches back, and what is added inside a category stays in it. Across the
border the keys of the later categories may differ, since the earlier ones are in their way.
-/

namespace HotkeyTree

namespace Keyed

variable {α : Type}

/-! ## Two mappings with the same keys -/

theorem numbered_congr {m m' : Keyed α} (hkeys : m.keys = m'.keys) (base : String)
    (fuel n : Nat) : numbered m base fuel n = numbered m' base fuel n := by
  induction fuel generalizing n with
  | zero => rfl
  | succ fuel ih =>
    have hhas : m.has (base ++ toString n) = m'.has (base ++ toString n) := by
      unfold has
      rw [hkeys]
    rw [numbered, numbered, hhas, ih]

variable [HasKey α]

theorem storedKey_congr {m m' : Keyed α} (hkeys : m.keys = m'.keys) (a : α) (h : Hints) :
    storedKey m a h = storedKey m' a h := by
  have hhas : m.has = m'.has := by
    funext k
    unfold has
    rw [hkeys]
  have hlen : m.length = m'.length := by
    simpa [keys] using congrArg List.length hkeys
  unfold storedKey freshKey
  rw [hhas, hlen, numbered_congr hkeys]

variable [LawfulHasKey α]

/-- What is stored after a mapping, and under which keys, depends on the keys of the mapping. -/
theorem exists_insertAll_of_keys_eq (hints : α → Hints) (as : List α) {m m' : Keyed α}
    (hkeys : m.keys = m'.keys) :
    ∃ rest, m.insertAll hints as = m ++ rest ∧ m'.insertAll hints as = m' ++ rest := by
  induction as generalizing m m' with
  | nil => exact ⟨[], (List.append_nil m).symm, (List.append_nil m').symm⟩
  | cons a as ih =>
    have hslot : slotOf m' a (hints a) = slotOf m a (hints a) := by
      unfold slotOf
      rw [storedKey_congr hkeys]
    have hkeys' : keys (m ++ [slotOf m a (hints a)]) = keys (m' ++ [slotOf m a (hints a)]) := by
      rw [keys_append, keys_append, hkeys]
    obtain ⟨rest, h, h'⟩ := ih hkeys'
    refine ⟨slotOf m a (hints a) :: rest, ?_, ?_⟩
    · rw [insertAll, insertFresh_fst_eq, h, List.append_assoc, List.singleton_append]
    · rw [insertAll, insertFresh_fst_eq, hslot, h', List.append_assoc, List.singleton_append]

theorem Stores.snd_eq {a : α} {slot : String × α} (h : Stores a slot) :
    slot.2 = HasKey.withKey a slot.1 := by
  rcases h with rfl | ⟨suffix, rfl⟩
  · exact (LawfulHasKey.withKey_key a).symm
  · rfl

/-- The same entries stored in two places differ at most in their keys. -/
theorem forall₂_withKey_of_stores {as : List α} {m m' : Keyed α}
    (h : List.Forall₂ Stores as m) (h' : List.Forall₂ Stores as m') :
    List.Forall₂ (fun slot slot' => HasKey.withKey slot.2 (HasKey.key slot'.2) = slot'.2) m m' := by
  induction h generalizing m' with
  | nil =>
    cases h'
    exact .nil
  | cons hslot _ ih =>
    cases h' with
    | cons hslot' hrest =>
      refine .cons ?_ (ih hrest)
      rw [hslot.snd_eq, hslot'.snd_eq, LawfulHasKey.key_withKey, LawfulHasKey.withKey_withKey]

end Keyed

namespace Build

open Keyed

theorem addEach_append {σ : Type} (add : σ → Node → σ × List Event) (s : σ) (ns ms : List Node) :
    addEach add s (ns ++ ms) =
      ((addEach add (addEach add s ns).1 ms).1,
        (addEach add s ns).2 ++ (addEach add (addEach add s ns).1 ms).2) := by
  induction ns generalizing s with
  | nil => rfl
  | cons n ns ih =>
    show ((addEach add (add s n).1 (ns ++ ms)).1,
      (add s n).2 ++ (addEach add (add s n).1 (ns ++ ms)).2) = _
    rw [ih]
    simp [addEach]

/-! ## More nodes at the top -/

/-- What more nodes at the top do to a tree. -/
structure TopAppended (ns ms : List Node) : Prop where
  /-- They leave its categories alone and add their own, with other keys perhaps. -/
  categories : ∃ rest, (ofNodes (ns ++ ms)).categories = (ofNodes ns).categories ++ rest ∧
    List.Forall₂ (fun slot slot' => { slot.2 with key := slot'.2.key } = slot'.2) rest
      (ofNodes ms).categories
  warnings : (ofNodes ns).warnings <+: (ofNodes (ns ++ ms)).warnings

theorem topAppended (ns ms : List Node) : TopAppended ns ms := by
  constructor
  · obtain ⟨rest, hrest, hstores⟩ := insertAll_eq_append categoryHints
      (insertAll categoryHints [] (ns.filterMap madeCategory)) (ms.filterMap madeCategory)
    refine ⟨rest, ?_, ?_⟩
    · rw [ofNodes_categories, ofNodes_categories, List.filterMap_append, insertAll_append, hrest]
    · rw [ofNodes_categories]
      exact forall₂_withKey_of_stores hstores (forall₂_insertAll _ _)
  · show (addEach addCategory [] ns).2.filterMap Event.warning? <+:
      (addEach addCategory [] (ns ++ ms)).2.filterMap Event.warning?
    rw [addEach_append, List.filterMap_append]
    exact List.prefix_append _ _

/-! ## More nodes in a category -/

/-- A category to which shortcuts and groups were added, behind those it had. -/
def GrownTo (c c' : Category) : Prop :=
  ∃ shortcuts subgroups, c' =
    { c with shortcuts := c.shortcuts ++ shortcuts, subgroups := c.subgroups ++ subgroups }

/-- What more nodes at the end of its child list do to the category of a node `n` that has other
nodes before and after it. -/
def ChildrenAppended (before : List Node) (n : Node) (after more : List Node) : Prop :=
  ∃ k c c' rest,
    (ofNodes (before ++ n :: after)).categories = (ofNodes before).categories ++ (k, c) :: rest ∧
    (ofNodes (before ++ { n with children := some (n.childNodes ++ more) } :: after)).categories =
      (ofNodes before).categories ++ (k, c') :: rest ∧
    n.identifier = some c.sourceIdentifier ∧ n.name.map DisplayName.clean = some c.name ∧
    GrownTo c c'

/-- A node with a usable name and an identifier becomes a category, whatever is below it. -/
theorem madeCategory_of_usable {n : Node} {name identifier : String}
    (hname : n.nonEmptyName = some name) (hident : n.nonEmptyIdentifier = some identifier)
    (hkey : DisplayName.key name ≠ "") :
    madeCategory n = some
      { name := DisplayName.clean name
        key := DisplayName.key name
        sourceIdentifier := identifier
        shortcuts := insertAll shortcutHints [] (n.childNodes.filterMap directShortcut)
        subgroups := insertAll groupHints [] (n.childNodes.filterMap directGroup) } := by
  rw [madeCategory, categoryOf_fst, hname, hident]
  simp [Option.filter, hkey]

/-- The mapping of what is made of some nodes goes on with what is made of more. -/
theorem exists_insertAll_filterMap_append {α : Type} [HasKey α] (hints : α → Hints)
    (make : Node → Option α) (ns more : List Node) :
    ∃ rest, insertAll hints [] ((ns ++ more).filterMap make) =
      insertAll hints [] (ns.filterMap make) ++ rest := by
  obtain ⟨rest, hrest, -⟩ := insertAll_eq_append hints
    (insertAll hints [] (ns.filterMap make)) (more.filterMap make)
  refine ⟨rest, ?_⟩
  rw [List.filterMap_append, insertAll_append, hrest]

theorem ofNodes_append_cons_categories (before after : List Node) {n : Node} {c : Category}
    (hc : madeCategory n = some c) :
    (ofNodes (before ++ n :: after)).categories =
      insertAll categoryHints
        ((ofNodes before).categories ++ [slotOf (ofNodes before).categories c (categoryHints c)])
        (after.filterMap madeCategory) := by
  rw [ofNodes_categories, ofNodes_categories, List.filterMap_append, List.filterMap_cons_some hc,
    insertAll_append, insertAll, insertFresh_fst_eq]

/-- The key of a category depends on what stands before it, on the key of its name and on its
identifier. Two categories that agree in these are stored alike, and so is what comes after them. -/
theorem exists_categories_eq (before : List Node) {n n' : Node} {c c' : Category}
    (hc : madeCategory n = some c) (hc' : madeCategory n' = some c') (hkey : c'.key = c.key)
    (hident : c'.sourceIdentifier = c.sourceIdentifier) (after : List Node) :
    ∃ k rest,
      (ofNodes (before ++ n :: after)).categories =
        (ofNodes before).categories ++ (k, { c with key := k }) :: rest ∧
      (ofNodes (before ++ n' :: after)).categories =
        (ofNodes before).categories ++ (k, { c' with key := k }) :: rest := by
  have h := ofNodes_append_cons_categories before after hc
  have h' := ofNodes_append_cons_categories before after hc'
  generalize (ofNodes before).categories = m at h h' ⊢
  have hstored : storedKey m c' (categoryHints c') = storedKey m c (categoryHints c) := by
    have hhints : categoryHints c' = categoryHints c := by rw [categoryHints, hident, categoryHints]
    have hown : HasKey.key c' = HasKey.key c := hkey
    rw [storedKey, storedKey, hhints, hown]
  have hkeys : keys (m ++ [slotOf m c (categoryHints c)]) =
      keys (m ++ [slotOf m c' (categoryHints c')]) := by
    rw [keys_append, keys_append]
    simp [keys, slotOf, hstored]
  obtain ⟨rest, hrest, hrest'⟩ :=
    exists_insertAll_of_keys_eq categoryHints (after.filterMap madeCategory) hkeys
  refine ⟨storedKey m c (categoryHints c), rest, ?_, ?_⟩
  · rw [h, hrest, List.append_assoc]
    rfl
  · rw [h', hrest', slotOf, hstored, List.append_assoc]
    rfl

theorem childrenAppended {before after more : List Node} {n : Node} {name identifier : String}
    (hname : n.nonEmptyName = some name) (hident : n.nonEmptyIdentifier = some identifier)
    (hkey : DisplayName.key name ≠ "") : ChildrenAppended before n after more := by
  have hmade := madeCategory_of_usable hname hident hkey
  have hmade' := madeCategory_of_usable
    (n := { n with children := some (n.childNodes ++ more) }) hname hident hkey
  obtain ⟨k, rest, h, h'⟩ := exists_categories_eq before hmade hmade' rfl rfl after
  obtain ⟨shortcuts, hshortcuts⟩ :=
    exists_insertAll_filterMap_append shortcutHints directShortcut n.childNodes more
  obtain ⟨subgroups, hsubgroups⟩ :=
    exists_insertAll_filterMap_append groupHints directGroup n.childNodes more
  refine ⟨k, _, _, rest, h, h', (Option.filter_eq_some_iff.1 hident).1, ?_, shortcuts, subgroups,
    ?_⟩
  · rw [(Option.filter_eq_some_iff.1 hname).1]
    rfl
  · simp only [Node.childNodes, Option.getD_some] at hshortcuts hsubgroups ⊢
    rw [hshortcuts, hsubgroups]

/-- **A tree grows only at its ends.** More nodes at the top leave all categories and warnings as
they were, and more children of a category leave all but the ends of its two mappings. -/
theorem grows_ofNodes :
    (∀ ns ms, TopAppended ns ms) ∧
      ∀ before n after more name identifier, n.nonEmptyName = some name →
        n.nonEmptyIdentifier = some identifier → DisplayName.key name ≠ "" →
        ChildrenAppended before n after more :=
  ⟨topAppended, fun _ _ _ _ _ _ hname hident hkey => childrenAppended hname hident hkey⟩

/-- A category with the display name of others, for a shortcut to be added to. -/
def displayNode (identifier : String) (hotkeyIds : List Int64) : Node :=
  { name := some "Display"
    identifier := some identifier
    children := some (hotkeyIds.map fun id => { name := some "Fill", hotkeyId := some id }) }

theorem grows_displayNode :
    (displayNode "display.external" [1]).nonEmptyName = some "Display" ∧
      (displayNode "display.external" [1]).nonEmptyIdentifier = some "display.external" ∧
      DisplayName.key "Display" ≠ "" ∧
      ChildrenAppended [displayNode "display.main" [1]] (displayNode "display.external" [1])
        [displayNode "display.third" []] [{ name := some "Fill", hotkeyId := some 2 }] := by
  have hname : (displayNode "display.external" [1]).nonEmptyName = some "Display" := by decide
  have hident : (displayNode "display.external" [1]).nonEmptyIdentifier =
      some "display.external" := by decide
  have hkey : DisplayName.key "Display" ≠ "" := by decide +kernel
  exact ⟨hname, hident, hkey, grows_ofNodes.2 _ _ _ _ _ _ hname hident hkey⟩

end Build

end HotkeyTree
