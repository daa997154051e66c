import HotkeyTree.Proofs.Soundness

/-!
# Proofs: who keeps the key of its name

Keys are given first come, first served, and the key that was made up for one entry may be the
natural key of another one that comes later. So a name that shares its key with no other name of the
mapping may lose it all the same: to an entry before it that was renamed to just this key. There is
no other way to lose it.
-/

namespace HotkeyTree

open Keyed

/-- No other entry of a mapping has a name with the same key. -/
def Label.Alone (others : List Label) (e : Label) : Prop :=
  ∀ l ∈ others, DisplayName.key l.name ≠ DisplayName.key e.name

instance (others : List Label) (e : Label) : Decidable (e.Alone others) :=
  inferInstanceAs (Decidable (∀ l ∈ others, DisplayName.key l.name ≠ DisplayName.key e.name))

/-- How an entry is served that shares the key of its name with no other, if `before` stands before
it in the mapping. -/
structure Label.Served (before : List Label) (e : Label) : Prop where
  /-- It is stored under this key unless that is in use before it. -/
  keeps_iff : e.stored = DisplayName.key e.name ↔ ∀ l ∈ before, l.stored ≠ DisplayName.key e.name
  /-- What uses the key was renamed to it: its own key is shorter, and was in use as well. -/
  displaced : ∀ l ∈ before, l.stored = DisplayName.key e.name →
    (∃ suffix, suffix ≠ "" ∧ DisplayName.key e.name = DisplayName.key l.name ++ suffix) ∧
      ∃ first ∈ before, first.stored = DisplayName.key l.name

namespace Keyed

variable {α : Type} [HasKey α] [LawfulHasKey α] {hints : α → Hints}

theorem insertAll_concat (as : List α) (a : α) :
    insertAll hints [] (as ++ [a]) =
      insertAll hints [] as ++ [slotOf (insertAll hints [] as) a (hints a)] := by
  rw [insertAll_append, insertAll, insertAll, insertFresh_fst_eq]

variable [Labelled α]

/-- What stands before an entry is the mapping that the entry was stored in. -/
theorem exists_mapping_before {as : List α} {before after : List Label} {e : Label}
    (h : (insertAll hints [] as).labels = before ++ e :: after) :
    ∃ a ∈ as, ∃ front ⊆ as, before = (insertAll hints [] front).labels ∧
      e.stored = storedKey (insertAll hints [] front) a (hints a) ∧ e.name = Labelled.name a := by
  -- from the end, so that the entries before the last one are a mapping of their own
  induction as using List.reverseRecOn generalizing after with
  | nil => simp [insertAll, labels] at h
  | append_singleton as a ih =>
    rw [insertAll_concat, labels, List.map_append] at h
    rcases List.eq_nil_or_concat after with rfl | ⟨rest, last, rfl⟩
    · obtain ⟨hbefore, hlast⟩ := List.append_inj' h rfl
      obtain rfl := List.singleton_inj.1 hlast
      refine ⟨a, by simp, as, List.subset_append_left _ _, hbefore.symm, rfl, ?_⟩
      exact Labelled.name_withKey _ _
    · rw [List.concat_eq_append, ← List.cons_append, ← List.append_assoc] at h
      obtain ⟨hfront, -⟩ := List.append_inj' h rfl
      obtain ⟨b, hb, front, hsub, hbefore, hstored, hname⟩ := ih hfront
      refine ⟨b, List.mem_append_left _ hb, front, ?_, hbefore, hstored, hname⟩
      exact List.Subset.trans hsub (List.subset_append_left _ _)

/-- Whoever is not stored under the key of its name was renamed, and the key is in use. -/
theorem renamed_of_stored_ne {as : List α} (hmade : ∀ a ∈ as, FreshlyMade a) {l : Label}
    (hl : l ∈ (insertAll hints [] as).labels) (hne : l.stored ≠ DisplayName.key l.name) :
    (∃ suffix, suffix ≠ "" ∧ l.stored = DisplayName.key l.name ++ suffix) ∧
      ∃ first ∈ (insertAll hints [] as).labels, first.stored = DisplayName.key l.name := by
  obtain ⟨before, after, hsplit⟩ := List.append_of_mem hl
  obtain ⟨a, ha, front, -, rfl, hstored, hname⟩ := exists_mapping_before hsplit
  have hkey : HasKey.key a = DisplayName.key l.name := by
    rw [hname]
    exact (hmade a ha).key_eq
  have htaken : HasKey.key a ∈ (insertAll hints [] front).keys := by
    by_contra hfree
    exact hne ((hstored.trans (storedKey_of_free hfree _)).trans hkey)
  constructor
  · obtain ⟨suffix, hoffer, hsuffix⟩ := storedKey_of_taken htaken (hints a)
    rw [← hstored, hkey] at hsuffix
    exact ⟨suffix, hoffer.ne_empty, hsuffix⟩
  · rw [← map_stored_labels, hkey] at htaken
    obtain ⟨first, hfirst, heq⟩ := List.mem_map.1 htaken
    exact ⟨first, hsplit ▸ List.mem_append_left _ hfirst, heq⟩

theorem served_insertAll {as : List α} (hmade : ∀ a ∈ as, FreshlyMade a)
    {before after : List Label} {e : Label}
    (h : (insertAll hints [] as).labels = before ++ e :: after) (halone : e.Alone before) :
    e.Served before := by
  obtain ⟨a, ha, front, hsub, rfl, hstored, hname⟩ := exists_mapping_before h
  have hkey : HasKey.key a = DisplayName.key e.name := by
    rw [hname]
    exact (hmade a ha).key_eq
  constructor
  · rw [hstored, ← hkey, storedKey_eq_iff, ← map_stored_labels, List.mem_map]
    constructor
    · intro hfree l hl heq
      exact hfree ⟨l, hl, heq⟩
    · rintro hfree ⟨l, hl, heq⟩
      exact hfree l hl heq
  · intro l hl heq
    have hother : l.stored ≠ DisplayName.key l.name := by
      rw [heq]
      exact (halone l hl).symm
    rw [← heq]
    exact renamed_of_stored_ne (fun b hb => hmade b (hsub hb)) hl hother

end Keyed

namespace Build

/-- **A name that shares its key with no other keeps it**, in every mapping at every depth, unless
an entry before it was renamed to just this key. -/
theorem served_ofNodes {ns : List Node} {before after : List Label} {e : Label}
    (h : HasMapping (ofNodes ns).categories (before ++ e :: after))
    (halone : e.Alone (before ++ after)) : e.Served before := by
  have hbefore : e.Alone before := fun l hl => halone l (List.mem_append_left _ hl)
  have hmapping := forall_mappings_ofNodes (motive := fun l => ∀ before e after,
    l = before ++ e :: after → e.Alone before → e.Served before) ns ?_ _ h
  · exact hmapping before e after rfl hbefore
  · intro α _ _ _ hints as hmade before e after hsplit
    exact served_insertAll hmade hsplit

/-- Four shortcuts; the second one is renamed to the key of the third one's name. -/
def displacedForest : List Node :=
  [{ name := some "Windows"
     identifier := some "windows"
     children := some
      [{ name := some "Fill", hotkeyId := some 1 },
       { name := some "Fill", hotkeyId := some 2 },
       { name := some "Fill 2", hotkeyId := some 3 },
       { name := some "Fill 3", hotkeyId := some 4 }] }]

/-- The labels of the four. -/
def displacedLabels : List Label :=
  [⟨"fill", "fill", "Fill"⟩, ⟨"fill2", "fill2", "Fill"⟩, ⟨"fill23", "fill23", "Fill 2"⟩,
    ⟨"fill3", "fill3", "Fill 3"⟩]

theorem hasMapping_displacedLabels :
    HasMapping (ofNodes displacedForest).categories displacedLabels := by
  have hslot : ∃ slot ∈ (ofNodes displacedForest).categories,
      slot.2.shortcuts.labels = displacedLabels := by
    decide +kernel
  obtain ⟨⟨k, c⟩, hc, hlabels⟩ := hslot
  rw [← hlabels]
  exact .shortcuts hc

theorem served_displacedForest :
    (∃ before after e, HasMapping (ofNodes displacedForest).categories (before ++ e :: after) ∧
      e.Alone (before ++ after) ∧ e.stored ≠ DisplayName.key e.name ∧ e.Served before) ∧
    ∃ before after e, HasMapping (ofNodes displacedForest).categories (before ++ e :: after) ∧
      e.Alone (before ++ after) ∧ e.stored = DisplayName.key e.name ∧ e.Served before := by
  have hmapping := hasMapping_displacedLabels
  constructor
  · have halone : (Label.mk "fill23" "fill23" "Fill 2").Alone
        (displacedLabels.take 2 ++ displacedLabels.drop 3) := by
      decide +kernel
    have hlost : (Label.mk "fill23" "fill23" "Fill 2").stored ≠ DisplayName.key "Fill 2" := by
      decide +kernel
    exact ⟨displacedLabels.take 2, displacedLabels.drop 3, _, hmapping, halone, hlost,
      served_ofNodes hmapping halone⟩
  · have halone : (Label.mk "fill3" "fill3" "Fill 3").Alone
        (displacedLabels.take 3 ++ displacedLabels.drop 4) := by
      decide +kernel
    have hkept : (Label.mk "fill3" "fill3" "Fill 3").stored = DisplayName.key "Fill 3" := by
      decide +kernel
    exact ⟨displacedLabels.take 3, displacedLabels.drop 4, _, hmapping, halone, hkept,
      served_ofNodes hmapping halone⟩

/-- The key of the third name is unique and in use for the second shortcut. -/
theorem not_kept_displacedForest :
    ¬ ∀ before e after, HasMapping (ofNodes displacedForest).categories (before ++ e :: after) →
      e.Alone (before ++ after) → e.stored = DisplayName.key e.name := by
  intro hkept
  have hlost := hkept (displacedLabels.take 2) ⟨"fill23", "fill23", "Fill 2"⟩
    (displacedLabels.drop 3) hasMapping_displacedLabels (by decide +kernel)
  revert hlost
  decide +kernel

end Build

end HotkeyTree
