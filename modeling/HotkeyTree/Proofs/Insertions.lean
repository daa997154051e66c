import HotkeyTree.Proofs.Keyed
import HotkeyTree.Tree
import Mathlib.Data.List.Induction

/-!
# Proofs: histories of insertions

Entries come one after the other, each with its own hints, and a key that was made up for an earlier
entry may be the natural key of a later one, or any key that would be made up for it. So what is
known of the mapping has to hold after any history: `Settled` says what a call does to the mapping
it finds, `History` what is left of all calls so far.
-/

namespace HotkeyTree

/-- Entries whose key can be exchanged without touching anything else. -/
class LawfulHasKey (α : Type) [HasKey α] : Prop where
  key_withKey : ∀ (a : α) (k : String), HasKey.key (HasKey.withKey a k) = k
  withKey_key : ∀ a : α, HasKey.withKey a (HasKey.key a) = a
  withKey_withKey : ∀ (a : α) (k k' : String),
    HasKey.withKey (HasKey.withKey a k) k' = HasKey.withKey a k'

instance : LawfulHasKey Shortcut where
  key_withKey _ _ := rfl
  withKey_key _ := rfl
  withKey_withKey _ _ _ := rfl

instance : LawfulHasKey Group where
  key_withKey _ _ := rfl
  withKey_key g := by cases g; rfl
  withKey_withKey _ _ _ := rfl

instance : LawfulHasKey Category where
  key_withKey _ _ := rfl
  withKey_key _ := rfl
  withKey_withKey _ _ _ := rfl

instance : LawfulHasKey Entry where
  key_withKey e _ := by cases e <;> rfl
  withKey_key e := by
    cases e with
    | shortcut s => rfl
    | group g => cases g; rfl
  withKey_withKey e _ _ := by cases e <;> rfl

namespace Keyed

variable {α : Type}

/-! ## One insertion -/

section Storing

variable [HasKey α]

/-- The key an entry is stored under: its own unless that is taken. -/
def storedKey (m : Keyed α) (a : α) (h : Hints) : String :=
  if m.has (HasKey.key a) then freshKey m (HasKey.key a) h else HasKey.key a

def slotOf (m : Keyed α) (a : α) (h : Hints) : String × α :=
  (storedKey m a h, HasKey.withKey a (storedKey m a h))

theorem storedKey_of_free {m : Keyed α} {a : α} (hfree : HasKey.key a ∉ m.keys) (h : Hints) :
    storedKey m a h = HasKey.key a := by
  rw [storedKey, has_eq_false_iff.2 hfree]
  rfl

theorem storedKey_of_taken {m : Keyed α} {a : α} (htaken : HasKey.key a ∈ m.keys) (h : Hints) :
    ∃ suffix, h.Offers suffix ∧ storedKey m a h = HasKey.key a ++ suffix := by
  rw [storedKey, if_pos (has_iff.2 htaken)]
  exact exists_freshKey_eq_append m (HasKey.key a) h

theorem storedKey_not_mem (m : Keyed α) (a : α) (h : Hints) : storedKey m a h ∉ m.keys := by
  unfold storedKey
  split
  · rename_i hb
    exact has_eq_false_iff.1 (has_freshKey hb h)
  · rename_i hb
    exact fun hmem => hb (has_iff.2 hmem)

theorem storedKey_eq_iff {m : Keyed α} {a : α} {h : Hints} :
    storedKey m a h = HasKey.key a ↔ HasKey.key a ∉ m.keys := by
  constructor
  · intro heq htaken
    obtain ⟨suffix, hs, hk⟩ := storedKey_of_taken htaken h
    exact append_ne_self hs.ne_empty (hk.symm.trans heq)
  · exact fun hfree => storedKey_of_free hfree h

theorem insertFresh_snd (m : Keyed α) (a : α) (h : Hints) :
    (m.insertFresh a h).2 =
      if m.has (HasKey.key a) then some ⟨HasKey.key a, storedKey m a h⟩ else none := by
  unfold insertFresh storedKey
  by_cases hb : m.has (HasKey.key a) = true <;> simp [hb]

variable [LawfulHasKey α]

theorem insertFresh_fst_eq (m : Keyed α) (a : α) (h : Hints) :
    (m.insertFresh a h).1 = m ++ [slotOf m a h] := by
  unfold insertFresh slotOf storedKey
  by_cases hb : m.has (HasKey.key a) = true
  · simp [hb]
  · simp [hb, LawfulHasKey.withKey_key]

theorem key_slotOf (m : Keyed α) (a : α) (h : Hints) :
    HasKey.key (slotOf m a h).2 = (slotOf m a h).1 :=
  LawfulHasKey.key_withKey a _

end Storing

/-! ## Histories -/

/-- A call: an entry to be inserted, and what tells it from others. -/
structure Insertion (α : Type) where
  entry : α
  hints : Hints

section Histories

variable [HasKey α]

/-- What a call answers that finds the mapping `m`. -/
def Insertion.answer (m : Keyed α) (c : Insertion α) : Option String :=
  (m.insertFresh c.entry c.hints).2.map Renaming.message

/-- The mapping that calls leave, one after the other, when there is nothing in it at first. -/
def after (calls : List (Insertion α)) : Keyed α :=
  calls.foldl (fun m c => (m.insertFresh c.entry c.hints).1) []

/-- What a call does that finds the mapping `m`: its entry is in `slot`. -/
structure Settled (m : Keyed α) (c : Insertion α) (slot : String × α) : Prop where
  /-- The entry is stored under the key of its slot, -/
  entry_eq : slot.2 = HasKey.withKey c.entry slot.1
  /-- and is what it was, but for the key. -/
  restored : HasKey.withKey slot.2 (HasKey.key c.entry) = c.entry
  own_iff : slot.1 = HasKey.key c.entry ↔ HasKey.key c.entry ∉ m.keys
  silent : HasKey.key c.entry ∉ m.keys → c.answer m = none
  renamed : HasKey.key c.entry ∈ m.keys →
    ∃ suffix, suffix ≠ "" ∧ slot.1 = HasKey.key c.entry ++ suffix ∧
      c.answer m = some ("key '" ++ HasKey.key c.entry ++ "' already taken, stored as '" ++
        slot.1 ++ "'")

/-- What is known after every call. -/
structure History (calls : List (Insertion α)) : Prop where
  length_eq : ∀ i ≤ calls.length, (after (calls.take i)).length = i
  distinct : ∀ i, (after (calls.take i)).Distinct
  own : ∀ i, ∀ slot ∈ after (calls.take i), HasKey.key slot.2 = slot.1
  /-- No later call alters or moves a slot. -/
  kept : ∀ i j, i ≤ j → after (calls.take i) <+: after (calls.take j)
  settled : ∀ j, ∀ hj : j < calls.length, ∃ slot,
    (after (calls.take (j + 1)))[j]? = some slot ∧ Settled (after (calls.take j)) calls[j] slot

theorem after_append (calls more : List (Insertion α)) :
    after (calls ++ more) =
      more.foldl (fun m c => (m.insertFresh c.entry c.hints).1) (after calls) :=
  List.foldl_append

/-- A mapping built from entries that bring their hints along is the end of a history. -/
theorem insertAll_eq_foldl (hints : α → Hints) (m : Keyed α) (as : List α) :
    m.insertAll hints as =
      (as.map fun a => (⟨a, hints a⟩ : Insertion α)).foldl
        (fun m c => (m.insertFresh c.entry c.hints).1) m := by
  induction as generalizing m with
  | nil => rfl
  | cons a as ih => exact ih _

variable [LawfulHasKey α]

theorem after_concat (calls : List (Insertion α)) (c : Insertion α) :
    after (calls ++ [c]) = after calls ++ [slotOf (after calls) c.entry c.hints] := by
  rw [after_append, List.foldl_cons, List.foldl_nil, insertFresh_fst_eq]

theorem settled_slotOf (m : Keyed α) (c : Insertion α) :
    Settled m c (slotOf m c.entry c.hints) := by
  refine ⟨rfl, ?_, storedKey_eq_iff, ?_, ?_⟩
  · show HasKey.withKey (HasKey.withKey c.entry _) _ = c.entry
    rw [LawfulHasKey.withKey_withKey, LawfulHasKey.withKey_key]
  · intro hfree
    rw [Insertion.answer, insertFresh_snd, has_eq_false_iff.2 hfree]
    rfl
  · intro htaken
    obtain ⟨suffix, hs, hk⟩ := storedKey_of_taken htaken c.hints
    refine ⟨suffix, hs.ne_empty, hk, ?_⟩
    rw [Insertion.answer, insertFresh_snd, if_pos (has_iff.2 htaken)]
    rfl

theorem length_after (calls : List (Insertion α)) : (after calls).length = calls.length := by
  induction calls using List.reverseRecOn with
  | nil => rfl
  | append_singleton calls c ih => simp [after_concat, ih]

theorem distinct_after (calls : List (Insertion α)) : (after calls).Distinct := by
  induction calls using List.reverseRecOn with
  | nil => exact distinct_nil
  | append_singleton calls c ih =>
    rw [after_concat]
    exact ih.concat (has_eq_false_iff.2 (storedKey_not_mem _ _ _)) _

theorem own_after (calls : List (Insertion α)) :
    ∀ slot ∈ after calls, HasKey.key slot.2 = slot.1 := by
  induction calls using List.reverseRecOn with
  | nil => simp [after]
  | append_singleton calls c ih =>
    intro slot hslot
    rw [after_concat] at hslot
    rcases List.mem_append.1 hslot with hslot | hslot
    · exact ih slot hslot
    · obtain rfl := List.mem_singleton.1 hslot
      exact key_slotOf _ _ _

theorem after_prefix (calls more : List (Insertion α)) : after calls <+: after (calls ++ more) := by
  induction more using List.reverseRecOn with
  | nil => simp
  | append_singleton more c ih =>
    rw [← List.append_assoc, after_concat]
    exact ih.trans (List.prefix_append _ _)

/-- **Nothing is overwritten, lost or moved, and no renaming goes unreported**, whatever the history
of insertions is. -/
theorem history_insertions (calls : List (Insertion α)) : History calls := by
  refine ⟨?_, fun i => distinct_after _, fun i => own_after _, ?_, ?_⟩
  · intro i hi
    rw [length_after, List.length_take]
    omega
  · intro i j hij
    obtain ⟨more, hmore⟩ := List.take_prefix_take_left (l := calls) hij
    rw [← hmore]
    exact after_prefix _ _
  · intro j hj
    refine ⟨slotOf (after (calls.take j)) calls[j].entry calls[j].hints, ?_, settled_slotOf _ _⟩
    have hlen : (after (calls.take j)).length = j := by
      rw [length_after, List.length_take]
      omega
    rw [List.take_succ_eq_append_getElem hj, after_concat, List.getElem?_append_right (by omega)]
    simp [hlen]

/-- Insertions that get into each other's way: the third entry has a key that was made up for the
second, and two keys are empty. -/
def clashingInsertions : List (Insertion Entry) :=
  [⟨.shortcut { id := 1, name := "Fill", key := "fill" }, {}⟩,
   ⟨.group ⟨"Fill", "fill", "", []⟩, {}⟩,
   ⟨.shortcut { id := -5, name := "Fill 2", key := "fill2" }, { id := some (-5) }⟩,
   ⟨.shortcut { id := 7, name := "", key := "" }, {}⟩,
   ⟨.shortcut { id := 7, name := "", key := "" }, { sourceIdentifier := some "vendor.left-half" }⟩]

theorem history_clashingInsertions :
    (after clashingInsertions).keys = ["fill", "fill2", "fill2-5", "", "LeftHalf"] ∧
      History clashingInsertions := by
  refine ⟨?_, history_insertions clashingInsertions⟩
  decide +kernel

/-- Whatever is stored was stored by some call, and what that call found is still in front of it. -/
theorem exists_call_of_mem {calls : List (Insertion α)} {slot : String × α}
    (h : slot ∈ after calls) :
    ∃ c ∈ calls, ∃ m, slot = slotOf m c.entry c.hints ∧ m ++ [slot] <+: after calls := by
  induction calls using List.reverseRecOn with
  | nil => simp [after] at h
  | append_singleton calls c ih =>
    rw [after_concat] at h ⊢
    rcases List.mem_append.1 h with h | h
    · obtain ⟨c', hc', m, hslot, hm⟩ := ih h
      exact ⟨c', List.mem_append_left _ hc', m, hslot, hm.trans (List.prefix_append _ _)⟩
    · obtain rfl := List.mem_singleton.1 h
      exact ⟨c, by simp, after calls, rfl, List.prefix_refl _⟩

theorem exists_slotOf_of_mem {hints : α → Hints} {as : List α} {slot : String × α}
    (h : slot ∈ insertAll hints [] as) :
    ∃ a ∈ as, ∃ m, slot = slotOf m a (hints a) ∧ m ++ [slot] <+: insertAll hints [] as := by
  have hall : insertAll hints [] as = after (as.map fun a => ⟨a, hints a⟩) :=
    insertAll_eq_foldl hints [] as
  rw [hall] at h ⊢
  obtain ⟨c, hc, m, hslot, hm⟩ := exists_call_of_mem h
  obtain ⟨a, ha, rfl⟩ := List.mem_map.1 hc
  exact ⟨a, ha, m, hslot, hm⟩

end Histories

end Keyed

end HotkeyTree
