import HotkeyTree.Keyed.Fresh
import Mathlib.Data.List.Forall2
import Mathlib.Data.List.Induction
import Mathlib.Data.List.Nodup
import Mathlib.Data.List.Perm.Subperm

/-!
# Proofs: entries under fresh keys

Storing an entry never touches what is stored already: the entry goes to the end, under its own key
or under a longer one that is free. `insertAll` stores entries one after the other, and
`insertAll_eq_append` says what that leaves of each of them.
-/

namespace HotkeyTree

/-- Entries that are shown under a name, apart from the key they carry. -/
class Labelled (α : Type) [HasKey α] where
  /-- The name a reader is shown. -/
  name : α → String
  key_withKey : ∀ (a : α) (k : String), HasKey.key (HasKey.withKey a k) = k
  name_withKey : ∀ (a : α) (k : String), name (HasKey.withKey a k) = name a

namespace Keyed

variable {α β : Type}

theorem has_iff {m : Keyed α} {k : String} : m.has k = true ↔ k ∈ m.keys := by
  simp [has]

theorem has_eq_false_iff {m : Keyed α} {k : String} : m.has k = false ↔ k ∉ m.keys := by
  rw [← has_iff, Bool.not_eq_true]

theorem keys_append (m m' : Keyed α) : keys (m ++ m') = m.keys ++ keys m' := by
  simp [keys]

theorem distinct_nil : Distinct ([] : Keyed α) := List.nodup_nil

theorem Distinct.concat {m : Keyed α} {k : String} (h : m.Distinct) (hk : m.has k = false) (a : α) :
    Distinct (m ++ [(k, a)]) := by
  have hnot : k ∉ m.keys := has_eq_false_iff.1 hk
  show (keys (m ++ [(k, a)])).Nodup
  rw [keys_append, List.nodup_append]
  refine ⟨h, by simp [keys], ?_⟩
  intro x hx y hy hxy
  have hyk : y = k := by simpa [keys] using hy
  exact hnot (hyk ▸ hxy ▸ hx)

/-- An entry under a new key goes to the end. -/
theorem put_of_has_eq_false {m : Keyed α} {k : String} (h : m.has k = false) (a : α) :
    m.put k a = m ++ [(k, a)] := by
  have hnot : k ∉ m.keys := has_eq_false_iff.1 h
  induction m with
  | nil => rfl
  | cons slot m ih =>
    obtain ⟨k', a'⟩ := slot
    simp only [keys, List.map_cons, List.mem_cons, not_or] at hnot
    have htail := ih (has_eq_false_iff.2 hnot.2) hnot.2
    rw [put, if_neg (Ne.symm hnot.1), htail, List.cons_append]

theorem foldl_put_eq {m ps : Keyed α} (h : Distinct (m ++ ps)) :
    ps.foldl (fun m p => put m p.1 p.2) m = m ++ ps := by
  induction ps generalizing m with
  | nil => simp
  | cons p ps ih =>
    have hp : m.has p.1 = false := by
      rw [has_eq_false_iff]
      intro hmem
      rw [Distinct, keys_append, List.nodup_append] at h
      exact h.2.2 p.1 hmem p.1 (by simp [keys]) rfl
    have hassoc : m ++ p :: ps = (m ++ [p]) ++ ps := by simp
    rw [List.foldl_cons, put_of_has_eq_false hp, hassoc]
    exact ih (hassoc ▸ h)

/-- Pairs with different keys are a mapping as they are. -/
theorem Distinct.ofPairs_eq {ps : Keyed α} (h : Distinct ps) : ofPairs ps = ps :=
  foldl_put_eq (m := []) h

/-! ## Repeated keys -/

theorem keys_put (m : Keyed α) (k : String) (a : α) :
    (m.put k a).keys = if k ∈ m.keys then m.keys else m.keys ++ [k] := by
  by_cases hk : k ∈ m.keys
  · rw [if_pos hk]
    induction m with
    | nil => simp [keys] at hk
    | cons slot m ih =>
      obtain ⟨k', a'⟩ := slot
      rw [put]
      split
      case isTrue heq => simp [keys, heq]
      case isFalse hne =>
        have htail : k ∈ keys m := by
          rcases List.mem_cons.1 hk with rfl | htail
          · exact absurd rfl hne
          · exact htail
        exact congrArg (k' :: ·) (ih htail)
  · rw [if_neg hk, put_of_has_eq_false (has_eq_false_iff.2 hk), keys_append]
    rfl

theorem Distinct.put {m : Keyed α} (hm : m.Distinct) (k : String) (a : α) :
    (m.put k a).Distinct := by
  by_cases hk : m.has k = true
  · rw [Distinct, keys_put, if_pos (has_iff.1 hk)]
    exact hm
  · have hfree : m.has k = false := Bool.eq_false_iff.2 hk
    rw [put_of_has_eq_false hfree]
    exact hm.concat hfree a

theorem eq_of_mem_put {m : Keyed α} (hm : m.Distinct) {k : String} {a a' : α}
    (h : (k, a') ∈ m.put k a) : a' = a := by
  induction m with
  | nil => simpa [Keyed.put] using h
  | cons slot m ih =>
    obtain ⟨k', b⟩ := slot
    have hnot : k' ∉ keys m := (List.nodup_cons.1 hm).1
    rw [Keyed.put] at h
    split at h
    case isTrue heq =>
      -- a second slot under the key would repeat it
      rcases List.mem_cons.1 h with hhead | htail
      · exact (Prod.mk.inj hhead).2
      · exact absurd (heq ▸ List.mem_map_of_mem (f := Prod.fst) htail) hnot
    case isFalse hne =>
      rcases List.mem_cons.1 h with hhead | htail
      · exact absurd (Prod.mk.inj hhead).1.symm hne
      · exact ih (List.nodup_cons.1 hm).2 htail

theorem mem_of_mem_put {m : Keyed α} {k k' : String} {a a' : α} (hk : k' ≠ k)
    (h : (k', a') ∈ m.put k a) : (k', a') ∈ m := by
  induction m with
  | nil => simp [Keyed.put, hk] at h
  | cons slot m ih =>
    obtain ⟨k'', b⟩ := slot
    rw [Keyed.put] at h
    split at h
    case isTrue =>
      rcases List.mem_cons.1 h with hhead | htail
      · exact absurd (Prod.mk.inj hhead).1 hk
      · exact List.mem_cons_of_mem _ htail
    case isFalse =>
      rcases List.mem_cons.1 h with hhead | htail
      · exact hhead ▸ List.mem_cons_self
      · exact List.mem_cons_of_mem _ (ih htail)

theorem ofPairs_concat (ps : List (String × α)) (p : String × α) :
    ofPairs (ps ++ [p]) = (ofPairs ps).put p.1 p.2 :=
  List.foldl_concat _ _ _ _

theorem distinct_ofPairs (ps : List (String × α)) : (ofPairs ps).Distinct := by
  induction ps using List.reverseRecOn with
  | nil => exact distinct_nil
  | append_singleton ps p ih =>
    rw [ofPairs_concat]
    exact ih.put p.1 p.2

theorem eraseDups_concat {β : Type} [BEq β] [LawfulBEq β] (l : List β) (b : β) :
    (l ++ [b]).eraseDups = if b ∈ l then l.eraseDups else l.eraseDups ++ [b] := by
  rw [List.eraseDups_append]
  split
  case isTrue hb =>
    have hold : [b].removeAll l = [] := by simpa [List.removeAll] using hb
    rw [hold, List.eraseDups_nil, List.append_nil]
  case isFalse hb =>
    have hnew : [b].removeAll l = [b] := by simpa [List.removeAll] using hb
    rw [hnew]
    rfl

theorem nodup_eraseDups {β : Type} [BEq β] [LawfulBEq β] (l : List β) : l.eraseDups.Nodup := by
  induction l using List.reverseRecOn with
  | nil => exact List.nodup_nil
  | append_singleton l b ih =>
    rw [eraseDups_concat]
    split
    case isTrue => exact ih
    case isFalse hb =>
      rw [List.nodup_append]
      refine ⟨ih, List.nodup_singleton b, ?_⟩
      intro x hx y hy hxy
      exact hb (List.mem_singleton.1 hy ▸ hxy ▸ List.mem_eraseDups.1 hx)

theorem keys_ofPairs (ps : List (String × α)) :
    (ofPairs ps).keys.map some = (ps.map fun p => some p.1).eraseDups := by
  induction ps using List.reverseRecOn with
  | nil => rfl
  | append_singleton ps p ih =>
    have hmem : some p.1 ∈ (ps.map fun p => some p.1) ↔ p.1 ∈ (ofPairs ps).keys := by
      rw [← List.mem_eraseDups, ← ih, List.mem_map]
      simp
    rw [ofPairs_concat, keys_put, List.map_append, List.map_singleton, eraseDups_concat, ← ih]
    simp only [hmem]
    split
    · rfl
    · rw [List.map_append, List.map_singleton]

theorem eq_of_mem_ofPairs {before after : List (String × α)} {k : String} {a a' : α}
    (hk : k ∉ after.map Prod.fst) (h : (k, a') ∈ ofPairs (before ++ (k, a) :: after)) :
    a' = a := by
  induction after using List.reverseRecOn with
  | nil =>
    rw [ofPairs_concat] at h
    exact eq_of_mem_put (distinct_ofPairs before) h
  | append_singleton after p ih =>
    rw [List.map_append, List.mem_append, not_or] at hk
    have hne : k ≠ p.1 := by simpa using hk.2
    rw [← List.cons_append, ← List.append_assoc, ofPairs_concat] at h
    exact ih hk.1 (mem_of_mem_put hne h)

/-! ## Numbered keys -/

theorem append_ne_self {s suffix : String} (h : suffix ≠ "") : s ++ suffix ≠ s := by
  intro heq
  have hchars : s.toList ++ suffix.toList = s.toList ++ [] := by
    simpa using congrArg String.toList heq
  exact h (String.toList_eq_nil_iff.1 (List.append_cancel_left hchars))

/-- Different numbers make different keys of one base. -/
theorem append_toString_injective (base : String) :
    Function.Injective fun n : Nat => base ++ toString n := by
  intro i j h
  have hchars : base.toList ++ (toString i).toList = base.toList ++ (toString j).toList := by
    simpa using congrArg String.toList h
  have hdigits : Nat.toDigits 10 i = Nat.toDigits 10 j := by
    simpa using List.append_cancel_left hchars
  simpa using congrArg (fun ds => Nat.ofDigitChars 10 ds 0) hdigits

theorem append_toString_ne (base : String) (n : Nat) : base ++ toString n ≠ base := by
  intro h
  have hchars := congrArg String.toList h
  simp at hchars

/-- The search stops at the first number from `n` on that is free, or when it has tried as many as
it may. -/
theorem numbered_spec (m : Keyed α) (base : String) (fuel n : Nat) :
    ∃ i, n ≤ i ∧ i ≤ n + fuel ∧ numbered m base fuel n = base ++ toString i ∧
      (∀ j, n ≤ j → j < i → m.has (base ++ toString j) = true) ∧
      (i < n + fuel → m.has (base ++ toString i) = false) := by
  induction fuel generalizing n with
  | zero => exact ⟨n, Nat.le_refl n, Nat.le_refl n, rfl, fun j h1 h2 => by omega, fun h => by omega⟩
  | succ fuel ih =>
    by_cases hn : m.has (base ++ toString n) = true
    · obtain ⟨i, h1, h2, h3, h4, h5⟩ := ih (n + 1)
      refine ⟨i, by omega, by omega, by rw [numbered, if_pos hn, h3], fun j hj hji => ?_,
        fun hi => h5 (by omega)⟩
      by_cases hjn : j = n
      · rw [hjn]; exact hn
      · exact h4 j (by omega) hji
    · have hnumbered : numbered m base (fuel + 1) n = base ++ toString n := by
        rw [numbered, if_neg hn]
      refine ⟨n, Nat.le_refl n, by omega, hnumbered, fun j h1 h2 => by omega, fun _ => ?_⟩
      exact Bool.eq_false_iff.2 hn

/-- A mapping that has the base itself has too few other keys for all of the numbers tried. -/
theorem exists_number_free {m : Keyed α} {base : String} (hb : m.has base = true) :
    ∃ j, 2 ≤ j ∧ j < 2 + m.length ∧ m.has (base ++ toString j) = false := by
  by_contra hcon
  have hall : ∀ j, 2 ≤ j → j < 2 + m.length → m.has (base ++ toString j) = true := by
    intro j h1 h2
    by_contra hj
    exact hcon ⟨j, h1, h2, Bool.eq_false_iff.2 hj⟩
  -- the base and as many numbered keys as `m` has slots are one key too many
  let tried := (List.range' 2 m.length).map fun j => base ++ toString j
  have hnodup : (base :: tried).Nodup := by
    refine List.nodup_cons.2 ⟨fun hmem => ?_, ?_⟩
    · obtain ⟨j, -, hj⟩ := List.mem_map.1 hmem
      exact append_toString_ne base j hj
    · exact List.Nodup.map (append_toString_injective base) List.nodup_range'
  have hsub : base :: tried ⊆ m.keys := by
    intro k hk
    rcases List.mem_cons.1 hk with rfl | hk
    · exact has_iff.1 hb
    · obtain ⟨j, hj, rfl⟩ := List.mem_map.1 hk
      obtain ⟨h1, h2⟩ := List.mem_range'_1.1 hj
      exact has_iff.1 (hall j h1 h2)
  have hlen := (List.subperm_of_subset hnodup hsub).length_le
  simp only [tried, keys, List.length_cons, List.length_map, List.length_range'] at hlen
  omega

/-! ## Fresh keys -/

/-- Of the numbers from two on the first free one is found before they run out. -/
theorem exists_first_numbered {m : Keyed α} {base : String} (hb : m.has base = true) :
    ∃ n, 2 ≤ n ∧ n ≤ m.length + 1 ∧ numbered m base m.length 2 = base ++ toString n ∧
      m.has (base ++ toString n) = false ∧
      ∀ j, 2 ≤ j → j < n → m.has (base ++ toString j) = true := by
  obtain ⟨n, h1, -, h3, h4, h5⟩ := numbered_spec m base m.length 2
  obtain ⟨j, hj1, hj2, hj⟩ := exists_number_free hb
  have hnj : n ≤ j := by
    by_contra hlt
    rw [h4 j hj1 (by omega)] at hj
    exact Bool.noConfusion hj
  exact ⟨n, h1, by omega, h3, h5 (by omega), h4⟩

theorem has_numbered {m : Keyed α} {base : String} (hb : m.has base = true) :
    m.has (numbered m base m.length 2) = false := by
  obtain ⟨n, -, -, hn, hfree, -⟩ := exists_first_numbered hb
  rw [hn]
  exact hfree

/-- The key used instead of a taken one is free. -/
theorem has_freshKey {m : Keyed α} {base : String} (hb : m.has base = true) (h : Hints) :
    m.has (freshKey m base h) = false := by
  unfold freshKey
  cases hf : (h.suffixes.map (base ++ ·)).find? (!m.has ·) with
  | none => exact has_numbered hb
  | some k => simpa using List.find?_some hf

/-- The suffixes that may come behind a taken key. -/
inductive Hints.Offers (h : Hints) : String → Prop where
  | identifier {i : String} (hi : h.sourceIdentifier = some i) (hne : identifierSuffix i ≠ "") :
    Offers h (identifierSuffix i)
  | id {i : Int64} (hi : h.id = some i) : Offers h (toString i.toInt)
  | number (n : Nat) : Offers h (toString n)

theorem Hints.offers_of_mem_suffixes {h : Hints} {suffix : String} (hs : suffix ∈ h.suffixes) :
    h.Offers suffix := by
  rcases List.mem_append.1 hs with hs | hs
  · obtain ⟨hs, hne⟩ := Option.filter_eq_some_iff.1 (Option.mem_toList.1 hs)
    obtain ⟨i, hi, rfl⟩ := Option.map_eq_some_iff.1 hs
    exact .identifier hi (by simpa using hne)
  · obtain ⟨i, hi, rfl⟩ := Option.map_eq_some_iff.1 (Option.mem_toList.1 hs)
    exact .id hi

theorem Hints.Offers.ne_empty {h : Hints} {suffix : String} (hs : h.Offers suffix) :
    suffix ≠ "" := by
  have hdigits : ∀ n : Nat, toString n ≠ "" := by
    intro n hn
    have hchars := congrArg String.toList hn
    simp at hchars
  cases hs with
  | identifier _ hne => exact hne
  | @id i hi =>
    intro hempty
    cases hint : i.toInt with
    | ofNat n =>
      rw [hint] at hempty
      exact hdigits n hempty
    | negSucc n =>
      rw [hint] at hempty
      have hchars := congrArg String.toList hempty
      simp [toString, Int.repr] at hchars
  | number n => exact hdigits n

/-- The key used instead of a taken one continues it with one of the suffixes. -/
theorem exists_freshKey_eq_append (m : Keyed α) (base : String) (h : Hints) :
    ∃ suffix, h.Offers suffix ∧ freshKey m base h = base ++ suffix := by
  unfold freshKey
  cases hf : (h.suffixes.map (base ++ ·)).find? (!m.has ·) with
  | none =>
    obtain ⟨i, -, -, hi, -⟩ := numbered_spec m base m.length 2
    exact ⟨toString i, .number i, hi⟩
  | some k =>
    obtain ⟨suffix, hs, hk⟩ := List.mem_map.1 (List.mem_of_find?_eq_some hf)
    exact ⟨suffix, Hints.offers_of_mem_suffixes hs, hk.symm⟩

/-! ## Storing -/

section Storing

variable [HasKey α]

/-- A slot that an entry is stored in: under its own key, or renamed to a key that continues it. -/
def Stores (a : α) (slot : String × α) : Prop :=
  slot = (HasKey.key a, a) ∨
    ∃ suffix, slot = (HasKey.key a ++ suffix, HasKey.withKey a (HasKey.key a ++ suffix))

/-- An entry is stored in a slot of its own at the end, under a key that was free. -/
theorem insertFresh_fst (m : Keyed α) (a : α) (h : Hints) :
    ∃ slot, (m.insertFresh a h).1 = m ++ [slot] ∧ Stores a slot ∧ m.has slot.1 = false := by
  by_cases hb : m.has (HasKey.key a) = true
  · obtain ⟨suffix, -, hs⟩ := exists_freshKey_eq_append m (HasKey.key a) h
    refine ⟨(HasKey.key a ++ suffix, HasKey.withKey a (HasKey.key a ++ suffix)), ?_,
      Or.inr ⟨suffix, rfl⟩, ?_⟩
    · simp only [insertFresh, if_pos hb, hs]
    · rw [← hs]
      exact has_freshKey hb h
  · refine ⟨(HasKey.key a, a), by simp only [insertFresh, if_neg hb], Or.inl rfl, ?_⟩
    exact Bool.eq_false_iff.2 hb

/-- The mapping after some entries have been stored one after the other, each with its hints. -/
def insertAll (hints : α → Hints) : Keyed α → List α → Keyed α
  | m, [] => m
  | m, a :: as => insertAll hints (m.insertFresh a (hints a)).1 as

theorem insertAll_append (hints : α → Hints) (m : Keyed α) (as bs : List α) :
    m.insertAll hints (as ++ bs) = (m.insertAll hints as).insertAll hints bs := by
  induction as generalizing m with
  | nil => rfl
  | cons a as ih => exact ih _

/-- Every entry gets one slot, after those that were there and in the order of the entries. -/
theorem insertAll_eq_append (hints : α → Hints) (m : Keyed α) (as : List α) :
    ∃ slots, m.insertAll hints as = m ++ slots ∧ List.Forall₂ Stores as slots := by
  induction as generalizing m with
  | nil => exact ⟨[], by simp [insertAll], .nil⟩
  | cons a as ih =>
    obtain ⟨slot, hm, hslot, -⟩ := insertFresh_fst m a (hints a)
    obtain ⟨slots, hms, hslots⟩ := ih (m ++ [slot])
    refine ⟨slot :: slots, ?_, .cons hslot hslots⟩
    rw [insertAll, hm, hms, List.append_assoc, List.singleton_append]

theorem insertAll_distinct (hints : α → Hints) {m : Keyed α} (hm : m.Distinct) (as : List α) :
    (m.insertAll hints as).Distinct := by
  induction as generalizing m with
  | nil => exact hm
  | cons a as ih =>
    obtain ⟨slot, hslot, -, hfree⟩ := insertFresh_fst m a (hints a)
    rw [insertAll, hslot]
    exact ih (hm.concat hfree slot.2)

/-- The slots of a mapping that started out empty. -/
theorem forall₂_insertAll (hints : α → Hints) (as : List α) :
    List.Forall₂ Stores as (insertAll hints [] as) := by
  obtain ⟨slots, h, hslots⟩ := insertAll_eq_append hints [] as
  rw [h]
  exact hslots

/-- What does not depend on keys is kept, entry by entry. -/
theorem map_insertAll {f : α → β} (hf : ∀ a k, f (HasKey.withKey a k) = f a) (hints : α → Hints)
    (as : List α) : ((insertAll hints [] as).map fun slot => f slot.2) = as.map f := by
  have hslots := forall₂_insertAll hints as
  -- from here on only the slots matter, not how they came about
  generalize insertAll hints [] as = m at hslots ⊢
  induction hslots with
  | nil => rfl
  | cons hslot _ ih =>
    rcases hslot with rfl | ⟨suffix, rfl⟩
    · simp [ih]
    · simp [ih, hf]

/-- Whatever is stored comes from one of the entries. -/
theorem exists_stores {hints : α → Hints} {as : List α} {slot : String × α}
    (h : slot ∈ insertAll hints [] as) : ∃ a ∈ as, Stores a slot := by
  have hslots := forall₂_insertAll hints as
  generalize insertAll hints [] as = m at hslots h
  induction hslots with
  | nil => simp at h
  | cons hslot _ ih =>
    rcases List.mem_cons.1 h with rfl | h
    · exact ⟨_, List.mem_cons_self, hslot⟩
    · obtain ⟨a, ha, hs⟩ := ih h
      exact ⟨a, List.mem_cons_of_mem _ ha, hs⟩

/-- Every entry is stored. -/
theorem exists_slot (hints : α → Hints) {as : List α} {a : α} (ha : a ∈ as) :
    ∃ slot ∈ insertAll hints [] as, Stores a slot := by
  have hslots := forall₂_insertAll hints as
  generalize insertAll hints [] as = m at hslots
  induction hslots with
  | nil => exact absurd ha List.not_mem_nil
  | cons hslot _ ih =>
    rcases List.mem_cons.1 ha with rfl | ha
    · exact ⟨_, List.mem_cons_self, hslot⟩
    · obtain ⟨slot, hmem, hstores⟩ := ih ha
      exact ⟨slot, List.mem_cons_of_mem _ hmem, hstores⟩

/-- What does not depend on keys is the same for an entry and what is stored of it. -/
theorem Stores.apply_eq {a : α} {slot : String × α} (h : Stores a slot) {f : α → β}
    (hf : ∀ a k, f (HasKey.withKey a k) = f a) : f slot.2 = f a := by
  rcases h with rfl | ⟨suffix, rfl⟩
  · rfl
  · exact hf _ _

theorem Stores.key_eq [Labelled α] {a : α} {slot : String × α} (h : Stores a slot) :
    HasKey.key slot.2 = slot.1 := by
  rcases h with rfl | ⟨suffix, rfl⟩
  · rfl
  · exact Labelled.key_withKey _ _

theorem Stores.exists_suffix {a : α} {slot : String × α} (h : Stores a slot) :
    ∃ suffix, slot.1 = HasKey.key a ++ suffix := by
  rcases h with rfl | ⟨suffix, rfl⟩
  · exact ⟨"", by simp⟩
  · exact ⟨suffix, rfl⟩

end Storing

end Keyed

end HotkeyTree
