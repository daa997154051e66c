import Mathlib.Data.List.Perm.Basic

/-!
# Proofs: looking up in a list of pairs

What is found under a key that occurs at most once does not depend on the order of the pairs.
-/

namespace HotkeyTree

variable {κ α : Type} [BEq κ] {pairs pairs' : List (κ × α)} {k k' : κ}

/-- The pairs under a key are as many as the key occurs among the keys. -/
theorem length_filter_eq_count (pairs : List (κ × α)) (k : κ) :
    (pairs.filter fun p => p.1 == k).length = (pairs.map Prod.fst).count k := by
  rw [List.count, List.countP_map, List.countP_eq_length_filter]
  rfl

variable [LawfulBEq κ]

/-- A pair with another key does not matter. -/
theorem lookup_cons_of_ne (h : k ≠ k') (a : α) (pairs : List (κ × α)) :
    ((k', a) :: pairs).lookup k = pairs.lookup k := by
  rw [List.lookup_cons, beq_false_of_ne h]

/-- What is looked up is the first of the pairs under the key. -/
theorem lookup_eq_head? (pairs : List (κ × α)) (k : κ) :
    pairs.lookup k = (pairs.filter fun p => p.1 == k).head?.map Prod.snd := by
  induction pairs with
  | nil => rfl
  | cons p pairs ih =>
    obtain ⟨k', a⟩ := p
    by_cases hk : k = k'
    · simp [hk]
    · have hbeq : (k' == k) = false := beq_false_of_ne (Ne.symm hk)
      rw [lookup_cons_of_ne hk, ih, List.filter_cons_of_neg (by simp [hbeq])]

/-- The order of the pairs does not matter for a key that occurs at most once. -/
theorem lookup_eq_of_perm (h : pairs'.Perm pairs) (hk : (pairs.map Prod.fst).count k ≤ 1) :
    pairs'.lookup k = pairs.lookup k := by
  have hfilter := h.filter fun p => p.1 == k
  rw [lookup_eq_head?, lookup_eq_head?]
  rw [← length_filter_eq_count] at hk
  -- there is only one order of at most one pair
  rcases Nat.le_one_iff_eq_zero_or_eq_one.1 hk with hzero | hone
  · rw [List.length_eq_zero_iff] at hzero
    rw [hzero] at hfilter ⊢
    rw [hfilter.eq_nil]
  · obtain ⟨p, hp⟩ := List.length_eq_one_iff.1 hone
    rw [hp] at hfilter ⊢
    rw [List.perm_singleton.1 hfilter]

end HotkeyTree
