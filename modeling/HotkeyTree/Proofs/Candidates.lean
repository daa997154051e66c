import HotkeyTree.Proofs.Keyed
import Mathlib.Data.List.TakeWhile

/-!
# Proofs: the first free candidate

The search for a fresh key goes through candidates that never end: the base with the suffixes that
the hints give, then with the numbers from two on. It comes to an end all the same, since a mapping
that has the base itself has too few other keys to take the first numbers all.
-/

namespace HotkeyTree.Keyed

/-! ## The suffix of an identifier -/

theorem getLast?_splitOn (cs : List Char) : (cs.splitOn '.').getLast? = some (lastSegment cs) := by
  have hcs : cs = (cs.reverse.dropWhile (· != '.')).reverse ++ lastSegment cs := by
    rw [lastSegment, ← List.reverse_append, List.takeWhile_append_dropWhile, List.reverse_reverse]
  have hsegment : '.' ∉ lastSegment cs := by
    intro hmem
    have hne := List.mem_takeWhile_imp (List.mem_reverse.1 hmem)
    simp at hne
  have hsingle := List.splitOn_eq_singleton hsegment
  cases hrest : cs.reverse.dropWhile (· != '.') with
  | nil =>
    rw [hrest, List.reverse_nil, List.nil_append] at hcs
    rw [← hcs] at hsingle
    rw [hsingle, ← hcs]
    rfl
  | cons c rest =>
    have hpoint : c = '.' := by
      have hhead := List.head?_dropWhile_not (· != '.') cs.reverse
      rw [hrest] at hhead
      simpa using hhead
    have hsplit : cs = rest.reverse ++ '.' :: lastSegment cs := by
      rw [hrest, hpoint, List.reverse_cons, List.append_assoc] at hcs
      exact hcs
    have hparts : cs.splitOn '.' = rest.reverse.splitOn '.' ++ [lastSegment cs] := by
      conv_lhs => rw [hsplit, List.splitOn_append_cons_self, hsingle]
    rw [hparts, List.getLast?_concat]

/-- The suffix of an identifier: the key of its last part between points, with the first letter in
upper case. There is none if nothing is left of that part. -/
def suffixOf? (identifier : String) : Option String := do
  let part ← (identifier.toList.splitOn '.').getLast?
  match (DisplayName.key (String.ofList part)).toList with
  | [] => none
  | c :: cs => some (String.ofList (c.toUpper :: cs))

theorem suffixOf?_eq (identifier : String) :
    suffixOf? identifier = (some (identifierSuffix identifier)).filter (· ≠ "") := by
  have hkey : (DisplayName.key (String.ofList (lastSegment identifier.toList))).toList =
      DisplayName.keyChars (lastSegment identifier.toList) := by
    simp [DisplayName.key]
  rw [suffixOf?, getLast?_splitOn, identifierSuffix]
  simp only [Option.bind_eq_bind, Option.bind_some, hkey]
  cases DisplayName.keyChars (lastSegment identifier.toList) with
  | nil => rfl
  | cons c cs =>
    have hne : String.ofList (c.toUpper :: cs) ≠ "" := by simp
    rw [capitalized, Option.filter_some, if_pos (decide_eq_true hne)]

/-! ## Candidates -/

/-- The suffixes that come before the numbers. -/
def Hints.given (h : Hints) : List String :=
  (h.sourceIdentifier.bind suffixOf?).toList ++ (h.id.map fun i => toString i.toInt).toList

theorem Hints.suffixes_eq (h : Hints) : h.suffixes = h.given := by
  rw [suffixes, given]
  cases h.sourceIdentifier with
  | none => rfl
  | some identifier =>
    have hsuffix := suffixOf?_eq identifier
    rw [Option.bind_some, hsuffix, Option.map_some]

/-- The number that the search has come to with the `i`-th candidate. -/
def Hints.number (h : Hints) (i : Nat) : Nat := i - h.given.length + 2

/-- The `i`-th candidate. -/
def candidate (base : String) (h : Hints) (i : Nat) : String :=
  base ++ h.given[i]?.getD (toString (h.number i))

section Candidates

variable {α : Type} {m : Keyed α} {base : String} {h : Hints} {i : Nat}

theorem candidate_of_lt (hi : i < h.given.length) : candidate base h i = base ++ h.given[i] := by
  rw [candidate, List.getElem?_eq_getElem hi, Option.getD_some]

theorem candidate_of_le (hi : h.given.length ≤ i) :
    candidate base h i = base ++ toString (h.number i) := by
  rw [candidate, List.getElem?_eq_none hi, Option.getD_none]

theorem candidate_ne (base : String) (h : Hints) (i : Nat) : candidate base h i ≠ base := by
  have hextended : ∃ suffix, h.Offers suffix ∧ candidate base h i = base ++ suffix := by
    by_cases hi : i < h.given.length
    · have hmem : h.given[i] ∈ h.suffixes := by
        rw [Hints.suffixes_eq]
        exact List.getElem_mem hi
      exact ⟨_, Hints.offers_of_mem_suffixes hmem, candidate_of_lt hi⟩
    · exact ⟨_, .number _, candidate_of_le (Nat.le_of_not_lt hi)⟩
  obtain ⟨suffix, hoffers, hcandidate⟩ := hextended
  rw [hcandidate]
  exact append_ne_self hoffers.ne_empty

/-- A hinted key that is free is used, if those before it are taken. -/
theorem exists_first_hinted {key : String}
    (hfind : (h.suffixes.map (base ++ ·)).find? (!m.has ·) = some key) :
    ∃ i, i < h.given.length ∧ candidate base h i = key ∧ m.has key = false ∧
      ∀ j < i, m.has (candidate base h j) = true := by
  rw [Hints.suffixes_eq] at hfind
  obtain ⟨hfree, i, hi, hkey, hbefore⟩ := List.find?_eq_some_iff_getElem.1 hfind
  rw [List.length_map] at hi
  refine ⟨i, hi, ?_, by simpa using hfree, fun j hj => ?_⟩
  · rw [candidate_of_lt hi, ← hkey, List.getElem_map]
  · have htaken := hbefore j hj
    rw [List.getElem_map] at htaken
    rw [candidate_of_lt (Nat.lt_trans hj hi)]
    simpa using htaken

/-- If all hinted keys are taken, the search goes on with the numbers. -/
theorem exists_first_counted (hbase : m.has base = true)
    (hfind : (h.suffixes.map (base ++ ·)).find? (!m.has ·) = none) :
    ∃ i, h.number i ≤ m.length + 1 ∧ candidate base h i = numbered m base m.length 2 ∧
      m.has (candidate base h i) = false ∧ ∀ j < i, m.has (candidate base h j) = true := by
  obtain ⟨n, htwo, hbound, hnumbered, hfree, hbefore⟩ := exists_first_numbered hbase
  -- the numbers begin with two, right after the hinted suffixes
  have hnumber : h.number (h.given.length + (n - 2)) = n := by
    unfold Hints.number
    omega
  have hcandidate : candidate base h (h.given.length + (n - 2)) = base ++ toString n := by
    rw [candidate_of_le (Nat.le_add_right _ _), hnumber]
  refine ⟨h.given.length + (n - 2), by rw [hnumber]; exact hbound, ?_, ?_, fun j hj => ?_⟩
  · rw [hcandidate, hnumbered]
  · rw [hcandidate]
    exact hfree
  · by_cases hj' : j < h.given.length
    · rw [Hints.suffixes_eq, List.find?_eq_none] at hfind
      have htaken := hfind _ (List.mem_map_of_mem (List.getElem_mem hj'))
      rw [candidate_of_lt hj']
      simpa using htaken
    · rw [candidate_of_le (Nat.le_of_not_lt hj')]
      refine hbefore _ ?_ ?_
      · unfold Hints.number
        omega
      · unfold Hints.number
        omega

/-- **The search ends with the first free candidate**, and the number it has come to by then is at
most one more than the number of entries. -/
theorem freshKey_first (hbase : m.has base = true) (h : Hints) :
    m.has (freshKey m base h) = false ∧ freshKey m base h ≠ base ∧
      ∃ i, freshKey m base h = candidate base h i ∧
        (∀ j < i, m.has (candidate base h j) = true) ∧ h.number i ≤ m.length + 1 := by
  have hfirst : ∃ i, freshKey m base h = candidate base h i ∧
      (∀ j < i, m.has (candidate base h j) = true) ∧ h.number i ≤ m.length + 1 := by
    unfold freshKey
    cases hfind : (h.suffixes.map (base ++ ·)).find? (!m.has ·) with
    | none =>
      obtain ⟨i, hnumber, hcandidate, -, hbefore⟩ := exists_first_counted hbase hfind
      exact ⟨i, hcandidate.symm, hbefore, hnumber⟩
    | some key =>
      obtain ⟨i, hi, hcandidate, -, hbefore⟩ := exists_first_hinted hfind
      have hpos : 0 < m.length := by
        cases m with
        | nil => simp [has, keys] at hbase
        | cons e m => exact Nat.succ_pos _
      refine ⟨i, hcandidate.symm, hbefore, ?_⟩
      unfold Hints.number
      omega
  obtain ⟨i, hi, hbefore, hnumber⟩ := hfirst
  refine ⟨has_freshKey hbase h, ?_, i, hi, hbefore, hnumber⟩
  rw [hi]
  exact candidate_ne base h i

end Candidates

/-- Both hinted keys are taken here, and some of the numbers. -/
def crowdedMapping : Keyed Nat :=
  [("fill4", 4), ("fill", 1), ("fill240", 240), ("fillFillAlt", 7), ("fill2", 2), ("fill02", 0)]

theorem freshKey_first_crowdedMapping :
    let h : Hints := { sourceIdentifier := some "com.apple.windows.fill-alt", id := some 240 }
    crowdedMapping.has "fill" = true ∧ freshKey crowdedMapping "fill" h = "fill3" ∧
      (crowdedMapping.has (freshKey crowdedMapping "fill" h) = false ∧
        freshKey crowdedMapping "fill" h ≠ "fill" ∧
        ∃ i, freshKey crowdedMapping "fill" h = candidate "fill" h i ∧
          (∀ j < i, crowdedMapping.has (candidate "fill" h j) = true) ∧
          h.number i ≤ crowdedMapping.length + 1) :=
  ⟨by decide +kernel, by decide +kernel, freshKey_first (by decide +kernel) _⟩

end HotkeyTree.Keyed
