import HotkeyTree.Proofs.DisplayName
import Mathlib.Data.List.Basic

/-!
# Proofs: what is left of a name behind its markers

There is only one way to cut a name into markers, each with the blanks behind it, and a rest that
begins with no marker and, behind a marker, with no blank: a marker does not begin with a blank, so
all blanks behind a marker belong to it. Cleaning a name gives this rest.
-/

namespace HotkeyTree

namespace Text

theorem trimStart_append_of_blank {gap : List Char} (hgap : ∀ c ∈ gap, isBlank c = true)
    (cs : List Char) : trimStart (gap ++ cs) = trimStart cs :=
  List.dropWhile_append_of_pos hgap

theorem trimStart_of_head {cs : List Char} (h : ∀ c ∈ cs.head?, isBlank c = false) :
    trimStart cs = cs := by
  cases cs with
  | nil => rfl
  | cons c cs =>
    have hc : ¬ isBlank c = true := by simp [h c (by simp)]
    exact List.dropWhile_cons_of_neg hc

theorem head_trimStart (cs : List Char) : ∀ c ∈ (trimStart cs).head?, isBlank c = false := by
  intro c hc
  have h := List.head?_dropWhile_not isBlank cs
  rw [← trimStart, Option.mem_def.1 hc] at h
  exact h

/-- What is taken off at the start of a text is blank. -/
theorem exists_gap_trimStart (cs : List Char) :
    ∃ gap : List Char, (∀ c ∈ gap, isBlank c = true) ∧ cs = gap ++ trimStart cs := by
  refine ⟨cs.takeWhile isBlank, ?_, List.takeWhile_append_dropWhile.symm⟩
  intro c hc
  exact List.all_eq_true.1 List.all_takeWhile c hc

end Text

namespace DisplayName

open Text

/-- A marker with the blanks behind it. -/
def IsMark (m : List Char) : Prop :=
  ∃ gap : List Char, (∀ c ∈ gap, isBlank c = true) ∧ m = marker.toList ++ gap

/-- A name cut into marks and a rest. -/
structure Cut (name : List Char) (marks : List (List Char)) (rest : List Char) : Prop where
  /-- Each mark is a marker and blanks. -/
  marked : ∀ m ∈ marks, IsMark m
  /-- The marks and the rest are the whole name. -/
  whole : name = marks.flatten ++ rest
  /-- The rest begins with no marker. -/
  unmarked : ¬ marker.toList <+: rest
  /-- Behind a mark, the rest begins with no blank. -/
  trimmed : marks ≠ [] → ∀ c ∈ rest.head?, isBlank c = false

theorem isBlank_of_mem_marker {c : Char} (hc : c ∈ marker.toList) : isBlank c = false := by
  have hall : marker.toList.all (fun d => !isBlank d) = true := by decide
  have hnot : (!isBlank c) = true := List.all_eq_true.1 hall c hc
  rwa [Bool.not_eq_true'] at hnot

theorem unmark_of_not_prefix {cs : List Char} (h : ¬ marker.toList <+: cs) : unmark cs = cs :=
  unmark_of_isPrefixOf_eq_false (Bool.eq_false_iff.2 (mt List.isPrefixOf_iff_prefix.1 h))

/-- A marker is taken off together with the blanks behind it. -/
theorem unmark_marker_append (cs : List Char) :
    unmark (marker.toList ++ cs) = unmark (trimStart cs) := by
  have hprefix : marker.toList.isPrefixOf (marker.toList ++ cs) = true :=
    List.isPrefixOf_iff_prefix.2 (List.prefix_append _ _)
  have hdrop : (marker.toList ++ cs).drop marker.length = cs :=
    List.drop_left' (String.length_toList)
  rw [unmark, if_pos hprefix, hdrop]

/-- Marks and a rest after them begin with no blank if the rest does not. -/
theorem head_flatten_append {marks : List (List Char)} {rest : List Char}
    (hmarks : ∀ m ∈ marks, IsMark m) (hrest : ∀ c ∈ rest.head?, isBlank c = false) :
    ∀ c ∈ (marks.flatten ++ rest).head?, isBlank c = false := by
  cases marks with
  | nil => exact hrest
  | cons m marks =>
    obtain ⟨gap, -, rfl⟩ := hmarks m List.mem_cons_self
    intro c hc
    have hhead : c = 'D' := by simpa [marker] using hc.symm
    rw [hhead]
    decide

/-- There is a cut whose rest is the cleaned name. -/
theorem exists_cut (cs : List Char) : ∃ marks, Cut cs marks (unmark cs) := by
  fun_induction unmark cs with
  | case1 cs h ih =>
    obtain ⟨marks, hcut⟩ := ih
    obtain ⟨behind, rfl⟩ := List.isPrefixOf_iff_prefix.1 h
    have hdrop : (marker.toList ++ behind).drop marker.length = behind :=
      List.drop_left' String.length_toList
    rw [hdrop] at hcut ⊢
    obtain ⟨gap, hgap, hbehind⟩ := exists_gap_trimStart behind
    refine ⟨(marker.toList ++ gap) :: marks, ?_, ?_, hcut.unmarked, ?_⟩
    · intro m hm
      rcases List.mem_cons.1 hm with rfl | hm
      · exact ⟨gap, hgap, rfl⟩
      · exact hcut.marked m hm
    · rw [List.flatten_cons, List.append_assoc, List.append_assoc, ← hcut.whole, ← hbehind]
    · intro _
      by_cases hmarks : marks = []
      · -- no mark follows, so the rest is what was trimmed just now
        have hrest : trimStart behind = unmark (trimStart behind) := by
          have hwhole := hcut.whole
          rwa [hmarks] at hwhole
        rw [← hrest]
        exact head_trimStart behind
      · exact hcut.trimmed hmarks
  | case2 cs h =>
    refine ⟨[], ?_, rfl, ?_, ?_⟩
    · intro m hm
      exact absurd hm List.not_mem_nil
    · exact mt List.isPrefixOf_iff_prefix.2 h
    · intro hne
      exact absurd rfl hne

/-- The rest of any cut is the cleaned name. -/
theorem Cut.unmark_eq {cs rest : List Char} {marks : List (List Char)} (h : Cut cs marks rest) :
    unmark cs = rest := by
  induction marks generalizing cs with
  | nil =>
    have hcs : cs = rest := h.whole
    rw [hcs]
    exact unmark_of_not_prefix h.unmarked
  | cons m marks ih =>
    have hbelow : ∀ m' ∈ marks, IsMark m' :=
      fun m' hm' => h.marked m' (List.mem_cons_of_mem m hm')
    have hrest : ∀ c ∈ rest.head?, isBlank c = false := h.trimmed (List.cons_ne_nil m marks)
    have hcut : Cut (marks.flatten ++ rest) marks rest := ⟨hbelow, rfl, h.unmarked, fun _ => hrest⟩
    obtain ⟨gap, hgap, rfl⟩ := h.marked m List.mem_cons_self
    have hcs : cs = marker.toList ++ (gap ++ (marks.flatten ++ rest)) := by
      rw [h.whole, List.flatten_cons, List.append_assoc, List.append_assoc]
    rw [hcs, unmark_marker_append, trimStart_append_of_blank hgap,
      trimStart_of_head (head_flatten_append hbelow hrest)]
    exact ih hcut

/-- **Cleaning takes off exactly the markers.** The cleaned name is the one text that is left behind
markers, each with the blanks behind it. So cleaning a name again changes nothing, cleaning changes
just the names that begin with the marker, and a name and its cleaned form have the same key. -/
theorem clean_cuts_markers (name : String) :
    (∀ shown : String, clean name = shown ↔ ∃ marks, Cut name.toList marks shown.toList) ∧
      clean (clean name) = clean name ∧
      (clean name = name ↔ ¬ marker.toList <+: name.toList) ∧
      key name = key (clean name) := by
  have hclean : (clean name).toList = unmark name.toList := String.toList_ofList
  refine ⟨?_, ?_, ?_, (key_clean name).symm⟩
  · intro shown
    constructor
    · rintro rfl
      rw [hclean]
      exact exists_cut name.toList
    · rintro ⟨marks, hcut⟩
      rw [clean, hcut.unmark_eq, String.ofList_toList]
  · rw [clean, hclean, unmark_unmark]
    rfl
  · constructor
    · intro h
      have hunmarked := not_marker_prefix_clean name
      rwa [h] at hunmarked
    · intro h
      rw [clean, unmark_of_not_prefix h, String.ofList_toList]

example : clean "DO_NOT_LOCALIZE: \tDO_NOT_LOCALIZE:Fill " = "Fill " := by decide +kernel

end DisplayName

end HotkeyTree
