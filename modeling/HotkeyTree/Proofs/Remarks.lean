import HotkeyTree.Proofs.CaseMapping
import HotkeyTree.Proofs.Words

/-!
# Proofs: what a key does not show

Two spellings of a name have the same key if they differ only in remarks at the end, with any blanks
before them, or in what separates the words. A remark is taken off whatever markers and blanks the
name has: it begins with a parenthesis, which neither continues a marker nor is trimmed behind one.
-/

namespace HotkeyTree

namespace Text

/-- Trimming the start of a text leaves what stands behind it, unless the text is blank: then it
goes on into the blanks behind it. -/
theorem exists_trimStart_append {gap tail : List Char} (hgap : ∀ c ∈ gap, isBlank c = true)
    (htail : ∀ c ∈ tail.head?, isBlank c = false) (cs : List Char) :
    ∃ gap' : List Char, (∀ c ∈ gap', isBlank c = true) ∧
      trimStart (cs ++ (gap ++ tail)) = trimStart cs ++ (gap' ++ tail) := by
  simp only [trimStart, List.dropWhile_append]
  by_cases hcs : cs.dropWhile isBlank = []
  · have htrim : (gap ++ tail).dropWhile isBlank = tail := by
      rw [← trimStart, trimStart_append_of_blank hgap, trimStart_of_head htail]
    refine ⟨[], fun c hc => absurd hc List.not_mem_nil, ?_⟩
    rw [← List.dropWhile_append, hcs, List.isEmpty_nil, if_pos rfl, htrim]
    rfl
  · have hnonempty : ¬ (cs.dropWhile isBlank).isEmpty = true := mt List.isEmpty_iff.1 hcs
    refine ⟨gap, hgap, ?_⟩
    rw [← List.dropWhile_append, if_neg hnonempty]

end Text

namespace DisplayName

open Text

/-! ## Markers of a longer name -/

/-- What follows a name adds no marker to it if its first character stands in no marker. -/
theorem not_marker_prefix_append {cs tail : List Char} (h : ¬ marker.toList <+: cs)
    (htail : ∀ c ∈ tail.head?, c ∉ marker.toList) : ¬ marker.toList <+: cs ++ tail := by
  intro hprefix
  rcases List.prefix_or_prefix_of_prefix hprefix (List.prefix_append cs tail) with hcs | ⟨r, hr⟩
  · exact h hcs
  · rw [← hr, List.prefix_append_right_inj] at hprefix
    cases r with
    | nil =>
      rw [List.append_nil] at hr
      exact h (hr ▸ List.prefix_rfl)
    | cons c r =>
      obtain ⟨behind, rfl⟩ := hprefix
      refine htail c rfl ?_
      rw [← hr]
      exact List.mem_append_right cs List.mem_cons_self

/-- Markers are taken off a name as if nothing followed it. -/
theorem exists_unmark_append {gap tail : List Char} (hgap : ∀ c ∈ gap, isBlank c = true)
    (htail : ∀ c ∈ tail.head?, isBlank c = false ∧ c ∉ marker.toList) (cs : List Char) :
    ∃ gap' : List Char, (∀ c ∈ gap', isBlank c = true) ∧
      unmark (cs ++ (gap ++ tail)) = unmark cs ++ (gap' ++ tail) := by
  fun_induction unmark cs generalizing gap with
  | case1 cs h ih =>
    obtain ⟨behind, rfl⟩ := List.isPrefixOf_iff_prefix.1 h
    have hdrop : (marker.toList ++ behind).drop marker.length = behind :=
      List.drop_left' String.length_toList
    rw [hdrop] at ih ⊢
    obtain ⟨gap', hgap', htrim⟩ := exists_trimStart_append hgap (fun c hc => (htail c hc).1) behind
    rw [List.append_assoc, unmark_marker_append, htrim]
    exact ih hgap'
  | case2 cs h =>
    have hnext : ∀ c ∈ (gap ++ tail).head?, c ∉ marker.toList := by
      cases gap with
      | nil => exact fun c hc => (htail c hc).2
      | cons d gap =>
        intro c hc hmem
        obtain rfl : d = c := Option.some_inj.1 hc
        have hblank : isBlank d = true := hgap d List.mem_cons_self
        rw [isBlank_of_mem_marker hmem] at hblank
        exact Bool.false_ne_true hblank
    have hunmarked := not_marker_prefix_append (mt List.isPrefixOf_iff_prefix.2 h) hnext
    exact ⟨gap, hgap, unmark_of_not_prefix hunmarked⟩

/-! ## Remarks -/

/-- The text ends in no remark. -/
def Unremarked (cs : List Char) : Prop := ∀ remark ∈ remarks, ¬ remark.toList <:+ cs

instance (cs : List Char) : Decidable (Unremarked cs) :=
  inferInstanceAs (Decidable (∀ remark ∈ remarks, ¬ remark.toList <:+ cs))

/-- A text without the remarks that end it. -/
def withoutRemarks (cs : List Char) : List Char :=
  remarks.foldl (fun body remark => dropRemark remark.toList body) cs

theorem keyChars_eq (cs : List Char) :
    keyChars cs = camelCase (words ((withoutRemarks (unmark cs)).map spaced)) := rfl

theorem dropRemark_of_not_suffix {remark cs : List Char} (h : ¬ remark <:+ cs) :
    dropRemark remark cs = cs :=
  if_neg (mt List.isSuffixOf_iff_suffix.1 h)

theorem dropRemark_append (remark cs : List Char) :
    dropRemark remark (cs ++ remark) = trimEnd cs := by
  have hsuffix : remark.isSuffixOf (cs ++ remark) = true :=
    List.isSuffixOf_iff_suffix.2 (List.suffix_append cs remark)
  have htake : (cs ++ remark).take ((cs ++ remark).length - remark.length) = cs := by
    rw [List.length_append, Nat.add_sub_cancel, List.take_left]
  rw [dropRemark, if_pos hsuffix, htake]

/-- A text that ends in one remark does not end in another that is no end of it. -/
theorem not_suffix_append {remark remark' : List Char} (h : ¬ remark <:+ remark')
    (h' : ¬ remark' <:+ remark) (cs : List Char) : ¬ remark <:+ cs ++ remark' := by
  intro hsuffix
  rcases List.suffix_or_suffix_of_suffix hsuffix (List.suffix_append cs remark') with hc | hc
  · exact h hc
  · exact h' hc

theorem withoutRemarks_of_unremarked {cs : List Char} (h : Unremarked cs) :
    withoutRemarks cs = cs := by
  have hspoken := dropRemark_of_not_suffix (h "(AX_DESCRIPTION)" (by decide))
  have hwindow := dropRemark_of_not_suffix (h "(window management)" (by decide))
  rw [withoutRemarks, remarks, List.foldl_cons, hspoken, List.foldl_cons, hwindow, List.foldl_nil]

/-- Blanks at the end hide no remark: none ends in a blank. -/
theorem unremarked_of_trimEnd {cs : List Char} (h : Unremarked (trimEnd cs)) : Unremarked cs := by
  intro remark hremark hsuffix
  have hlast : ∀ r ∈ remarks, r.toList.getLast? = some ')' := by decide
  have hcs : trimEnd cs = cs := by
    refine trimEnd_of_last fun c hc => ?_
    obtain ⟨front, rfl⟩ := hsuffix
    rw [List.getLast?_append, hlast remark hremark, Option.some_or, Option.mem_some_iff] at hc
    rw [← hc]
    decide
  exact h remark hremark (by rwa [hcs])

/-- An ending that is taken off a text together with the blanks before it. -/
structure Passing (ending : List Char) : Prop where
  /-- It begins as a remark does. -/
  opens : ending.head? = some '('
  /-- It is taken off. -/
  dropped : ∀ cs gap : List Char, (∀ c ∈ gap, isBlank c = true) → Unremarked (trimEnd cs) →
    withoutRemarks (cs ++ (gap ++ ending)) = trimEnd cs

theorem passing_window : Passing "(window management)".toList := by
  refine ⟨by decide, ?_⟩
  intro cs gap hgap _
  have hnot : ¬ "(AX_DESCRIPTION)".toList <:+ (cs ++ gap) ++ "(window management)".toList :=
    not_suffix_append (by decide) (by decide) (cs ++ gap)
  rw [← List.append_assoc, withoutRemarks, remarks, List.foldl_cons, dropRemark_of_not_suffix hnot,
    List.foldl_cons, dropRemark_append, List.foldl_nil, trimEnd_append_of_blank hgap]

theorem passing_spoken : Passing "(AX_DESCRIPTION)".toList := by
  refine ⟨by decide, ?_⟩
  intro cs gap hgap hcs
  have hnot : ¬ "(window management)".toList <:+ trimEnd cs := hcs _ (by decide)
  rw [← List.append_assoc, withoutRemarks, remarks, List.foldl_cons, dropRemark_append,
    trimEnd_append_of_blank hgap, List.foldl_cons, dropRemark_of_not_suffix hnot, List.foldl_nil]

theorem passing_both {gap : List Char} (hgap : ∀ c ∈ gap, isBlank c = true) :
    Passing ("(window management)".toList ++ (gap ++ "(AX_DESCRIPTION)".toList)) := by
  refine ⟨rfl, ?_⟩
  intro cs before hbefore _
  have hlast : ∀ c ∈ ((cs ++ before) ++ "(window management)".toList).getLast?,
      isBlank c = false := by
    intro c hc
    have hend : "(window management)".toList.getLast? = some ')' := by decide
    rw [List.getLast?_append, hend, Option.some_or, Option.mem_some_iff] at hc
    rw [← hc]
    decide
  -- the second remark uncovers the first one, which is taken off after it
  have hwhole : cs ++ (before ++ ("(window management)".toList ++
      (gap ++ "(AX_DESCRIPTION)".toList))) =
      (((cs ++ before) ++ "(window management)".toList) ++ gap) ++ "(AX_DESCRIPTION)".toList := by
    simp only [List.append_assoc]
  rw [hwhole, withoutRemarks, remarks, List.foldl_cons, dropRemark_append,
    trimEnd_append_of_blank hgap, trimEnd_of_last hlast, List.foldl_cons, dropRemark_append,
    List.foldl_nil, trimEnd_append_of_blank hbefore]

/-! ## Keys of names with remarks -/

/-- An ending that is taken off leaves no trace in the key. -/
theorem Passing.keyChars_append {ending cs gap : List Char} (h : Passing ending)
    (hgap : ∀ c ∈ gap, isBlank c = true) (hcs : Unremarked (trimEnd (unmark cs))) :
    keyChars (cs ++ (gap ++ ending)) = keyChars cs := by
  have hopens : ∀ c ∈ ending.head?, isBlank c = false ∧ c ∉ marker.toList := by
    intro c hc
    rw [h.opens, Option.mem_some_iff] at hc
    rw [← hc]
    decide
  obtain ⟨gap', hgap', hunmark⟩ := exists_unmark_append hgap hopens cs
  obtain ⟨trail, htrail, hend⟩ := exists_gap_trimEnd (unmark cs)
  have htrail' : ∀ c ∈ trail.map spaced, isBlank c = true := by
    refine isBlank_of_mem_map_spaced (List.all_eq_true.2 fun c hc => ?_)
    rw [separates, htrail c hc, Bool.true_or, Bool.true_or]
  have hwords : words ((unmark cs).map spaced) = words ((trimEnd (unmark cs)).map spaced) := by
    conv_lhs => rw [hend, List.map_append, words_append_right htrail']
  rw [keyChars_eq, keyChars_eq, hunmark, h.dropped _ _ hgap' hcs,
    withoutRemarks_of_unremarked (unremarked_of_trimEnd hcs), hwords]

/-- The key of a phrase is its words in lower camel case. -/
theorem Phrase.keyChars_text {p : Phrase} (hunmarked : ¬ marker.toList <+: p.text)
    (hremarks : Unremarked p.text) : keyChars p.text = camelCase p.words := by
  rw [keyChars_eq, unmark_of_not_prefix hunmarked, withoutRemarks_of_unremarked hremarks,
    p.words_text]

/-- Four words, with separators of all kinds before, between and behind them. -/
def scatteredPhrase : Phrase where
  pieces := [(" -".toList, "Move".toList), ("-/".toList, "ßide".toList),
    ("\t".toList, "VoiceOver".toList), ("/".toList, "desktop".toList)]
  trail := "/ ".toList
  separated := by decide
  apart := by decide
  nonempty := by decide
  unbroken := by decide
  trailing := by decide

end DisplayName

end HotkeyTree
