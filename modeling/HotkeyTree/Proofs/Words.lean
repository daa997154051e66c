import HotkeyTree.Proofs.Markers

/-!
# Proofs: the words of a name

A text has the same words whatever blanks stand before and behind it, and a word that is set apart
by a blank is a word of the text. In a name `/` and `-` count as blanks, so words that stand in a
row with any separators between them are the words of the name.
-/

namespace HotkeyTree

namespace Text

/-! ## Blank ends -/

theorem trimEnd_eq (cs : List Char) : trimEnd cs = (trimStart cs.reverse).reverse := rfl

theorem trimEnd_append_of_blank {gap : List Char} (hgap : ∀ c ∈ gap, isBlank c = true)
    (cs : List Char) : trimEnd (cs ++ gap) = trimEnd cs := by
  have hreverse : ∀ c ∈ gap.reverse, isBlank c = true := fun c hc => hgap c (List.mem_reverse.1 hc)
  rw [trimEnd_eq, List.reverse_append, trimStart_append_of_blank hreverse, ← trimEnd_eq]

theorem trimEnd_of_last {cs : List Char} (h : ∀ c ∈ cs.getLast?, isBlank c = false) :
    trimEnd cs = cs := by
  rw [← List.head?_reverse] at h
  rw [trimEnd_eq, trimStart_of_head h, List.reverse_reverse]

theorem exists_gap_trimEnd (cs : List Char) :
    ∃ gap : List Char, (∀ c ∈ gap, isBlank c = true) ∧ cs = trimEnd cs ++ gap := by
  obtain ⟨gap, hgap, hcs⟩ := exists_gap_trimStart cs.reverse
  refine ⟨gap.reverse, fun c hc => hgap c (List.mem_reverse.1 hc), ?_⟩
  rw [trimEnd_eq, ← List.reverse_append, ← hcs, List.reverse_reverse]

/-! ## Words between blanks -/

theorem words_append_left {gap : List Char} (hgap : ∀ c ∈ gap, isBlank c = true)
    (cs : List Char) : words (gap ++ cs) = words cs := by
  induction gap with
  | nil => rfl
  | cons c gap ih =>
    have hc : isBlank c = true := hgap c List.mem_cons_self
    have hrest : ∀ d ∈ gap, isBlank d = true := fun d hd => hgap d (List.mem_cons_of_mem c hd)
    rw [List.cons_append, words, if_pos hc]
    exact ih hrest

theorem words_of_blank {gap : List Char} (hgap : ∀ c ∈ gap, isBlank c = true) : words gap = [] := by
  have h := words_append_left hgap []
  rwa [List.append_nil] at h

theorem words_append_right {gap : List Char} (hgap : ∀ c ∈ gap, isBlank c = true)
    (cs : List Char) : words (cs ++ gap) = words cs := by
  have hhead : gap.head?.all isBlank = true := by
    cases gap with
    | nil => rfl
    | cons d gap => exact hgap d List.mem_cons_self
  induction cs with
  | nil => exact words_of_blank hgap
  | cons c cs ih =>
    have hnext : (cs ++ gap).head?.all isBlank = cs.head?.all isBlank := by
      cases cs with
      | nil => exact hhead
      | cons d cs => rfl
    rw [List.cons_append, words, words, hnext, ih]

/-- A word that is followed by a blank, or by nothing, is the first word of the text. -/
theorem words_append_word {w rest : List Char} (hne : w ≠ [])
    (hw : ∀ c ∈ w, isBlank c = false) (hrest : ∀ c ∈ rest.head?, isBlank c = true) :
    words (w ++ rest) = w :: words rest := by
  induction w with
  | nil => exact absurd rfl hne
  | cons c w ih =>
    have hc : ¬ isBlank c = true := by simp [hw c List.mem_cons_self]
    rw [List.cons_append, words, if_neg hc]
    cases w with
    | nil =>
      have hend : rest.head?.all isBlank = true := Option.all_eq_true _ _ |>.2 hrest
      rw [List.nil_append, if_pos hend]
    | cons d w =>
      have hd : isBlank d = false := hw d (List.mem_cons_of_mem c List.mem_cons_self)
      have hgoes : ¬ (((d :: w) ++ rest).head?.all isBlank = true) := by simp [hd]
      have hwords := ih (List.cons_ne_nil d w) fun e he => hw e (List.mem_cons_of_mem c he)
      rw [if_neg hgoes, hwords]

end Text

namespace DisplayName

open Text

/-! ## Words between separators -/

/-- What separates the words of a name: blanks, `/` and `-`. -/
def separates (c : Char) : Bool := isBlank c || c == '/' || c == '-'

theorem isBlank_spaced (c : Char) : isBlank (spaced c) = separates c := by
  by_cases hc : (c == '/' || c == '-') = true
  · have hspace : isBlank ' ' = true := by decide
    rw [spaced, if_pos hc, hspace, separates, Bool.or_assoc, hc, Bool.or_true]
  · rw [spaced, if_neg hc, separates, Bool.or_assoc, Bool.eq_false_iff.2 hc, Bool.or_false]

theorem spaced_of_not_separates {c : Char} (h : separates c = false) : spaced c = c := by
  rw [separates, Bool.or_assoc, Bool.or_eq_false_iff] at h
  rw [spaced, h.2]
  rfl

theorem isBlank_of_mem_map_spaced {gap : List Char} (hgap : gap.all separates = true) :
    ∀ c ∈ gap.map spaced, isBlank c = true := by
  intro c hc
  obtain ⟨d, hd, rfl⟩ := List.mem_map.1 hc
  rw [isBlank_spaced]
  exact List.all_eq_true.1 hgap d hd

/-- No character of the text separates words. -/
def solid (w : List Char) : Bool := w.all fun c => !separates c

theorem separates_of_solid {w : List Char} (hw : solid w = true) {c : Char} (hc : c ∈ w) :
    separates c = false := by
  have hnot : (!separates c) = true := List.all_eq_true.1 hw c hc
  rwa [Bool.not_eq_true'] at hnot

theorem map_spaced_of_solid {w : List Char} (hw : solid w = true) : w.map spaced = w := by
  have h : w.map spaced = w.map id :=
    List.map_congr_left fun c hc => spaced_of_not_separates (separates_of_solid hw hc)
  rwa [List.map_id] at h

theorem isBlank_of_solid {w : List Char} (hw : solid w = true) {c : Char} (hc : c ∈ w) :
    isBlank c = false := by
  have hsolid := separates_of_solid hw hc
  calc isBlank c = isBlank (spaced c) := by rw [spaced_of_not_separates hsolid]
    _ = separates c := isBlank_spaced c
    _ = false := hsolid

/-- Words in a row, with separators before, between and behind them. -/
structure Phrase where
  /-- The words, each with the separators before it. -/
  pieces : List (List Char × List Char)
  /-- The separators at the end. -/
  trail : List Char
  /-- Only separators stand before a word. -/
  separated : ∀ p ∈ pieces, p.1.all separates = true
  /-- Some separator stands between two words. -/
  apart : ∀ p ∈ pieces.tail, p.1 ≠ []
  /-- A word is not empty. -/
  nonempty : ∀ p ∈ pieces, p.2 ≠ []
  /-- No separator stands in a word. -/
  unbroken : ∀ p ∈ pieces, solid p.2 = true
  /-- Only separators stand behind the last word. -/
  trailing : trail.all separates = true

/-- The phrase as it is written. -/
def Phrase.text (p : Phrase) : List Char := (p.pieces.flatMap fun q => q.1 ++ q.2) ++ p.trail

/-- The words of the phrase. -/
def Phrase.words (p : Phrase) : List (List Char) := p.pieces.map Prod.snd

/-- What follows a word begins with a separator, be it of the next word or at the end. -/
theorem head_pieces {pieces : List (List Char × List Char)} {trail : List Char}
    (hseparated : ∀ p ∈ pieces, p.1.all separates = true) (hapart : ∀ p ∈ pieces, p.1 ≠ [])
    (htrailing : trail.all separates = true) :
    ∀ c ∈ (((pieces.flatMap fun p => p.1 ++ p.2) ++ trail).map spaced).head?, isBlank c = true := by
  intro c hc
  cases pieces with
  | nil => exact isBlank_of_mem_map_spaced htrailing c (List.mem_of_mem_head? hc)
  | cons next pieces =>
    obtain ⟨d, gap, hgap⟩ := List.exists_cons_of_ne_nil (hapart next List.mem_cons_self)
    have hall := hseparated next List.mem_cons_self
    rw [hgap, List.all_cons, Bool.and_eq_true] at hall
    have hcd : spaced d = c := by simpa [hgap] using hc
    rw [← hcd, isBlank_spaced, hall.1]

/-- The words of a phrase are found again, whatever separators stand between them. -/
theorem Phrase.words_text (p : Phrase) : Text.words (p.text.map spaced) = p.words := by
  obtain ⟨pieces, trail, hseparated, hapart, hnonempty, hsolid, htrailing⟩ := p
  simp only [Phrase.text, Phrase.words]
  induction pieces with
  | nil => exact words_of_blank (isBlank_of_mem_map_spaced htrailing)
  | cons q pieces ih =>
    have hmem : ∀ q' ∈ pieces, q' ∈ q :: pieces := fun q' hq' => List.mem_cons_of_mem q hq'
    have hbelow : ∀ q' ∈ pieces, q'.1.all separates = true :=
      fun q' hq' => hseparated q' (hmem q' hq')
    have hrest := ih hbelow (fun q' hq' => hapart q' (List.mem_of_mem_tail hq'))
      (fun q' hq' => hnonempty q' (hmem q' hq')) (fun q' hq' => hsolid q' (hmem q' hq'))
    have hnext := head_pieces hbelow hapart htrailing
    have hgap := isBlank_of_mem_map_spaced (hseparated q List.mem_cons_self)
    have hword := hsolid q List.mem_cons_self
    rw [List.flatMap_cons, List.append_assoc, List.append_assoc, List.map_append, List.map_append,
      words_append_left hgap, map_spaced_of_solid hword,
      words_append_word (hnonempty q List.mem_cons_self) (fun c hc => isBlank_of_solid hword hc)
        hnext, hrest, List.map_cons]

end DisplayName

end HotkeyTree
