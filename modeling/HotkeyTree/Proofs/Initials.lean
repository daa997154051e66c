import HotkeyTree.Proofs.Remarks

/-!
# Proofs: how a key begins

The first word of a name is lowered, so a key whose first character is of the first word begins with
a lower-case letter or a digit. But if the first word leaves nothing in the key, its first character
is of a later word, which is in title case. That is the only way in which a key begins with a
capital letter.
-/

namespace HotkeyTree

namespace Text

theorem isUpper_toLower {c : Char} (h : isKeyChar c = true) : c.toLower.isUpper = false :=
  forall_isKeyChar (p := fun c => c.toLower.isUpper = false) (by decide) h

theorem isUpper_eq_false_iff {c : Char} (h : isKeyChar c = true) :
    c.isUpper = false ↔ c.isLower = true ∨ c.isDigit = true :=
  forall_isKeyChar (p := fun c => c.isUpper = false ↔ c.isLower = true ∨ c.isDigit = true)
    (by decide) h

/-- No lower-case form has a capital letter in it. -/
theorem isUpper_of_mem_lowered {c d : Char} (hd : d ∈ lowered c) : d.isUpper = false := by
  unfold lowered at hd
  split at hd
  · rename_i hc
    rw [List.mem_singleton.1 hd]
    exact isUpper_toLower hc
  · have hnot : (!d.isUpper) = true := of_mem_lookup (p := fun e => !e.isUpper) (by decide) hd
    rwa [Bool.not_eq_true'] at hnot

end Text

namespace DisplayName

open Text

/-- The words that the key of a name is made of. -/
def nameWords (name : String) : List (List Char) :=
  words ((withoutRemarks (unmark name.toList)).map spaced)

/-- The text is empty or begins with a lower-case letter or a digit. -/
def LowerInitial (s : String) : Prop := ∀ c ∈ s.toList.head?, c.isLower = true ∨ c.isDigit = true

/-- The first word leaves nothing in the key, and the first later word that leaves something there
begins with a capital letter. -/
def BeginsLate (ws : List (List Char)) : Prop :=
  ∃ first silent word rest, ws = first :: (silent ++ word :: rest) ∧
    (∀ c ∈ first, lowered c = []) ∧ (∀ w ∈ silent, laterWord w = []) ∧
    ∃ c ∈ (laterWord word).head?, c.isUpper = true

/-- The first character that later words leave is of the first of them that leaves any. -/
theorem exists_head_flatMap_laterWord_iff (ws : List (List Char)) :
    (∃ c ∈ (ws.flatMap laterWord).head?, c.isUpper = true) ↔
      ∃ silent word rest, ws = silent ++ word :: rest ∧ (∀ w ∈ silent, laterWord w = []) ∧
        ∃ c ∈ (laterWord word).head?, c.isUpper = true := by
  simp only [List.head?_flatMap, Option.mem_def, List.findSome?_eq_some_iff, List.head?_eq_none_iff]
  constructor
  · rintro ⟨c, ⟨silent, word, rest, hws, hword, hsilent⟩, hc⟩
    exact ⟨silent, word, rest, hws, hsilent, c, hword, hc⟩
  · rintro ⟨silent, word, rest, hws, hsilent, c, hword, hc⟩
    exact ⟨c, ⟨silent, word, rest, hws, hword, hsilent⟩, hc⟩

/-- Words in camel case begin with a capital letter just if they begin late. -/
theorem exists_head_camelCase_iff (ws : List (List Char)) :
    (∃ c ∈ (camelCase ws).head?, c.isUpper = true) ↔ BeginsLate ws := by
  cases ws with
  | nil =>
    constructor
    · rintro ⟨c, hc, -⟩
      cases hc
    · rintro ⟨first, silent, word, rest, hws, -⟩
      cases hws
  | cons w later =>
    by_cases hw : ∀ c ∈ w, lowered c = []
    · -- the first word is silent, so the key is what the later words leave
      have hfirst : w.flatMap lowered = [] := List.flatMap_eq_nil_iff.2 hw
      rw [camelCase, hfirst, List.nil_append, exists_head_flatMap_laterWord_iff]
      constructor
      · rintro ⟨silent, word, rest, rfl, hsilent, hword⟩
        exact ⟨w, silent, word, rest, rfl, hw, hsilent, hword⟩
      · rintro ⟨first, silent, word, rest, hws, -, hsilent, hword⟩
        obtain ⟨-, hlater⟩ := List.cons.inj hws
        exact ⟨silent, word, rest, hlater, hsilent, hword⟩
    · constructor
      · rintro ⟨c, hc, hupper⟩
        obtain ⟨d, ds, hfirst⟩ :=
          List.exists_cons_of_ne_nil (mt List.flatMap_eq_nil_iff.1 hw)
        have hhead : d = c := by
          rw [camelCase, hfirst] at hc
          exact Option.some_inj.1 hc
        have hd : d ∈ w.flatMap lowered := by
          rw [hfirst]
          exact List.mem_cons_self
        obtain ⟨e, -, he⟩ := List.mem_flatMap.1 hd
        have hlower := isUpper_of_mem_lowered he
        rw [hhead, hupper] at hlower
        cases hlower
      · rintro ⟨first, silent, word, rest, hws, hfirst, -⟩
        obtain ⟨rfl, -⟩ := List.cons.inj hws
        exact absurd hfirst hw

/-- **How a key begins.** It is empty or begins with a lower-case letter or a digit, unless the
first word of the name leaves nothing in it and the first later word that does begins with a capital
letter. -/
theorem lowerInitial_key_iff (name : String) :
    LowerInitial (key name) ↔ ¬ BeginsLate (nameWords name) := by
  have hkey : (key name).toList = camelCase (nameWords name) := String.toList_ofList
  rw [← exists_head_camelCase_iff, LowerInitial, hkey]
  constructor
  · rintro hlower ⟨c, hc, hupper⟩
    have hkeyChar := isKeyChar_of_mem_camelCase (List.mem_of_mem_head? hc)
    have hnot := (isUpper_eq_false_iff hkeyChar).2 (hlower c hc)
    rw [hupper] at hnot
    cases hnot
  · intro hnone c hc
    have hkeyChar := isKeyChar_of_mem_camelCase (List.mem_of_mem_head? hc)
    refine (isUpper_eq_false_iff hkeyChar).1 (Bool.eq_false_iff.2 fun hupper => ?_)
    exact hnone ⟨c, hc, hupper⟩

/-- The first word of this name is a sign, which is dropped after the second one got its capital. -/
theorem not_lowerInitial_key_signFirst :
    key "& More Options" = "MoreOptions" ∧ ¬ LowerInitial (key "& More Options") := by
  have hkey : key "& More Options" = "MoreOptions" := by decide +kernel
  refine ⟨hkey, ?_⟩
  intro hlower
  rw [hkey] at hlower
  rcases hlower 'M' rfl with h | h
  · exact absurd h (by decide)
  · exact absurd h (by decide)

end DisplayName

end HotkeyTree
