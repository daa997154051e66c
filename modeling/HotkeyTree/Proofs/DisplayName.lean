import HotkeyTree.DisplayName

/-!
# Proofs: cleaned names and their keys

A cleaned name does not begin with the marker, and cleaning keeps the key. So a name with a key is
still a name with that key when it is shown. A key consists of ASCII letters and digits, whatever
characters the name has: the case forms that are looked up in tables contain nothing else either.
-/

namespace HotkeyTree

/-! ## Case forms -/

namespace Text

theorem toNat_lt_of_isKeyChar {c : Char} (h : isKeyChar c = true) : c.toNat < 128 := by
  have hclasses : (c.isUpper || c.isLower || c.isDigit) = true := h
  change (decide ('A'.val ≤ c.val ∧ c.val ≤ 'Z'.val) || ('a'.val ≤ c.val && c.val ≤ 'z'.val) ||
    ('0'.val ≤ c.val && c.val ≤ '9'.val)) = true at hclasses
  simp only [Bool.or_eq_true, Bool.and_eq_true, decide_eq_true_eq, UInt32.le_iff_toNat_le]
    at hclasses
  change ((65 ≤ c.toNat ∧ c.toNat ≤ 90) ∨ (97 ≤ c.toNat ∧ c.toNat ≤ 122)) ∨
    (48 ≤ c.toNat ∧ c.toNat ≤ 57) at hclasses
  omega

/-- What holds of the ASCII letters and digits, one by one, holds of every character of a key. -/
theorem forall_isKeyChar {p : Char → Prop}
    (h : ∀ n < 128, isKeyChar (Char.ofNat n) = true → p (Char.ofNat n)) {c : Char}
    (hc : isKeyChar c = true) : p c := by
  have hp := h c.toNat (toNat_lt_of_isKeyChar hc)
  rw [Char.ofNat_toNat] at hp
  exact hp hc

theorem isKeyChar_toLower {c : Char} (h : isKeyChar c = true) : isKeyChar c.toLower = true :=
  forall_isKeyChar (p := fun c => isKeyChar c.toLower = true) (by decide) h

theorem isKeyChar_toUpper {c : Char} (h : isKeyChar c = true) : isKeyChar c.toUpper = true :=
  forall_isKeyChar (p := fun c => isKeyChar c.toUpper = true) (by decide) h

/-- What holds of every listed character holds of those that are looked up. -/
theorem of_mem_lookup {p : Char → Bool} {forms : List (Nat × List Char)}
    (h : forms.all (fun form => form.2.all p) = true) {n : Nat} {c : Char}
    (hc : c ∈ (forms.lookup n).getD []) : p c = true := by
  induction forms with
  | nil => simp at hc
  | cons form forms ih =>
    rw [List.all_cons, Bool.and_eq_true] at h
    rw [List.lookup_cons] at hc
    split at hc
    · exact List.all_eq_true.1 h.1 c hc
    · exact ih h.2 hc

theorem isKeyChar_of_mem_lowered {c d : Char} (hd : d ∈ lowered c) : isKeyChar d = true := by
  unfold lowered at hd
  split at hd
  · rename_i hc
    rw [List.mem_singleton.1 hd]
    exact isKeyChar_toLower hc
  · exact of_mem_lookup (p := isKeyChar) (by decide) hd

theorem isKeyChar_of_mem_titled {c d : Char} (hd : d ∈ titled c) : isKeyChar d = true := by
  unfold titled at hd
  split at hd
  · rename_i hc
    rw [List.mem_singleton.1 hd]
    exact isKeyChar_toUpper hc
  · exact of_mem_lookup (p := isKeyChar) (by decide) hd

end Text

namespace DisplayName

/-! ## Cleaned names -/

theorem unmark_of_isPrefixOf_eq_false {cs : List Char} (h : marker.toList.isPrefixOf cs = false) :
    unmark cs = cs := by
  rw [unmark, h]
  simp

/-- No marker is left in front of a name. -/
theorem isPrefixOf_unmark (cs : List Char) : marker.toList.isPrefixOf (unmark cs) = false := by
  fun_induction unmark cs with
  | case1 cs h ih => exact ih
  | case2 cs h => exact Bool.eq_false_iff.2 h

theorem unmark_unmark (cs : List Char) : unmark (unmark cs) = unmark cs :=
  unmark_of_isPrefixOf_eq_false (isPrefixOf_unmark cs)

theorem keyChars_unmark (cs : List Char) : keyChars (unmark cs) = keyChars cs := by
  simp only [keyChars, unmark_unmark]

/-- The key of a name is the key of what is shown of it. -/
theorem key_clean (name : String) : key (clean name) = key name := by
  simp only [key, clean, String.toList_ofList, keyChars_unmark]

/-- The name that is shown does not begin with the marker. -/
theorem not_marker_prefix_clean (name : String) :
    ¬ marker.toList <+: (clean name).toList := by
  rw [clean, String.toList_ofList, ← List.isPrefixOf_iff_prefix, isPrefixOf_unmark]
  exact Bool.false_ne_true

theorem key_empty : key "" = "" := by
  have h : unmark [] = [] := unmark_of_isPrefixOf_eq_false (by decide)
  simp [key, keyChars, h, remarks, dropRemark, Text.words, camelCase]

theorem ne_empty_of_key_ne_empty {name : String} (h : key name ≠ "") : name ≠ "" := by
  rintro rfl
  exact h key_empty

/-! ## Characters of keys -/

open Text

theorem isKeyChar_of_mem_laterWord {w : List Char} {c : Char} (hc : c ∈ laterWord w) :
    isKeyChar c = true := by
  cases w with
  | nil => simp [laterWord] at hc
  | cons d ds =>
    rcases List.mem_append.1 hc with hc | hc
    · exact isKeyChar_of_mem_titled hc
    · exact (List.mem_filter.1 hc).2

theorem isKeyChar_of_mem_camelCase {ws : List (List Char)} {c : Char} (hc : c ∈ camelCase ws) :
    isKeyChar c = true := by
  cases ws with
  | nil => simp [camelCase] at hc
  | cons w ws =>
    rcases List.mem_append.1 hc with hc | hc
    · obtain ⟨d, -, hd⟩ := List.mem_flatMap.1 hc
      exact isKeyChar_of_mem_lowered hd
    · obtain ⟨v, -, hv⟩ := List.mem_flatMap.1 hc
      exact isKeyChar_of_mem_laterWord hv

/-- Only ASCII letters and digits survive in a key. -/
theorem isKeyChar_of_mem_keyChars {cs : List Char} {c : Char} (hc : c ∈ keyChars cs) :
    isKeyChar c = true :=
  isKeyChar_of_mem_camelCase hc

end DisplayName

end HotkeyTree
