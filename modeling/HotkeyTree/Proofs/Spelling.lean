import HotkeyTree.Proofs.Items

/-!
# Proofs: the characters of stored keys

The key of a name has only ASCII letters and digits, and so have the suffixes made from identifiers
and the numbers that are counted up. A hotkey id is put behind a key as it is written, and a
negative one is written with a sign: this is the only way for another character to get into a key.
-/

namespace HotkeyTree

open Text

/-- A key of ASCII letters and digits. -/
def PlainKey (k : String) : Prop := ∀ c ∈ k.toList, isKeyChar c = true

-- not by a search over all characters
instance (k : String) : Decidable (PlainKey k) :=
  List.decidableBAll (fun c => isKeyChar c = true) k.toList

theorem PlainKey.append {k k' : String} (h : PlainKey k) (h' : PlainKey k') :
    PlainKey (k ++ k') := by
  intro c hc
  rw [String.toList_append] at hc
  rcases List.mem_append.1 hc with hc | hc
  · exact h c hc
  · exact h' c hc

theorem plainKey_key (name : String) : PlainKey (DisplayName.key name) := by
  intro c hc
  rw [DisplayName.key, String.toList_ofList] at hc
  exact DisplayName.isKeyChar_of_mem_keyChars hc

theorem plainKey_toString (n : Nat) : PlainKey (toString n) := by
  intro c hc
  have hdigit : c.isDigit = true :=
    Nat.isDigit_of_mem_toDigits (b := 10) (n := n) (by decide) (by decide) (by simpa using hc)
  rw [isKeyChar, Char.isAlphanum, hdigit, Bool.or_true]

/-! ## Suffixes -/

namespace Keyed

theorem plainKey_identifierSuffix (identifier : String) :
    PlainKey (identifierSuffix identifier) := by
  have hchars : ∀ cs : List Char, (∀ c ∈ cs, isKeyChar c = true) →
      ∀ c ∈ capitalized cs, isKeyChar c = true := by
    intro cs hcs c hc
    cases cs with
    | nil => exact absurd hc List.not_mem_nil
    | cons d ds =>
      rcases List.mem_cons.1 hc with rfl | hc
      · exact isKeyChar_toUpper (hcs d List.mem_cons_self)
      · exact hcs c (List.mem_cons_of_mem _ hc)
  intro c hc
  rw [identifierSuffix, String.toList_ofList] at hc
  exact hchars _ (fun d hd => DisplayName.isKeyChar_of_mem_keyChars hd) c hc

/-- A suffix is plain, unless it is the text of a negative id. -/
theorem Hints.Offers.plainKey {h : Hints} {suffix : String} (hs : h.Offers suffix) :
    PlainKey suffix ∨ ∃ i, h.id = some i ∧ i < 0 ∧ suffix = "-" ++ toString i.toInt.natAbs := by
  cases hs with
  | identifier _ _ => exact Or.inl (plainKey_identifierSuffix _)
  | number n => exact Or.inl (plainKey_toString n)
  | @id i hi =>
    by_cases hneg : i < 0
    · refine Or.inr ⟨i, hi, hneg, ?_⟩
      have hlt : i.toInt < 0 := Int64.lt_iff_toInt_lt.1 hneg
      obtain ⟨n, hn⟩ := Int.eq_negSucc_of_lt_zero hlt
      rw [hn]
      rfl
    · left
      have hle : 0 ≤ i.toInt := by
        have hnot := mt Int64.lt_iff_toInt_lt.2 hneg
        have hzero : (0 : Int64).toInt = 0 := rfl
        omega
      obtain ⟨n, hn⟩ := Int.eq_ofNat_of_zero_le hle
      rw [hn]
      exact plainKey_toString n

/-- Besides ASCII letters and digits there can only be a sign in a key. -/
theorem eq_or_isKeyChar_of_mem_storedKey {α : Type} [HasKey α] [Labelled α] {m : Keyed α} {a : α}
    (hmade : FreshlyMade a) {h : Hints} {c : Char} (hc : c ∈ (storedKey m a h).toList) :
    c = '-' ∨ isKeyChar c = true := by
  have hown : PlainKey (HasKey.key a) := by
    rw [hmade.key_eq]
    exact plainKey_key _
  by_cases hfree : HasKey.key a ∉ m.keys
  · rw [storedKey_of_free hfree] at hc
    exact Or.inr (hown c hc)
  · obtain ⟨suffix, hoffer, hsuffix⟩ := storedKey_of_taken (not_not.1 hfree) h
    rw [hsuffix, String.toList_append, List.mem_append] at hc
    rcases hc with hc | hc
    · exact Or.inr (hown c hc)
    rcases hoffer.plainKey with hplain | ⟨i, -, -, rfl⟩
    · exact Or.inr (hplain c hc)
    rw [String.toList_append, List.mem_append] at hc
    rcases hc with hc | hc
    · exact Or.inl (by simpa using hc)
    · exact Or.inr (plainKey_toString _ c hc)

end Keyed

/-! ## Every key of the tree -/

/-- How the key of an entry is spelled: with ASCII letters and digits only, or with the negative
hotkey id of the entry behind the key of its name. -/
def Item.Spelled (i : Item) : Prop :=
  PlainKey i.label.stored ∨
    ∃ id, i.hotkeyId = some id ∧ id < 0 ∧
      i.label.stored = DisplayName.key i.label.name ++ "-" ++ toString id.toInt.natAbs

/-- What is stored under a fresh key is spelled so, wherever it is stored. -/
theorem spelled_of_mem_items {α : Type} [HasKey α] [LawfulHasKey α] [Labelled α] (scope : Scope)
    (hints : α → Keyed.Hints) (hotkeyId : α → Option Int64) (as : List α)
    (hid : ∀ a, (hints a).id = hotkeyId a)
    (hkeep : ∀ a k, hotkeyId (HasKey.withKey a k) = hotkeyId a)
    (hmade : ∀ a ∈ as, FreshlyMade a) :
    ∀ i ∈ (Keyed.insertAll hints [] as).items scope hotkeyId, i.Spelled := by
  intro i hi
  obtain ⟨a, -, m, -, -, hstored, hkey, hitem⟩ := Build.exists_storedKey_of_mem_items hmade hi
  by_cases hfree : HasKey.key a ∉ m.keys
  · left
    rw [hstored, Keyed.storedKey_of_free hfree, ← hkey]
    exact plainKey_key _
  · obtain ⟨suffix, hoffer, hsuffix⟩ := Keyed.storedKey_of_taken (not_not.1 hfree) (hints a)
    rw [← hstored, ← hkey] at hsuffix
    rcases hoffer.plainKey with hplain | ⟨id, hsome, hneg, rfl⟩
    · left
      rw [hsuffix]
      exact (plainKey_key _).append hplain
    · right
      refine ⟨id, ?_, hneg, ?_⟩
      · rw [hitem, hkeep, ← hid, hsome]
      · rw [hsuffix, String.append_assoc]

namespace Build

/-- **Every key of the tree, at every depth, consists of ASCII letters and digits**, but for the
shortcuts that were told apart by a negative hotkey id: there a sign stands before the digits. -/
theorem spelled_ofNodes (ns : List Node) : ∀ i ∈ (ofNodes ns).items, i.Spelled :=
  forall_items_ofNodes ns spelled_of_mem_items

/-- A category with two shortcuts of one name, the second with a negative id. -/
def negativeIdForest : List Node :=
  [{ name := some "Windows"
     identifier := some "windows"
     children := some
      [{ name := some "Fill", hotkeyId := some 1 },
       { name := some "Fill", hotkeyId := some (-5) }] }]

/-- The second shortcut of `negativeIdForest`. -/
def negativeIdItem : Item where
  scope := .category "windows"
  mapping := [⟨"fill", "fill", "Fill"⟩, ⟨"fill-5", "fill-5", "Fill"⟩]
  label := ⟨"fill-5", "fill-5", "Fill"⟩
  hotkeyId := some (-5)

theorem spelled_negativeIdItem :
    negativeIdItem ∈ (ofNodes negativeIdForest).items ∧ negativeIdItem.Spelled := by
  have hmem : negativeIdItem ∈ (ofNodes negativeIdForest).items := by decide +kernel
  exact ⟨hmem, spelled_ofNodes negativeIdForest negativeIdItem hmem⟩

/-- The sign of a negative id is in the key. -/
theorem not_plainKey_negativeIdForest :
    ¬ ∀ i ∈ (ofNodes negativeIdForest).items, PlainKey i.label.stored := by
  decide +kernel

end Build

end HotkeyTree
