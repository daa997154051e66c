import HotkeyTree.Proofs.DisplayName
import Mathlib.Data.List.Basic

/-!
# Proofs: case mappings and camel case

Unicode maps a character to a text in lower case or in upper case. A key is made with these mappings
but shows only the ASCII letters and digits of their results. Of the characters outside ASCII, few
have any: `asciiLowerForms` and `asciiUpperForms` list them with their full forms. So whatever the
mappings do with all other characters, the key of some words is the ASCII part of their lower camel
case.
-/

namespace HotkeyTree.DisplayName

open Text

/-- The character is outside ASCII. -/
def Foreign (c : Char) : Prop := 128 ≤ c.toNat

instance (c : Char) : Decidable (Foreign c) := inferInstanceAs (Decidable (128 ≤ c.toNat))

/-- The characters outside ASCII with an ASCII letter in their lower-case form, and this form: the
capital `i` with a dot and the Kelvin sign. -/
def asciiLowerForms : List (Char × String) := [('\u0130', "i\u0307"), ('\u212a', "k")]

/-- The characters outside ASCII with ASCII letters in their upper-case form, and this form: the
sharp `s`, the dotless `i`, the `n` after an apostrophe and the long `s`, letters with marks that
have no capital of their own, and ligatures. -/
def asciiUpperForms : List (Char × String) :=
  [('\u00df', "SS"), ('\u0131', "I"), ('\u0149', "\u02bcN"), ('\u017f', "S"),
   ('\u01f0', "J\u030c"), ('\u1e96', "H\u0331"), ('\u1e97', "T\u0308"), ('\u1e98', "W\u030a"),
   ('\u1e99', "Y\u030a"), ('\u1e9a', "A\u02be"), ('\ufb00', "FF"), ('\ufb01', "FI"),
   ('\ufb02', "FL"), ('\ufb03', "FFI"), ('\ufb04', "FFL"), ('\ufb05', "ST"), ('\ufb06', "ST")]

/-- Full case mappings. -/
structure CaseMapping where
  /-- The lower-case form of a character. -/
  lower : Char → List Char
  /-- The upper-case form of a character. -/
  upper : Char → List Char
  lower_ascii : ∀ c, ¬ Foreign c → lower c = [c.toLower]
  upper_ascii : ∀ c, ¬ Foreign c → upper c = [c.toUpper]
  lower_listed : ∀ form ∈ asciiLowerForms, lower form.1 = form.2.toList
  upper_listed : ∀ form ∈ asciiUpperForms, upper form.1 = form.2.toList
  lower_other : ∀ c, Foreign c → c ∉ asciiLowerForms.map Prod.fst → ∀ d ∈ lower c, Foreign d
  upper_other : ∀ c, Foreign c → c ∉ asciiUpperForms.map Prod.fst → ∀ d ∈ upper c, Foreign d
  /-- After its first character no other form has one that gives an ASCII letter when lowered. -/
  upper_tail : ∀ c, Foreign c → c ∉ asciiUpperForms.map Prod.fst →
    ∀ d ∈ (upper c).tail, d ∉ asciiLowerForms.map Prod.fst

namespace CaseMapping

/-- The title-case form of a character: its upper-case form, in which every character after the
first is lowered again. -/
def title (m : CaseMapping) (c : Char) : List Char :=
  match m.upper c with
  | [] => []
  | d :: ds => d :: ds.flatMap m.lower

/-- A word with its first character in title case. -/
def capitalize (m : CaseMapping) : List Char → List Char
  | [] => []
  | c :: cs => m.title c ++ cs

/-- The first word in lower case, and every later one with its first character in title case. -/
def camel (m : CaseMapping) : List (List Char) → List Char
  | [] => []
  | w :: ws => w.flatMap m.lower ++ ws.flatMap m.capitalize

/-- The form that is listed for a character. One that is not listed is its own form. -/
def listedForm (listed : List (Char × String)) (c : Char) : List Char :=
  ((listed.lookup c).map String.toList).getD [c]

theorem listedForm_of_notMem {listed : List (Char × String)} {c : Char}
    (h : c ∉ listed.map Prod.fst) : listedForm listed c = [c] := by
  have hlookup : listed.lookup c = none := by
    rw [List.lookup_eq_none_iff]
    intro form hform
    rw [bne_iff_ne]
    rintro rfl
    exact h (List.mem_map_of_mem hform)
  rw [listedForm, hlookup]
  rfl

/-- The mapping that leaves every other character outside ASCII as it is. -/
def basic : CaseMapping where
  lower c := if Foreign c then listedForm asciiLowerForms c else [c.toLower]
  upper c := if Foreign c then listedForm asciiUpperForms c else [c.toUpper]
  lower_ascii _ hc := if_neg hc
  upper_ascii _ hc := if_neg hc
  lower_listed := by decide
  upper_listed := by decide
  lower_other := by
    intro c hc hnot
    rw [if_pos hc, listedForm_of_notMem hnot]
    exact List.forall_mem_singleton.2 hc
  upper_other := by
    intro c hc hnot
    rw [if_pos hc, listedForm_of_notMem hnot]
    exact List.forall_mem_singleton.2 hc
  upper_tail := by
    intro c hc hnot
    rw [if_pos hc, listedForm_of_notMem hnot]
    exact List.forall_mem_nil _

/-! ## What a key keeps of the forms -/

theorem isKeyChar_of_foreign {c : Char} (h : Foreign c) : isKeyChar c = false := by
  rw [Bool.eq_false_iff]
  intro hkey
  exact absurd (toNat_lt_of_isKeyChar hkey) (Nat.not_lt.2 h)

theorem filter_of_foreign {cs : List Char} (h : ∀ c ∈ cs, Foreign c) :
    cs.filter isKeyChar = [] := by
  rw [List.filter_eq_nil_iff]
  intro c hc
  rw [isKeyChar_of_foreign (h c hc)]
  exact Bool.false_ne_true

/-- What holds of the ASCII characters, one by one, holds of all of them. -/
theorem forall_ascii {p : Char → Prop} (h : ∀ n < 128, p (Char.ofNat n)) {c : Char}
    (hc : ¬ Foreign c) : p c := by
  have hp := h c.toNat (Nat.lt_of_not_le hc)
  rwa [Char.ofNat_toNat] at hp

/-- A character that is not among those listed is not found by its number either. -/
theorem lookup_toNat_eq_none {forms : List (Nat × List Char)} {listed : List (Char × String)}
    (h : forms.map Prod.fst = listed.map fun form => form.1.toNat) {c : Char}
    (hc : c ∉ listed.map Prod.fst) : forms.lookup c.toNat = none := by
  rw [List.lookup_eq_none_iff]
  intro form hform
  have hmem : form.1 ∈ listed.map fun form => form.1.toNat := by
    rw [← h]
    exact List.mem_map_of_mem hform
  obtain ⟨form', hform', heq⟩ := List.mem_map.1 hmem
  rw [← heq, bne_iff_ne]
  intro hsame
  have hchar : form'.1 = c := by
    rw [← Char.ofNat_toNat form'.1, ← hsame, Char.ofNat_toNat]
  exact hc (hchar ▸ List.mem_map_of_mem hform')

theorem lowered_of_foreign {c : Char} (hc : Foreign c) (hnot : c ∉ asciiLowerForms.map Prod.fst) :
    lowered c = [] := by
  rw [lowered, isKeyChar_of_foreign hc, if_neg Bool.false_ne_true,
    lookup_toNat_eq_none (by decide) hnot]
  rfl

theorem titled_of_foreign {c : Char} (hc : Foreign c) (hnot : c ∉ asciiUpperForms.map Prod.fst) :
    titled c = [] := by
  rw [titled, isKeyChar_of_foreign hc, if_neg Bool.false_ne_true,
    lookup_toNat_eq_none (by decide) hnot]
  rfl

variable (m : CaseMapping)

theorem filter_lower (c : Char) : (m.lower c).filter isKeyChar = lowered c := by
  by_cases hc : Foreign c
  · by_cases hlisted : c ∈ asciiLowerForms.map Prod.fst
    · obtain ⟨form, hform, rfl⟩ := List.mem_map.1 hlisted
      have hkept : ∀ form ∈ asciiLowerForms, form.2.toList.filter isKeyChar = lowered form.1 := by
        decide
      rw [m.lower_listed form hform, hkept form hform]
    · rw [filter_of_foreign (m.lower_other c hc hlisted), lowered_of_foreign hc hlisted]
  · rw [m.lower_ascii c hc]
    exact forall_ascii (p := fun c => [c.toLower].filter isKeyChar = lowered c) (by decide) hc

/-- What a key keeps of the title-case form that goes with an upper-case form. -/
def keptTitle : List Char → List Char
  | [] => []
  | d :: ds => [d].filter isKeyChar ++ ds.flatMap lowered

theorem filter_title_eq (c : Char) : (m.title c).filter isKeyChar = keptTitle (m.upper c) := by
  unfold title
  cases m.upper c with
  | nil => rfl
  | cons d ds =>
    have htail : (ds.flatMap m.lower).filter isKeyChar = ds.flatMap lowered := by
      rw [List.filter_flatMap]
      exact List.flatMap_congr fun e _ => m.filter_lower e
    show ([d] ++ ds.flatMap m.lower).filter isKeyChar = _
    rw [List.filter_append, htail, keptTitle]

theorem filter_title (c : Char) : (m.title c).filter isKeyChar = titled c := by
  rw [filter_title_eq]
  by_cases hc : Foreign c
  · by_cases hlisted : c ∈ asciiUpperForms.map Prod.fst
    · obtain ⟨form, hform, rfl⟩ := List.mem_map.1 hlisted
      have hkept : ∀ form ∈ asciiUpperForms, keptTitle form.2.toList = titled form.1 := by decide
      rw [m.upper_listed form hform, hkept form hform]
    · have hforeign := m.upper_other c hc hlisted
      have hlower := m.upper_tail c hc hlisted
      rw [titled_of_foreign hc hlisted]
      cases hupper : m.upper c with
      | nil => rfl
      | cons d ds =>
        rw [hupper] at hforeign hlower
        obtain ⟨hd, hds⟩ := List.forall_mem_cons.1 hforeign
        have hhead : [d].filter isKeyChar = [] := filter_of_foreign (List.forall_mem_singleton.2 hd)
        have htail : ds.flatMap lowered = [] := List.flatMap_eq_nil_iff.2 fun e he =>
          lowered_of_foreign (hds e he) (hlower e he)
        rw [keptTitle, hhead, htail, List.append_nil]
  · rw [m.upper_ascii c hc]
    exact forall_ascii (p := fun c => keptTitle [c.toUpper] = titled c) (by decide) hc

theorem filter_capitalize (w : List Char) : (m.capitalize w).filter isKeyChar = laterWord w := by
  cases w with
  | nil => rfl
  | cons c cs => rw [capitalize, List.filter_append, m.filter_title, laterWord]

/-- **What is dropped does not matter**: the words may be joined in camel case first. -/
theorem filter_camel (ws : List (List Char)) : (m.camel ws).filter isKeyChar = camelCase ws := by
  cases ws with
  | nil => rfl
  | cons w ws =>
    simp only [camel, camelCase, List.filter_append, List.filter_flatMap, m.filter_lower,
      m.filter_capitalize]

end CaseMapping

end HotkeyTree.DisplayName
