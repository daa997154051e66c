import HotkeyTree.Json.Token
import HotkeyTree.Json.Writer
import Mathlib.Data.Option.Basic

/-!
# Proofs: string literals and numbers are read as they were written

A written character is read back as one piece that stands for it, whether it was escaped or not, so
a literal is read back whole. A number is read as far as digits go; it is read back whole when what
follows it does not continue it.
-/

namespace HotkeyTree.Json

/-! ## String literals -/

theorem hexNumber?_control :
    ∀ n < 0x20, hexNumber? ['0', '0', hexDigit (n / 16), hexDigit (n % 16)] = some n := by
  decide

/-- A unit that is no half of a surrogate pair stands for its character, whatever follows. -/
theorem joinPieces_unit {u : Nat} (hu : u < 0xD800) (ps : List Piece) :
    joinPieces (.unit u :: ps) = (joinPieces ps).map (Char.ofNat u :: ·) := by
  have hhigh : isHighSurrogate u = false := by simp [isHighSurrogate]; omega
  have hlow : isLowSurrogate u = false := by simp [isLowSurrogate]; omega
  rcases ps with - | ⟨p, ps⟩
  · simp [joinPieces, hhigh, hlow]
  · cases p <;> simp [joinPieces, hhigh, hlow]

/-- A piece is read off a text and stands for a character. -/
structure WrittenAs (cs : List Char) (c : Char) (p : Piece) : Prop where
  scan : ∀ rest, scanPieces (cs ++ rest) = (scanPieces rest).map fun r => (p :: r.1, r.2)
  join : ∀ ps, joinPieces (p :: ps) = (joinPieces ps).map (c :: ·)

/-- A backslash and a letter are read as the character they stand for. -/
theorem WrittenAs.escape {e c : Char} (he : escaped? e = some c) (hu : e ≠ 'u') :
    WrittenAs ['\x5c', e] c (.char c) := by
  refine ⟨fun rest => ?_, fun ps => by simp [joinPieces]⟩
  rw [List.cons_append, List.singleton_append, scanPieces, he]
  · cases scanPieces rest <;> rfl
  · intro _ _ _ _ _ h _
    exact hu h

theorem WrittenAs.control {c : Char} (hc : c.toNat < 0x20) :
    WrittenAs ['\x5c', 'u', '0', '0', hexDigit (c.toNat / 16), hexDigit (c.toNat % 16)] c
      (.unit c.toNat) := by
  refine ⟨fun rest => ?_, fun ps => ?_⟩
  · cases hrest : scanPieces rest <;> simp [scanPieces, hexNumber?_control c.toNat hc, hrest]
  · rw [joinPieces_unit (by omega), Char.ofNat_toNat]

theorem WrittenAs.plain {c : Char} (hquote : c ≠ '\x22') (hslash : c ≠ '\x5c')
    (hc : 0x20 ≤ c.toNat) : WrittenAs [c] c (.char c) := by
  have hguard : (guard (c != '\x5c' && 0x20 ≤ c.toNat) : Option Unit) = some () :=
    (Option.guard_eq_some' ()).2 (by simp [hslash, hc])
  refine ⟨fun rest => ?_, fun ps => by simp [joinPieces]⟩
  rw [List.singleton_append, scanPieces, hguard]
  · cases scanPieces rest <;> rfl
  · exact hquote
  · intro _ _ _ _ _ h _
    exact hslash h
  · intro _ _ h _
    exact hslash h

/-- Every character is read back as one piece. -/
theorem exists_writtenAs (c : Char) : ∃ p, WrittenAs (escape c) c p := by
  unfold escape
  split
  -- the one alternative that is not a fixed escape
  case h_8 hquote hslash _ _ _ _ _ =>
    split
    case isTrue hc => exact ⟨_, .control hc⟩
    case isFalse hc => exact ⟨_, .plain hquote hslash (by omega)⟩
  all_goals exact ⟨_, .escape rfl (by decide)⟩

/-- The characters of a literal are read back up to the quote that closes it. -/
theorem scanPieces_escape (s rest : List Char) :
    ∃ ps, scanPieces (s.flatMap escape ++ '\x22' :: rest) = some (ps, rest) ∧
      joinPieces ps = some s := by
  induction s with
  | nil => exact ⟨[], by simp [scanPieces], rfl⟩
  | cons c s ih =>
    obtain ⟨ps, hscan, hjoin⟩ := ih
    obtain ⟨p, hp⟩ := exists_writtenAs c
    refine ⟨p :: ps, ?_, ?_⟩
    · rw [List.flatMap_cons, List.append_assoc, hp.scan, hscan]
      rfl
    · rw [hp.join, hjoin]
      rfl

/-- A literal is read back, one without text too. -/
theorem scanLiteral_quote (s : Literal) (rest : List Char) :
    ∃ cs, quote s ++ rest = '\x22' :: cs ∧ scanLiteral cs = some (s, rest) := by
  cases s with
  | none => exact ⟨_, rfl, rfl⟩
  | some s =>
    obtain ⟨ps, hscan, hjoin⟩ := scanPieces_escape s.toList rest
    refine ⟨s.toList.flatMap escape ++ '\x22' :: rest, by simp [quote], ?_⟩
    rw [scanLiteral, hscan]
    simp [hjoin]

/-! ## Numbers -/

/-- What follows a number does not continue it. -/
def Ends (rest : List Char) : Prop :=
  ∀ c ∈ rest.head?, c.isDigit = false ∧ c ≠ '.' ∧ c ≠ 'e' ∧ c ≠ 'E'

theorem scanDigits_append {ds rest : List Char} (hne : ds ≠ []) (hds : ∀ c ∈ ds, c.isDigit)
    (hrest : ∀ c ∈ rest.head?, c.isDigit = false) : scanDigits (ds ++ rest) = some (ds, rest) := by
  have htake : rest.takeWhile Char.isDigit = [] := by
    cases rest with
    | nil => rfl
    | cons c cs => simp [hrest c rfl]
  have hdrop : rest.dropWhile Char.isDigit = rest := by
    cases rest with
    | nil => rfl
    | cons c cs => simp [hrest c rfl]
  rw [scanDigits, List.takeWhile_append_of_pos hds, List.dropWhile_append_of_pos hds, htake, hdrop]
  simp [hne]

namespace Number

/-- A number as it can stand in a text. -/
structure WellFormed (n : Number) : Prop where
  whole_ne : n.whole ≠ []
  whole_digits : ∀ c ∈ n.whole, c.isDigit
  /-- A zero does not stand before other digits. -/
  whole_head : n.whole.head? = some '0' → n.whole.length = 1
  fraction_digits : ∀ c ∈ n.fraction, c.isDigit

theorem ofDigits_toDigits (n : Nat) : ofDigits (Nat.toDigits 10 n) = n :=
  Nat.ofDigitChars_ten_toDigits

theorem isDigit_of_mem_toDigits {n : Nat} {c : Char} (h : c ∈ Nat.toDigits 10 n) : c.isDigit :=
  Nat.isDigit_of_mem_toDigits (by decide) (by decide) h

theorem digitChar_ne_zero : ∀ n < 10, n ≠ 0 → Nat.digitChar n ≠ '0' := by
  decide

/-- Only zero is written with a zero in front. -/
theorem head_toDigits_ne {n : Nat} (hn : n ≠ 0) : (Nat.toDigits 10 n).head? ≠ some '0' := by
  induction n using Nat.strongRecOn with
  | ind n ih =>
    by_cases hlt : n < 10
    · rw [Nat.toDigits_of_lt_base hlt]
      simpa using digitChar_ne_zero n hlt hn
    · obtain ⟨d, ds, hds⟩ :=
        List.exists_cons_of_ne_nil (Nat.toDigits_ne_nil (n := n / 10) (b := 10))
      have hhead := ih (n / 10) (by omega) (by omega)
      rw [Nat.toDigits_of_base_le (by decide) (by omega), hds]
      rwa [hds] at hhead

/-- The number written for an integer is well formed. -/
theorem wellFormed_ofInt (i : Int) : (ofInt i).WellFormed := by
  refine ⟨Nat.toDigits_ne_nil, fun c hc => isDigit_of_mem_toDigits hc, fun hhead => ?_, ?_⟩
  · have hi : i.natAbs = 0 := Decidable.byContradiction fun hne => head_toDigits_ne hne hhead
    simp [ofInt, hi]
  · simp [ofInt]

end Number

theorem scanWhole_append {n : Number} (hn : n.WellFormed) {rest : List Char}
    (hrest : ∀ c ∈ rest.head?, c.isDigit = false) :
    scanWhole (n.whole ++ rest) = some (n.whole, rest) := by
  have hguard : (guard (n.whole.head? != some '0' || n.whole.length == 1) : Option Unit) =
      some () := by
    rw [Option.guard_eq_some']
    by_cases hhead : n.whole.head? = some '0'
    · simp [hn.whole_head hhead]
    · simp [hhead]
  rw [scanWhole, scanDigits_append hn.whole_ne hn.whole_digits hrest]
  show Option.bind (guard _) _ = _
  rw [hguard]
  rfl

/-- How a fraction is written. -/
def fractionText (ds : List Char) : List Char := if ds.isEmpty then [] else '.' :: ds

/-- How an exponent is written after its mark, when there is one. -/
def exponentPart : Option Int → List Char
  | some e => 'e' :: exponentText e
  | none => []

theorem scanFraction_append {ds rest : List Char} (hds : ∀ c ∈ ds, c.isDigit)
    (hrest : ∀ c ∈ rest.head?, c.isDigit = false ∧ c ≠ '.') :
    scanFraction (fractionText ds ++ rest) = some (ds, rest) := by
  by_cases hne : ds = []
  · subst hne
    cases rest with
    | nil => rfl
    | cons c cs => simp [fractionText, scanFraction, (hrest c rfl).2]
  · simp only [fractionText, List.isEmpty_iff, hne, if_false, List.cons_append, scanFraction]
    exact scanDigits_append hne hds fun c hc => (hrest c hc).1

theorem scanExponentDigits_append (e : Int) {rest : List Char}
    (hrest : ∀ c ∈ rest.head?, c.isDigit = false) :
    scanExponentDigits (exponentText e ++ rest) = some (e, rest) := by
  have hscan : scanDigits (Nat.toDigits 10 e.natAbs ++ rest) =
      some (Nat.toDigits 10 e.natAbs, rest) :=
    scanDigits_append Nat.toDigits_ne_nil (fun c hc => Number.isDigit_of_mem_toDigits hc) hrest
  by_cases he : e < 0
  · have hvalue : -(Number.ofDigits (Nat.toDigits 10 e.natAbs) : Int) = e := by
      rw [Number.ofDigits_toDigits]
      omega
    simp only [exponentText, he, if_true, List.cons_append, scanExponentDigits, hscan,
      Option.map_some, hvalue]
  · have hvalue : (Number.ofDigits (Nat.toDigits 10 e.natAbs) : Int) = e := by
      rw [Number.ofDigits_toDigits]
      omega
    simp only [exponentText, he, if_false]
    obtain ⟨d, ds, hds⟩ :=
      List.exists_cons_of_ne_nil (Nat.toDigits_ne_nil (n := e.natAbs) (b := 10))
    have hd : d.isDigit := Number.isDigit_of_mem_toDigits (n := e.natAbs) (by simp [hds])
    have hminus : d ≠ '-' := by rintro rfl; exact absurd hd (by decide)
    have hplus : d ≠ '+' := by rintro rfl; exact absurd hd (by decide)
    rw [hds] at hscan hvalue ⊢
    rw [List.cons_append] at hscan ⊢
    rw [scanExponentDigits, hscan]
    · simp only [Option.map_some, hvalue]
    · simpa using hminus
    · simpa using hplus

theorem scanExponent_append (e : Option Int) {rest : List Char} (hrest : Ends rest) :
    scanExponent (exponentPart e ++ rest) = some (e, rest) := by
  cases e with
  | some e =>
    simp [exponentPart, scanExponent, scanExponentDigits_append e fun c hc => (hrest c hc).1]
  | none =>
    cases rest with
    | nil => rfl
    | cons c cs =>
      obtain ⟨-, -, he, hE⟩ := hrest c rfl
      simp [exponentPart, scanExponent, he, hE]

theorem head_exponentPart (e : Option Int) {rest : List Char} (hrest : Ends rest) :
    ∀ c ∈ (exponentPart e ++ rest).head?, c.isDigit = false ∧ c ≠ '.' := by
  cases e with
  | some e => simp [exponentPart]
  | none => exact fun c hc => ⟨(hrest c hc).1, (hrest c hc).2.1⟩

theorem head_fractionText (ds : List Char) (e : Option Int) {rest : List Char}
    (hrest : Ends rest) :
    ∀ c ∈ (fractionText ds ++ (exponentPart e ++ rest)).head?, c.isDigit = false := by
  by_cases hds : ds = []
  · simpa [fractionText, hds] using fun c hc => (head_exponentPart e hrest c hc).1
  · simp [fractionText, hds]

theorem scanUnsigned_append {n : Number} (hn : n.WellFormed) {rest : List Char}
    (hrest : Ends rest) :
    scanUnsigned n.negative
        (n.whole ++ (fractionText n.fraction ++ (exponentPart n.exponent ++ rest))) =
      some (n, rest) := by
  have hwhole := scanWhole_append hn (head_fractionText n.fraction n.exponent hrest)
  have hfraction := scanFraction_append hn.fraction_digits (head_exponentPart n.exponent hrest)
  simp [scanUnsigned, hwhole, hfraction, scanExponent_append n.exponent hrest]

theorem Number.text_append (n : Number) (rest : List Char) :
    n.text ++ rest = (if n.negative then ['-'] else []) ++
      (n.whole ++ (fractionText n.fraction ++ (exponentPart n.exponent ++ rest))) := by
  cases hexp : n.exponent <;> simp [Number.text, fractionText, exponentPart, hexp]

theorem scanNumber_of_head {d : Char} (hd : d ≠ '-') (cs : List Char) :
    scanNumber (d :: cs) = scanUnsigned false (d :: cs) := by
  simp [scanNumber, hd]

/-- A number is read back when what follows does not continue it. -/
theorem scanNumber_text {n : Number} (hn : n.WellFormed) {rest : List Char} (hrest : Ends rest) :
    scanNumber (n.text ++ rest) = some (n, rest) := by
  have hscan := scanUnsigned_append hn hrest
  rw [Number.text_append]
  cases hneg : n.negative with
  | true =>
    rw [hneg] at hscan
    exact hscan
  | false =>
    obtain ⟨d, ds, hds⟩ := List.exists_cons_of_ne_nil hn.whole_ne
    have hminus : d ≠ '-' := by
      rintro rfl
      exact absurd (hn.whole_digits '-' (by simp [hds])) (by decide)
    rw [hneg, hds] at hscan
    rw [if_neg (by decide), List.nil_append, hds, List.cons_append, scanNumber_of_head hminus]
    exact hscan

end HotkeyTree.Json
