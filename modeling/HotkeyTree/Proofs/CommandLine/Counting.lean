import HotkeyTree.Proofs.CommandLine.Reading
import Mathlib.Data.List.TakeWhile

/-!
# Proofs: counting at a level

`-v` and `--verbose` can stand among other options any number of times. What the words of a level
come to is counted here word by word: whatever the reader does with a word, it adds to the count
what can be seen from the word alone. For that the option that is pending must not be one that
counts.
-/

namespace HotkeyTree.CommandLine

/-! ## Words that ask for more -/

/-- How often a word asks for more: `--verbose` once, and letters after one dash as often as there
is a `v` among them, before one that takes what follows it as its value. -/
def askedBy (w : String) : Nat :=
  match w.toList with
  | '-' :: '-' :: name => if name = "verbose".toList then 1 else 0
  | '-' :: letters => (letters.takeWhile (· ≠ 'o')).count 'v'
  | _ => 0

/-- How often words ask for more. After two dashes alone there are no options. -/
def asked : List String → Nat
  | [] => 0
  | w :: ws => if w = "--" then 0 else askedBy w + asked ws

theorem asked_cons {w : String} (h : w ≠ "--") (ws : List String) :
    asked (w :: ws) = askedBy w + asked ws := by
  rw [asked, if_neg h]

theorem asked_append {ws : List String} (h : "--" ∉ ws) (ws' : List String) :
    asked (ws ++ ws') = asked ws + asked ws' := by
  induction ws with
  | nil => simp [asked]
  | cons w ws ih =>
    obtain ⟨hw, hws⟩ : "--" ≠ w ∧ "--" ∉ ws := by simpa using h
    rw [List.cons_append, asked_cons hw.symm, asked_cons hw.symm, ih hws, Nat.add_assoc]

namespace Word

/-- What kind of word the characters make. -/
inductive Form (w : String) : Word → Prop
  | endOfOptions (hw : w = "--") : Form w .endOfOptions
  | long {name : String} (hw : w = "--" ++ name) : Form w (.long name none)
  | longJoined {cs : List Char} {name value : String} (hw : w.toList = '-' :: '-' :: cs)
      (hequals : '=' ∈ cs) : Form w (.long name (some value))
  | short {c : Char} {cs : List Char} (hw : w.toList = '-' :: c :: cs) (hc : c ≠ '-') :
      Form w (.short (c :: cs))
  | plain (hw : w.toList.head? ≠ some '-' ∨ w = "-") : Form w (.plain w)

theorem form_ofLong {w : String} {cs : List Char} (hw : w.toList = '-' :: '-' :: cs) :
    Form w (ofLong cs) := by
  by_cases hequals : '=' ∈ cs
  · cases hrest : cs.dropWhile (· != '=') with
    | nil =>
      have hall := List.dropWhile_eq_nil_iff.1 hrest _ hequals
      simp at hall
    | cons c value =>
      rw [ofLong, hrest]
      exact .longJoined hw hequals
  · rw [ofLong_name hequals]
    refine .long ?_
    rw [← String.toList_inj, hw]
    simp

theorem form (w : String) : Form w (ofString w) := by
  rcases hw : w.toList with _ | ⟨d, cs⟩
  · rw [ofString_plain (by simp [hw])]
    exact .plain (by simp [hw])
  · by_cases hd : d = '-'
    · subst hd
      rcases cs with _ | ⟨c, cs⟩
      · have hdash : w = "-" := by rw [← String.toList_inj, hw]; rfl
        rw [show ofString w = .plain w by simp [ofString, hw]]
        exact .plain (Or.inr hdash)
      · by_cases hc : c = '-'
        · subst hc
          rcases cs with _ | ⟨e, cs⟩
          · have hdashes : w = "--" := by rw [← String.toList_inj, hw]; rfl
            rw [show ofString w = .endOfOptions by simp [ofString, hw]]
            exact .endOfOptions hdashes
          · rw [show ofString w = ofLong (e :: cs) by simp [ofString, hw]]
            exact form_ofLong hw
        · rw [show ofString w = .short (c :: cs) by simp [ofString, hw, hc]]
          exact .short hw hc
    · rw [ofString_plain (by simp [hw, hd])]
      exact .plain (by simp [hw, hd])

/-- How often a word of some kind asks for more. -/
def asked : Word → Nat
  | .long name none => if name = "verbose" then 1 else 0
  | .short letters => (letters.takeWhile (· ≠ 'o')).count 'v'
  | _ => 0

theorem Form.askedBy_eq {w : String} {word : Word} (h : Form w word) : askedBy w = word.asked := by
  cases h with
  | endOfOptions hw =>
    subst hw
    decide
  | @long name hw =>
    have hname : name.toList = "verbose".toList ↔ name = "verbose" := String.toList_inj
    simp only [askedBy, asked, hw, String.toList_append]
    exact if_congr hname rfl rfl
  | @longJoined cs name value hw hequals =>
    have hne : cs ≠ "verbose".toList := by
      rintro rfl
      exact absurd hequals (by decide)
    simp only [askedBy, asked, hw, if_neg hne]
  | short hw hc => simp [askedBy, asked, hw, hc]
  | plain hw =>
    rcases hw with hw | rfl
    · rcases hcs : w.toList with _ | ⟨c, cs⟩
      · simp [askedBy, asked, hcs]
      · have hc : c ≠ '-' := by simpa [hcs] using hw
        simp [askedBy, asked, hcs, hc]
    · decide

end Word

/-! ## What is given at a level -/

namespace Parameter

variable {p : Parameter}

theorem eq_verbose_iff_of_longName? {name : String} (h : p.longName? = some name) :
    p = .verbose ↔ name = "verbose" := by
  cases p <;> cases h <;> decide

theorem eq_verbose_iff_of_letter? {c : Char} (h : p.letter? = some c) : p = .verbose ↔ c = 'v' := by
  cases p <;> cases h <;> decide

theorem use_eq_value_iff_of_letter? {c : Char} (h : p.letter? = some c) :
    p.use = .value ↔ c = 'o' := by
  cases p <;> cases h <;> decide

end Parameter

namespace Level

variable {l : Level} {p : Parameter}

theorem of_long?_eq_some {name : String} (h : l.long? name = some p) :
    p ∈ l.parameters ∧ p.longName? = some name :=
  ⟨List.mem_of_find?_eq_some h, by simpa using List.find?_some h⟩

theorem of_short?_eq_some {c : Char} (h : l.short? c = some p) :
    p ∈ l.parameters ∧ p.letter? = some c :=
  ⟨List.mem_of_find?_eq_some h, by simpa using List.find?_some h⟩

end Level

namespace Given

variable {l : Level} {g g' g'' : Given} {p : Parameter}

/-- What is pending is an option that has a value, and the count is within its range. -/
structure Regular (g : Given) : Prop where
  pending : ∀ e ∈ g.pending, e.1.use = .value
  verbosity : g.verbosity ≤ 255

/-- In between more has been asked for so many times. -/
def Adds (g : Given) (n : Nat) (g' : Given) : Prop :=
  g.Regular → g'.Regular ∧ g'.verbosity = min 255 (g.verbosity + n)

theorem Adds.trans {n n' : Nat} (h : g.Adds n g') (h' : g'.Adds n' g'') : g.Adds (n + n') g'' := by
  intro hg
  obtain ⟨hregular, hverbosity⟩ := h hg
  obtain ⟨hregular', hverbosity'⟩ := h' hregular
  exact ⟨hregular', by omega⟩

theorem adds_refl (g : Given) : g.Adds 0 g := by
  intro hg
  have hle := hg.verbosity
  exact ⟨hg, by omega⟩

theorem verbosity_add {v : String} (h : g.add p v = .ok g') : g'.verbosity = g.verbosity := by
  rw [add] at h
  split at h
  · cases h
  · split at h
    · cases h
      rfl
    · cases h

theorem verbosity_take {value : Option String} (h : g.take p value = .ok g') :
    g'.verbosity = if p = .verbose then min 255 (g.verbosity + 1) else g.verbosity := by
  have hverbose : p = .verbose ↔ p.use = .count := by cases p <;> decide
  simp only [hverbose]
  cases huse : p.use with
  | value =>
    simp only [take, huse] at h
    cases value with
    | none => cases h
    | some v => exact verbosity_add h
  | switch =>
    simp only [take, huse] at h
    exact verbosity_add h
  | count =>
    simp only [take, huse] at h
    cases h
    rfl
  | page =>
    simp only [take, huse] at h
    cases h

theorem adds_take {value : Option String} (h : g.take p value = .ok g') :
    g.Adds (if p = .verbose then 1 else 0) g' := by
  intro hg
  have hpending := pending_take h
  have hverbosity := verbosity_take h
  have hle := hg.verbosity
  refine ⟨⟨by rw [hpending]; exact hg.pending, ?_⟩, ?_⟩
  · split at hverbosity <;> omega
  · split at hverbosity <;> simp_all

/-- Taking in what is pending does not count, since it is an option that has a value. -/
theorem adds_settle (h : g.settle = .ok g') : g.Adds 0 g' := by
  intro hg
  rw [settle] at h
  cases hpending : g.pending with
  | none =>
    rw [hpending] at h
    cases h
    exact adds_refl g hg
  | some e =>
    rw [hpending] at h
    have hcleared : Regular { g with pending := none } := ⟨by simp, hg.verbosity⟩
    have hne : e.1 ≠ .verbose := by
      intro heq
      have huse := hg.pending e hpending
      rw [heq] at huse
      cases huse
    have htake := adds_take h hcleared
    rwa [if_neg hne] at htake

theorem adds_next {value : Option String} (h : g.next p value = .ok g') :
    g.Adds (if p = .verbose then 1 else 0) g' := by
  obtain ⟨g₁, hsettle, htake⟩ := exists_of_bind_eq_ok h
  have htrans := (adds_settle hsettle).trans (adds_take htake)
  rwa [Nat.zero_add] at htrans

/-- What is put off until later is an option that has a value. -/
theorem adds_pending (hsettle : g.settle = .ok g') (huse : p.use = .value) (value : Option String) :
    g.Adds 0 { g' with pending := some (p, value) } := by
  intro hg
  obtain ⟨hregular, hverbosity⟩ := adds_settle hsettle hg
  refine ⟨⟨?_, hregular.verbosity⟩, hverbosity⟩
  intro e he
  cases he
  exact huse

theorem adds_offer {value : Option String} (huse : p.use = .value)
    (h : g.offer p value = .ok g') : g.Adds 0 g' := by
  cases value with
  | some v =>
    have hne : p ≠ .verbose := by
      rintro rfl
      cases huse
    have hnext := adds_next h
    rwa [if_neg hne] at hnext
  | none =>
    obtain ⟨g₁, hsettle, hoffer⟩ := exists_of_bind_eq_ok h
    cases hoffer
    exact adds_pending hsettle huse none

theorem adds_hold (g : Given) (v : String) : g.Adds 0 (g.hold v) := by
  intro hg
  obtain ⟨hregular, hverbosity⟩ := adds_refl g hg
  refine ⟨⟨?_, hregular.verbosity⟩, hverbosity⟩
  intro e he
  obtain ⟨e', he', rfl⟩ := Option.map_eq_some_iff.1 he
  exact hg.pending e' he'

theorem adds_plain {ended : Bool} {w : String} (h : g.plain l ended w = .ok g') :
    g.Adds 0 g' := by
  unfold plain at h
  split at h
  · split at h <;> cases h
  · split at h
    · cases h
    · obtain ⟨g₁, hsettle, hpending⟩ := exists_of_bind_eq_ok h
      cases hpending
      exact adds_pending hsettle rfl (some w)
  · cases h

theorem adds_plains {ws : List String} (h : g.plains l ws = .ok g') : g.Adds 0 g' := by
  induction ws generalizing g with
  | nil =>
    cases h
    exact adds_refl _
  | cons w ws ih =>
    obtain ⟨g₁, hplain, hplains⟩ := exists_of_bind_eq_ok h
    exact (adds_plain hplain).trans (ih hplains)

theorem adds_long {name : String} {value : Option String} (h : g.long l name value = .ok g') :
    g.Adds (Word.asked (.long name value)) g' := by
  unfold long at h
  cases hlong : l.long? name with
  | none =>
    rw [hlong] at h
    cases h
  | some p =>
    have hverbose := Parameter.eq_verbose_iff_of_longName? (Level.of_long?_eq_some hlong).2
    rw [hlong] at h
    simp only at h
    split at h
    · rename_i huse
      have hne : ¬ name = "verbose" := by
        rw [← hverbose]
        rintro rfl
        cases huse
      have hasked : Word.asked (.long name value) = 0 := by
        cases value <;> simp [Word.asked, hne]
      rw [hasked]
      exact adds_offer huse h
    · split at h
      · cases h
      · rename_i hvalue
        have hnone : value = none := by simpa using hvalue
        have hnext := adds_next h
        simpa only [hnone, Word.asked, hverbose] using hnext

theorem adds_short {letters : List Char} (h : g.short l letters = .ok g') :
    g.Adds (Word.asked (.short letters)) g' := by
  induction letters generalizing g with
  | nil =>
    cases h
    exact adds_refl _
  | cons c cs ih =>
    unfold short at h
    cases hshort : l.short? c with
    | none =>
      rw [hshort] at h
      cases h
    | some p =>
      obtain ⟨-, hletter⟩ := Level.of_short?_eq_some hshort
      rw [hshort] at h
      simp only at h
      have hvalue := Parameter.use_eq_value_iff_of_letter? hletter
      split at h
      · rename_i huse
        have hasked : Word.asked (.short (c :: cs)) = 0 := by simp [Word.asked, hvalue.1 huse]
        rw [hasked]
        exact adds_offer huse h
      · rename_i huse
        obtain ⟨g₁, hnext, hrest⟩ := exists_of_bind_eq_ok h
        have hother : c ≠ 'o' := fun hc => huse (hvalue.2 hc)
        have hasked : Word.asked (.short (c :: cs)) =
            (if p = .verbose then 1 else 0) + Word.asked (.short cs) := by
          have hverbose := Parameter.eq_verbose_iff_of_letter? hletter
          simp only [hverbose, Word.asked, List.takeWhile_cons, decide_eq_true hother, if_true,
            List.count_cons, beq_iff_eq]
          omega
        rw [hasked]
        exact (adds_next hnext).trans (ih hrest)

end Given

/-! ## One word of a level -/

/-- A word that the reader goes on after. -/
inductive Level.Step (l : Level) (g : Given) (w : String) (g' : Given) : Prop
  /-- An option by its name. -/
  | long {name : String} {value : Option String} (hw : Word.ofString w = .long name value)
      (h : g.long l name value = .ok g')
  /-- Options by their letters. -/
  | short {letters : List Char} (hw : Word.ofString w = .short letters)
      (h : g.short l letters = .ok g')
  /-- The value of an option. -/
  | held {v : String} (hw : Word.ofString w = .plain v) (hg : g.awaits = true) (h : g' = g.hold v)
  /-- A plain word. -/
  | plain {v : String} (hw : Word.ofString w = .plain v) (hg : g.awaits = false)
      (h : g.plain l false v = .ok g')

variable {l : Level} {g g' : Given} {w : String} {ws : List String} {ending : Ending}

/-- All that the reader can do with a word. -/
theorem Level.read_cons_eq_ok (h : l.read g (w :: ws) = .ok ending) :
    (g.awaits = false ∧ ∃ t, l.turn? w = some t ∧ ending = { given := g, turn := some (t, ws) }) ∨
    (w = "--" ∧ ∃ g', g.plains l ws = .ok g' ∧ ending = { given := g' }) ∨
    (∃ g', l.Step g w g' ∧ l.read g' ws = .ok ending) := by
  rw [Level.read] at h
  split at h
  · rename_i t hturn
    cases h
    cases hg : g.awaits with
    | true =>
      rw [hg] at hturn
      cases hturn
    | false =>
      rw [hg] at hturn
      exact Or.inl ⟨rfl, t, hturn, rfl⟩
  · have hform := Word.form w
    cases hw : Word.ofString w with
    | endOfOptions =>
      rw [hw] at h hform
      obtain ⟨g', hplains, hending⟩ := exists_of_bind_eq_ok h
      cases hending
      cases hform with
      | endOfOptions hdashes => exact Or.inr (Or.inl ⟨hdashes, g', hplains, rfl⟩)
    | long name value =>
      rw [hw] at h
      obtain ⟨g', hlong, hread⟩ := exists_of_bind_eq_ok h
      exact Or.inr (Or.inr ⟨g', .long hw hlong, hread⟩)
    | short letters =>
      rw [hw] at h
      obtain ⟨g', hshort, hread⟩ := exists_of_bind_eq_ok h
      exact Or.inr (Or.inr ⟨g', .short hw hshort, hread⟩)
    | plain v =>
      rw [hw] at h
      simp only at h
      split at h
      · rename_i hg
        exact Or.inr (Or.inr ⟨_, .held hw hg rfl, h⟩)
      · rename_i hg
        obtain ⟨g', hplain, hread⟩ := exists_of_bind_eq_ok h
        exact Or.inr (Or.inr ⟨g', .plain hw (Bool.eq_false_iff.2 hg) hplain, hread⟩)

namespace Level.Step

theorem adds (h : l.Step g w g') : g.Adds (askedBy w) g' := by
  have hasked := (Word.form w).askedBy_eq
  rw [hasked]
  cases h with
  | long hw h =>
    rw [hw]
    exact Given.adds_long h
  | short hw h =>
    rw [hw]
    exact Given.adds_short h
  | held hw _ h =>
    rw [hw, h]
    exact Given.adds_hold g _
  | plain hw _ h =>
    rw [hw]
    exact Given.adds_plain h

theorem ne_dashes (h : l.Step g w g') : w ≠ "--" := by
  rintro rfl
  have hword : Word.ofString "--" = .endOfOptions := by decide
  cases h with
  | long hw _ | short hw _ | held hw _ _ | plain hw _ _ =>
    rw [hword] at hw
    cases hw

end Level.Step

/-- A run of the reader after the name of a command. -/
theorem Level.adds_read_command {name : CommandName}
    (h : (Level.command name).read g ws = .ok ending) : g.Adds (asked ws) ending.given := by
  induction ws generalizing g with
  | nil =>
    cases h
    exact Given.adds_refl g
  | cons w ws ih =>
    rcases Level.read_cons_eq_ok h with ⟨-, t, hturn, -⟩ | ⟨rfl, g', hplains, rfl⟩ |
      ⟨g', hstep, hread⟩
    · cases hturn
    · exact Given.adds_plains hplains
    · rw [asked_cons hstep.ne_dashes]
      exact hstep.adds.trans (ih hread)

end HotkeyTree.CommandLine
