import HotkeyTree.CommandLine.Manual
import HotkeyTree.CommandLine.Reader
import Mathlib.Data.List.Basic

/-!
# Proofs: how options are spelled, and what their words are read as

An option can be spelled in several ways. However it is spelled, reading its words comes to taking
it in: at once, or, where its value is a word of its own, as soon as anything else of the level is
looked at. So the words of a level come to taking in what they spell, in order.
-/

namespace HotkeyTree.CommandLine

/-! ## Spellings -/

/-- What is chosen: a parameter, with its value unless it is a switch. -/
structure Choice where
  /-- The parameter. -/
  parameter : Parameter
  /-- Its value. -/
  value : Option String := none
deriving DecidableEq, Repr

namespace Choice

/-- The words that spell a choice. -/
inductive Spelling : Choice → List String → Prop
  /-- `--name` for a switch. -/
  | switch {p : Parameter} {name : String} (huse : p.use = .switch)
      (hname : p.longName? = some name) : Spelling ⟨p, none⟩ ["--" ++ name]
  /-- `--name value`. -/
  | apart {p : Parameter} {name v : String} (huse : p.use = .value)
      (hname : p.longName? = some name) : Spelling ⟨p, some v⟩ ["--" ++ name, v]
  /-- `--name=value`. -/
  | joined {p : Parameter} {name v : String} (huse : p.use = .value)
      (hname : p.longName? = some name) : Spelling ⟨p, some v⟩ ["--" ++ name ++ "=" ++ v]
  /-- `-c value`. -/
  | letterApart {p : Parameter} {c : Char} {v : String} (huse : p.use = .value)
      (hletter : p.letter? = some c) : Spelling ⟨p, some v⟩ ["-" ++ String.singleton c, v]
  /-- `-cvalue`. -/
  | letterAttached {p : Parameter} {c : Char} {v : String} (huse : p.use = .value)
      (hletter : p.letter? = some c) : Spelling ⟨p, some v⟩ ["-" ++ String.singleton c ++ v]
  /-- `-c=value`. -/
  | letterJoined {p : Parameter} {c : Char} {v : String} (huse : p.use = .value)
      (hletter : p.letter? = some c) : Spelling ⟨p, some v⟩ ["-" ++ String.singleton c ++ "=" ++ v]

/-- The value, if there is one, is allowed, and no part of it looks like an option: it is not empty
and begins with neither `-` nor `=`. -/
def Plain (c : Choice) : Prop :=
  ∀ v ∈ c.value, c.parameter.allows v = true ∧ v ≠ "" ∧ v.toList.head? ≠ some '-' ∧
    v.toList.head? ≠ some '='

instance (c : Choice) : Decidable c.Plain :=
  inferInstanceAs (Decidable (∀ v ∈ c.value, c.parameter.allows v = true ∧ v ≠ "" ∧
    v.toList.head? ≠ some '-' ∧ v.toList.head? ≠ some '='))

end Choice

/-- The words that spell choices, one after the other. -/
inductive Spells : List Choice → List String → Prop
  /-- Nothing is chosen. -/
  | nil : Spells [] []
  /-- One more choice. -/
  | cons {c : Choice} {cs : List Choice} {ws rest : List String} (h : c.Spelling ws)
      (hrest : Spells cs rest) : Spells (c :: cs) (ws ++ rest)

/-! ## Words -/

namespace Word

theorem bne_equals {cs : List Char} (h : '=' ∉ cs) : ∀ c ∈ cs, (c != '=') = true := by
  intro c hc
  rw [bne_iff_ne]
  rintro rfl
  exact h hc

theorem ofLong_name {cs : List Char} (h : '=' ∉ cs) :
    ofLong cs = .long (String.ofList cs) none := by
  have hdrop : cs.dropWhile (· != '=') = [] := by
    have happend : (cs ++ []).dropWhile (· != '=') = [].dropWhile (· != '=') :=
      List.dropWhile_append_of_pos (bne_equals h)
    rwa [List.append_nil] at happend
  rw [ofLong, hdrop]

theorem ofLong_joined {cs : List Char} (h : '=' ∉ cs) (value : List Char) :
    ofLong (cs ++ '=' :: value) = .long (String.ofList cs) (some (String.ofList value)) := by
  have hcs := bne_equals h
  rw [ofLong, List.dropWhile_append_of_pos hcs, List.takeWhile_append_of_pos hcs]
  simp

theorem ofString_plain {v : String} (h : v.toList.head? ≠ some '-') : ofString v = .plain v := by
  cases hv : v.toList with
  | nil => rw [ofString, hv]
  | cons c cs =>
    have hc : c ≠ '-' := by
      rintro rfl
      exact h (by rw [hv]; rfl)
    simp [ofString, hv, hc]

theorem attached?_eq {v : String} (hne : v ≠ "") (h : v.toList.head? ≠ some '=') :
    attached? v.toList = some v := by
  have hv : v = String.ofList v.toList := String.ofList_toList.symm
  cases hcs : v.toList with
  | nil => exact absurd (String.toList_eq_nil_iff.1 hcs) hne
  | cons c cs =>
    have hc : c ≠ '=' := by
      rintro rfl
      exact h (by rw [hcs]; rfl)
    rw [hv, hcs]
    simp [attached?, hc]

end Word

/-! ## Parameters -/

theorem Parameter.longName?_plain {p : Parameter} {name : String} (h : p.longName? = some name) :
    name.toList ≠ [] ∧ '=' ∉ name.toList := by
  have hplain : p.longName?.all (fun name => name.toList ≠ [] ∧ '=' ∉ name.toList) = true := by
    cases p <;> decide
  rw [h, Option.all_some, decide_eq_true_eq] at hplain
  exact hplain

theorem Parameter.letter?_ne {p : Parameter} {c : Char} (h : p.letter? = some c) : c ≠ '-' := by
  have hplain : p.letter?.all (fun c => c ≠ '-') = true := by
    cases p <;> decide
  rw [h, Option.all_some, decide_eq_true_eq] at hplain
  exact hplain

namespace Word

variable {p : Parameter}

theorem ofString_long {name : String} (h : p.longName? = some name) :
    ofString ("--" ++ name) = .long name none := by
  obtain ⟨hne, hequals⟩ := Parameter.longName?_plain h
  have hlong := ofLong_name hequals
  obtain ⟨c, cs, hname⟩ := List.exists_cons_of_ne_nil hne
  rw [String.ofList_toList, hname] at hlong
  simp [ofString, hname, hlong]

theorem ofString_longJoined {name : String} (h : p.longName? = some name) (v : String) :
    ofString ("--" ++ name ++ "=" ++ v) = .long name (some v) := by
  obtain ⟨hne, hequals⟩ := Parameter.longName?_plain h
  have hlong := ofLong_joined hequals v.toList
  obtain ⟨c, cs, hname⟩ := List.exists_cons_of_ne_nil hne
  rw [String.ofList_toList, String.ofList_toList, hname] at hlong
  simpa [ofString, hname] using hlong

theorem ofString_letter {c : Char} (h : p.letter? = some c) (v : String) :
    ofString ("-" ++ String.singleton c ++ v) = .short (c :: v.toList) := by
  have hc := Parameter.letter?_ne h
  simp [ofString, hc]

end Word

/-! ## Levels -/

/-- A word that begins with a dash ends no level. -/
theorem Level.turn?_of_dash (l : Level) {w : String} (h : w.toList.head? = some '-') :
    l.turn? w = none := by
  have hne : ∀ name ∈ ["help", "build", "render", "completions"], w ≠ name := by
    intro name hname
    rintro rfl
    have hnot : ∀ name ∈ ["help", "build", "render", "completions"],
        name.toList.head? ≠ some '-' := by decide
    exact hnot w hname h
  cases l with
  | command name => rfl
  | root =>
    have hhelp : w ≠ "help" := hne _ (by decide)
    have hbuild : w ≠ "build" := hne _ (by decide)
    have hrender : w ≠ "render" := hne _ (by decide)
    have hcompletions : w ≠ "completions" := hne _ (by decide)
    rw [Level.turn?, if_neg hhelp, CommandName.ofString?, if_neg hbuild, if_neg hrender,
      if_neg hcompletions]
    rfl

theorem CommandName.turn?_text (name : CommandName) :
    Level.root.turn? name.text = some (.command name) := by
  cases name <;> decide

/-- The names of the parameters of a level are different. -/
theorem Level.long?_eq {l : Level} {p : Parameter} {name : String} (hp : p ∈ l.parameters)
    (hname : p.longName? = some name) : l.long? name = some p := by
  have hall : ∀ q ∈ l.parameters, q.longName?.all (fun name => l.long? name = some q) = true := by
    cases l with
    | root => decide
    | command c => cases c <;> decide
  have h := hall p hp
  rwa [hname, Option.all_some, decide_eq_true_eq] at h

/-- The letters of the parameters of a level are different. -/
theorem Level.short?_eq {l : Level} {p : Parameter} {c : Char} (hp : p ∈ l.parameters)
    (hletter : p.letter? = some c) : l.short? c = some p := by
  have hall : ∀ q ∈ l.parameters, q.letter?.all (fun c => l.short? c = some q) = true := by
    cases l with
    | root => decide
    | command c => cases c <;> decide
  have h := hall p hp
  rwa [hletter, Option.all_some, decide_eq_true_eq] at h

end HotkeyTree.CommandLine
