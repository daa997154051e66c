import HotkeyTree.Log.Severity
import HotkeyTree.Proofs.CommandLine.Counting
import HotkeyTree.Proofs.CommandLine.Order

/-!
# Proofs: how often more is asked for

More can be asked for before the name of the command and after it, and each of the two levels counts
its own. The counts are not added up: where there is one after the name, that before it is lost.
-/

namespace HotkeyTree.CommandLine

variable {g g' : Given} {w : String} {ws : List String} {ending : Ending}

/-! ## The name of the command -/

/-- The words before the name of a command and those after it: the name is the first word that
neither begins with a dash nor is awaited as the value of an option. -/
def divided (awaited : Bool) : List String → List String × List String
  | [] => ([], [])
  | w :: ws =>
    if awaited ∨ w.toList.head? = some '-' then
      let rest := divided (!awaited && w == "--config") ws
      (w :: rest.1, rest.2)
    else ([], ws)

/-- The words before the name of the command. -/
def beforeName (words : List String) : List String := (divided false words).1

/-- The words after the name of the command. -/
def afterName (words : List String) : List String := (divided false words).2

namespace Given

/-- An option without its value is at fault. -/
theorem awaits_of_settle (h : g.settle = .ok g') (hg : g.Regular) : g.awaits = false := by
  cases hawaits : g.awaits with
  | false => rfl
  | true =>
    unfold awaits at hawaits
    split at hawaits
    · rename_i p hpending
      rw [settle, hpending] at h
      simp only [take, hg.pending _ hpending] at h
      cases h
    · cases hawaits

theorem awaits_of_next {p : Parameter} {value : Option String} (h : g.next p value = .ok g')
    (hg : g.Regular) : g.awaits = false ∧ g'.awaits = false := by
  obtain ⟨g₁, hsettle, -⟩ := exists_of_bind_eq_ok h
  exact ⟨awaits_of_settle hsettle hg, awaits_of_pending (pending_next h)⟩

/-- The only option with a value at the root level is that for the configuration file. -/
theorem awaits_of_long {name : String} {value : Option String}
    (h : g.long .root name value = .ok g') (hg : g.Regular) :
    g.awaits = false ∧ g'.awaits = decide (name = "config" ∧ value = none) := by
  unfold long at h
  cases hlong : Level.root.long? name with
  | none =>
    rw [hlong] at h
    cases h
  | some p =>
    have hall : ∀ p ∈ Level.root.parameters, p.use = .value ↔ p.longName? = some "config" := by
      decide
    obtain ⟨hmem, hname⟩ := Level.of_long?_eq_some hlong
    have hvalue := hall p hmem
    rw [hname, Option.some.injEq] at hvalue
    rw [hlong] at h
    simp only at h
    split at h
    · rename_i huse
      have hconfig := hvalue.1 huse
      cases value with
      | none =>
        obtain ⟨g₁, hsettle, hoffer⟩ := exists_of_bind_eq_ok h
        cases hoffer
        exact ⟨awaits_of_settle hsettle hg, by simp [awaits, hconfig]⟩
      | some v =>
        obtain ⟨hbefore, hafter⟩ := awaits_of_next h hg
        exact ⟨hbefore, by simp [hafter]⟩
    · rename_i huse
      have hother : name ≠ "config" := fun hname => huse (hvalue.2 hname)
      split at h
      · cases h
      · obtain ⟨hbefore, hafter⟩ := awaits_of_next h hg
        exact ⟨hbefore, by simp [hafter, hother]⟩

theorem awaits_of_short {letters : List Char} (h : g.short .root letters = .ok g')
    (hne : letters ≠ []) (hg : g.Regular) : g.awaits = false ∧ g'.awaits = false := by
  induction letters generalizing g with
  | nil => exact absurd rfl hne
  | cons c cs ih =>
    unfold short at h
    cases hshort : Level.root.short? c with
    | none =>
      rw [hshort] at h
      cases h
    | some p =>
      have hall : ∀ p ∈ Level.root.parameters, p.use = .value → p.letter? = none := by decide
      obtain ⟨hmem, hletter⟩ := Level.of_short?_eq_some hshort
      have huse : p.use ≠ .value := by
        intro huse
        rw [hall p hmem huse] at hletter
        cases hletter
      rw [hshort] at h
      simp only [if_neg huse] at h
      obtain ⟨g₁, hnext, hrest⟩ := exists_of_bind_eq_ok h
      obtain ⟨hbefore, hafter⟩ := awaits_of_next hnext hg
      cases cs with
      | nil =>
        cases hrest
        exact ⟨hbefore, hafter⟩
      | cons d ds =>
        have hregular := (adds_next hnext hg).1
        exact ⟨hbefore, (ih hrest (List.cons_ne_nil d ds) hregular).2⟩

end Given

/-- After `--config` a value is awaited, unless the word is itself awaited as a value. -/
theorem Level.Step.awaits (h : Level.root.Step g w g') (hg : g.Regular) :
    (g.awaits = true ∨ w.toList.head? = some '-') ∧
      g'.awaits = (!g.awaits && w == "--config") := by
  have hconfig : Word.ofString "--config" = .long "config" none := by decide
  have hother : Word.ofString w ≠ .long "config" none → w ≠ "--config" := by
    rintro hne rfl
    exact hne hconfig
  have hform := Word.form w
  cases h with
  | @long name value hw h =>
    obtain ⟨hbefore, hafter⟩ := Given.awaits_of_long h hg
    rw [hw] at hform
    cases hform with
    | long hname =>
      have hiff : name = "config" ↔ w = "--config" := by
        constructor
        · rintro rfl
          exact hname
        · intro heq
          rw [heq, hconfig] at hw
          cases hw
          rfl
      refine ⟨Or.inr (by simp [hname]), ?_⟩
      rw [Bool.eq_iff_iff]
      simp [hbefore, hafter, hiff]
    | longJoined hchars _ =>
      refine ⟨Or.inr (by simp [hchars]), ?_⟩
      simp [hbefore, hafter, hother (by simp [hw])]
  | short hw h =>
    have hne := hother (by simp [hw])
    rw [hw] at hform
    cases hform with
    | short hchars _ =>
      obtain ⟨hbefore, hafter⟩ := Given.awaits_of_short h (List.cons_ne_nil _ _) hg
      refine ⟨Or.inr (by simp [hchars]), ?_⟩
      simp [hafter, hne]
  | held hw hawaits h =>
    refine ⟨Or.inl hawaits, ?_⟩
    rw [h, hawaits, Given.awaits, Given.hold]
    cases g.pending <;> rfl
  | plain hw hawaits h =>
    -- a plain word in front of the name is a fault
    simp only [Given.plain] at h
    split at h <;> cases h

/-- **A run of the reader before the name of a command.** -/
theorem Level.read_root_eq_ok {t : Turn} {rest : List String} (hg : g.Regular)
    (h : Level.root.read g ws = .ok ending) (hturn : ending.turn = some (t, rest)) :
    ∃ before w, ws = before ++ w :: rest ∧ Level.root.turn? w = some t ∧
      divided g.awaits ws = (before, rest) ∧ "--" ∉ before ∧
      g.Adds (asked before) ending.given := by
  -- whether a value is awaited is seen in the words and in what is given alike
  induction ws generalizing g with
  | nil =>
    cases h
    cases hturn
  | cons w ws ih =>
    rcases Level.read_cons_eq_ok h with ⟨hawaits, t', ht', rfl⟩ | ⟨rfl, g', -, rfl⟩ |
      ⟨g', hstep, hread⟩
    · cases hturn
      have hhead : w.toList.head? ≠ some '-' := by
        intro hdash
        rw [Level.turn?_of_dash _ hdash] at ht'
        cases ht'
      refine ⟨[], w, rfl, ht', ?_, List.not_mem_nil, Given.adds_refl g⟩
      rw [divided, hawaits, if_neg (by simpa using hhead)]
    · cases hturn
    · obtain ⟨hword, hawaits⟩ := hstep.awaits hg
      obtain ⟨before, w', rfl, hw', hdivided, hdashes, hadds⟩ := ih (hstep.adds hg).1 hread
      refine ⟨w :: before, w', rfl, hw', ?_, ?_, ?_⟩
      · rw [divided, if_pos hword, ← hawaits, hdivided]
      · exact fun hmem => (List.mem_cons.1 hmem).elim (fun heq => hstep.ne_dashes heq.symm) hdashes
      · rw [asked_cons hstep.ne_dashes]
        exact hstep.adds.trans hadds

/-! ## Whole command lines -/

theorem CommandName.eq_text_of_turn? {name : CommandName}
    (h : Level.root.turn? w = some (.command name)) : w = name.text := by
  rw [Level.turn?] at h
  split at h
  · cases h
  · obtain ⟨name', hname, heq⟩ := Option.map_eq_some_iff.1 h
    cases heq
    rw [CommandName.ofString?] at hname
    split at hname
    · cases hname
      assumption
    · split at hname
      · cases hname
        assumption
      · split at hname
        · cases hname
          assumption
        · cases hname

theorem askedBy_text (name : CommandName) : askedBy name.text = 0 := by
  cases name <;> decide

theorem text_ne_dashes (name : CommandName) : name.text ≠ "--" := by
  cases name <;> decide

theorem commandName_of_toCommand {name : CommandName} {command : Command}
    (h : name.toCommand g = .ok command) : commandName command = name := by
  cases name with
  | build =>
    cases h
    rfl
  | render =>
    cases h
    rfl
  | completions =>
    rw [CommandName.toCommand] at h
    split at h
    · cases h
      rfl
    · cases h

theorem regular_empty : Given.Regular {} := ⟨by simp, by decide⟩

/-- The count after the name of a command is taken, unless it is zero. -/
theorem CommandName.verbosity_of_invocation {name : CommandName} {root : Given} {i : Invocation}
    (hroot : root.Regular) (h : name.read root ws = .ok i) :
    commandName i.command = name ∧
      i.verbosity = if asked ws = 0 then root.verbosity else min 255 (asked ws) := by
  obtain ⟨ending, hread, h⟩ := exists_of_bind_eq_ok h
  obtain ⟨given, hsettle, h⟩ := exists_of_bind_eq_ok h
  obtain ⟨command, hcommand, h⟩ := exists_of_bind_eq_ok h
  obtain ⟨root', hroot', h⟩ := exists_of_bind_eq_ok h
  cases h
  have hgiven := ((Level.adds_read_command hread).trans (Given.adds_settle hsettle) regular_empty).2
  have hbefore := (Given.adds_settle hroot' hroot).2
  have hle := hroot.verbosity
  refine ⟨commandName_of_toCommand hcommand, ?_⟩
  simp only [Nat.zero_add, Nat.add_zero] at hgiven hbefore
  simp only [hgiven, hbefore]
  by_cases hzero : asked ws = 0
  · simp [hzero, hle]
  · have hpos : min 255 (asked ws) ≠ 0 := by omega
    rw [if_neg hzero, if_neg hpos]

/-- A command line is read in two parts, and each has its own count. -/
theorem exists_of_read_eq_ok {words : List String} {i : Invocation} (h : read words = .ok i) :
    words = beforeName words ++ (commandName i.command).text :: afterName words ∧
      "--" ∉ beforeName words ∧
      i.verbosity =
        if asked (afterName words) = 0 then min 255 (asked (beforeName words))
        else min 255 (asked (afterName words)) := by
  obtain ⟨ending, hread, h⟩ := exists_of_bind_eq_ok h
  split at h
  · rename_i name rest hturn
    obtain ⟨before, w, hwords, hw, hdivided, hdashes, hadds⟩ :=
      Level.read_root_eq_ok regular_empty hread hturn
    obtain ⟨hregular, hroot⟩ := hadds regular_empty
    obtain ⟨hname, hverbosity⟩ := CommandName.verbosity_of_invocation hregular h
    have hbefore : beforeName words = before := congrArg Prod.fst hdivided
    have hafter : afterName words = rest := congrArg Prod.snd hdivided
    rw [hbefore, hafter, hname, ← CommandName.eq_text_of_turn? hw]
    refine ⟨hwords, hdashes, ?_⟩
    rw [hverbosity, hroot, Nat.zero_add]
  · cases h
  · obtain ⟨given, -, h⟩ := exists_of_bind_eq_ok h
    cases h

theorem rank_ofVerbosity (n : Nat) : (Severity.ofVerbosity n).rank = min 3 n := by
  match n with
  | 0 => rfl
  | 1 => rfl
  | 2 => rfl
  | n + 3 =>
    rw [Nat.min_eq_left (Nat.le_add_left 3 n)]
    rfl

theorem ofVerbosity_eq_iff (m n : Nat) :
    Severity.ofVerbosity m = Severity.ofVerbosity n ↔ min 3 m = min 3 n := by
  have hinjective : ∀ s s' : Severity, s.rank = s'.rank → s = s' := by
    intro s s' hrank
    cases s <;> cases s' <;> first | rfl | cases hrank
  rw [← rank_ofVerbosity m, ← rank_ofVerbosity n]
  exact ⟨fun h => by rw [h], hinjective _ _⟩

/-- **The later level counts.** A command line that is carried out falls into the words before the
name of the command and those after it. If any word after the name asks for more, it is told as much
as these words ask for, else as much as those before it. So all that ask for more are counted
exactly if they stand on one side only or there are more on the later side than counts. -/
theorem verbosity_of_read {words : List String} {i : Invocation} (h : read words = .ok i) :
    words = beforeName words ++ (commandName i.command).text :: afterName words ∧
      i.verbosity =
        (if asked (afterName words) = 0 then min 255 (asked (beforeName words))
         else min 255 (asked (afterName words))) ∧
      (i.verbosity = min 255 (asked words) ↔
        asked (beforeName words) = 0 ∨ asked (afterName words) = 0 ∨
          255 ≤ asked (afterName words)) ∧
      (Severity.ofVerbosity i.verbosity = Severity.ofVerbosity (min 255 (asked words)) ↔
        asked (beforeName words) = 0 ∨ asked (afterName words) = 0 ∨
          3 ≤ asked (afterName words)) := by
  obtain ⟨hwords, hdashes, hverbosity⟩ := exists_of_read_eq_ok h
  have htotal : asked words = asked (beforeName words) + asked (afterName words) := by
    conv_lhs => rw [hwords]
    rw [asked_append hdashes, asked_cons (text_ne_dashes _), askedBy_text, Nat.zero_add]
  refine ⟨hwords, hverbosity, ?_, ?_⟩
  · rw [hverbosity, htotal]
    split <;> omega
  · rw [ofVerbosity_eq_iff, hverbosity, htotal]
    split <;> omega

/-- More is asked for on either side; one word is the value of an option, and one `v` is part of
one. -/
def mixedLine : List String :=
  ["--config", "build", "-vv", "render", "--verbose", "--format=report", "-vov", "--no-ids"]

/-- What it asks for. -/
def mixedInvocation : Invocation where
  config := some "build"
  verbosity := 2
  command := .render { format := some .report, noIds := true, output := some "v" }

theorem verbosity_of_read_mixedLine :
    read mixedLine = .ok mixedInvocation ∧ asked (beforeName mixedLine) = 2 ∧
      asked (afterName mixedLine) = 2 ∧ asked mixedLine = 4 ∧
      (mixedLine =
          beforeName mixedLine ++
            (commandName mixedInvocation.command).text :: afterName mixedLine ∧
        mixedInvocation.verbosity =
          (if asked (afterName mixedLine) = 0 then min 255 (asked (beforeName mixedLine))
           else min 255 (asked (afterName mixedLine))) ∧
        (mixedInvocation.verbosity = min 255 (asked mixedLine) ↔
          asked (beforeName mixedLine) = 0 ∨ asked (afterName mixedLine) = 0 ∨
            255 ≤ asked (afterName mixedLine)) ∧
        (Severity.ofVerbosity mixedInvocation.verbosity =
            Severity.ofVerbosity (min 255 (asked mixedLine)) ↔
          asked (beforeName mixedLine) = 0 ∨ asked (afterName mixedLine) = 0 ∨
            3 ≤ asked (afterName mixedLine))) :=
  ⟨by decide +kernel, by decide +kernel, by decide +kernel, by decide +kernel,
    verbosity_of_read (by decide +kernel)⟩

/-- Asking once on either side is less than asking twice on one. -/
theorem not_added_up_onBothSides :
    (∃ i, read ["-v", "build", "-v"] = .ok i ∧
        i.verbosity ≠ min 255 (asked ["-v", "build", "-v"])) ∧
      ∃ i j, read ["-v", "build", "-v"] = .ok i ∧ read ["build", "-vv"] = .ok j ∧
        asked ["-v", "build", "-v"] = asked ["build", "-vv"] ∧
        Severity.ofVerbosity i.verbosity = .info ∧ Severity.ofVerbosity j.verbosity = .debug := by
  refine ⟨⟨{ verbosity := 1, command := .build {} }, by decide +kernel, by decide +kernel⟩,
    { verbosity := 1, command := .build {} }, { verbosity := 2, command := .build {} }, ?_⟩
  decide +kernel

end HotkeyTree.CommandLine
