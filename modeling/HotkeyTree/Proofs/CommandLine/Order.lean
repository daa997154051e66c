import HotkeyTree.Proofs.CommandLine.Lines
import HotkeyTree.Proofs.Lookup
import HotkeyTree.Proofs.Settings
import Mathlib.Data.List.Nodup

/-!
# Proofs: options in any order

What a command line asks for is a matter of what is chosen on it: neither the order nor the spelling
of the choices counts, nor whether the configuration file is named before or after the command. The
settings of a run are what is chosen, or else what is configured, or else the defaults.
-/

namespace HotkeyTree

/-- The name of a format. -/
def Format.name : Format → String
  | .compact => "compact"
  | .report => "report"

theorem Format.ofName?_name (f : Format) : Format.ofName? f.name = some f := by
  cases f <;> rfl

namespace CommandLine

/-! ## The choices that make up a command -/

namespace Choice

/-- An option that has a value, if it is given. -/
def ofValue (p : Parameter) : Option String → List Choice
  | some v => [{ parameter := p, value := some v }]
  | none => []

/-- A switch, if it is set. -/
def ofSwitch (p : Parameter) : Bool → List Choice
  | true => [{ parameter := p }]
  | false => []

theorem parameters_ofValue (p : Parameter) (value : Option String) :
    ((ofValue p value).map Choice.parameter).Sublist [p] := by
  cases value with
  | none => exact List.nil_sublist [p]
  | some v => exact List.Sublist.refl [p]

theorem parameters_ofSwitch (p : Parameter) (b : Bool) :
    ((ofSwitch p b).map Choice.parameter).Sublist [p] := by
  cases b with
  | false => exact List.nil_sublist [p]
  | true => exact List.Sublist.refl [p]

theorem lookup_ofValue (q p : Parameter) (value : Option String) :
    ((ofValue p value).map entry).lookup q = if q = p then value else none := by
  cases value with
  | none => simp [ofValue]
  | some v =>
    by_cases h : q = p
    · simp [ofValue, entry, h]
    · simp [ofValue, entry, h, List.lookup_cons, beq_false_of_ne h]

theorem lookup_ofSwitch (q p : Parameter) (b : Bool) :
    ((ofSwitch p b).map entry).lookup q = if q = p ∧ b = true then some "" else none := by
  cases b with
  | false => simp [ofSwitch]
  | true =>
    by_cases h : q = p
    · simp [ofSwitch, entry, h]
    · simp [ofSwitch, entry, h, List.lookup_cons, beq_false_of_ne h]

end Choice

/-- The name of a command. -/
def commandName : Command → CommandName
  | .build _ => .build
  | .render _ => .render
  | .completions _ => .completions

/-- The options of a command, each that is given once. -/
def choicesOf : Command → List Choice
  | .build a =>
    Choice.ofValue .input a.input ++ Choice.ofValue .output a.output ++
      Choice.ofValue .versionLabel a.version
  | .render a =>
    Choice.ofValue .input a.input ++ Choice.ofValue .format (a.format.map Format.name) ++
      Choice.ofSwitch .noIds a.noIds ++ Choice.ofSwitch .noDynamic a.noDynamic ++
      Choice.ofValue .output a.output
  | .completions _ => []

/-- The parameters of a command's choices are parameters of its own, each at most once. -/
theorem parameters_choicesOf (command : Command) :
    ((choicesOf command).map Choice.parameter).Sublist (commandName command).parameters := by
  cases command with
  | build a =>
    simp only [choicesOf, List.map_append]
    exact ((Choice.parameters_ofValue _ _).append (Choice.parameters_ofValue _ _)).append
      (Choice.parameters_ofValue _ _)
  | render a =>
    simp only [choicesOf, List.map_append]
    exact ((((Choice.parameters_ofValue _ _).append (Choice.parameters_ofValue _ _)).append
      (Choice.parameters_ofSwitch _ _)).append (Choice.parameters_ofSwitch _ _)).append
      (Choice.parameters_ofValue _ _)
  | completions shell => exact List.nil_sublist _

/-- The command is found again among its choices. -/
theorem toCommand_of_lookup {command : Command} {g : Given}
    (hname : commandName command ≠ .completions)
    (hg : ∀ p ∈ (commandName command).parameters,
      g.value? p = ((choicesOf command).map Choice.entry).lookup p) :
    (commandName command).toCommand g = .ok command := by
  cases command with
  | build a =>
    have hfound : ∀ p ∈ CommandName.build.parameters, g.value? p = _ := hg
    simp only [choicesOf, List.map_append, List.lookup_append, Choice.lookup_ofValue] at hfound
    have hinput := hfound .input (by decide)
    have houtput := hfound .output (by decide)
    have hversion := hfound .versionLabel (by decide)
    rw [commandName, CommandName.toCommand, hinput, houtput, hversion]
    simp
  | render a =>
    have hfound : ∀ p ∈ CommandName.render.parameters, g.value? p = _ := hg
    simp only [choicesOf, List.map_append, List.lookup_append, Choice.lookup_ofValue,
      Choice.lookup_ofSwitch] at hfound
    have hinput := hfound .input (by decide)
    have hformat := hfound .format (by decide)
    have hids := hfound .noIds (by decide)
    have hdynamic := hfound .noDynamic (by decide)
    have houtput := hfound .output (by decide)
    obtain ⟨input, format, noIds, noDynamic, output⟩ := a
    rw [commandName, CommandName.toCommand, Given.has, Given.has, hinput, hformat, hids, hdynamic,
      houtput]
    cases format <;> cases noIds <;> cases noDynamic <;> simp [Format.ofName?_name]
  | completions shell => exact absurd rfl hname

/-! ## Any order -/

/-- A command line that chooses each option of a command once, in any order after the name of the
command, and names the configuration file, if at all, before or after it. -/
structure Asks (command : Command) (config : Option String) (before after : List Choice)
    (words : List String) : Prop where
  /-- The command has options. -/
  named : commandName command ≠ .completions
  /-- Just these options are chosen, in any order. -/
  chosen : (before ++ after).Perm (choicesOf command ++ Choice.ofValue .config config)
  /-- Only the configuration file is named before the command. -/
  global : ∀ c ∈ before, c.parameter = .config
  /-- The values are allowed and look like no option. -/
  plain : ∀ c ∈ before ++ after, c.Plain
  /-- The words are those of the choices. -/
  line : LineOf (commandName command) before after words

section Asked

variable {command : Command} {config : Option String} {before after : List Choice}
  {words : List String}

theorem nodup_parameters (name : CommandName) : (name.parameters ++ [Parameter.config]).Nodup := by
  cases name <;> decide

theorem config_notMem_parameters (name : CommandName) : Parameter.config ∉ name.parameters := by
  cases name <;> decide

theorem value?_ofChoices (cs : List Choice) (p : Parameter) :
    (Given.ofChoices cs).value? p = (cs.map Choice.entry).reverse.lookup p := rfl

theorem map_fst_entry (cs : List Choice) :
    (cs.map Choice.entry).map Prod.fst = cs.map Choice.parameter := by
  rw [List.map_map]
  rfl

/-- No parameter is among the choices twice. -/
theorem nodup_chosen (command : Command) (config : Option String) :
    ((choicesOf command ++ Choice.ofValue .config config).map Choice.parameter).Nodup := by
  rw [List.map_append]
  have hsublist := (parameters_choicesOf command).append
    (Choice.parameters_ofValue .config config)
  exact hsublist.nodup (nodup_parameters (commandName command))

theorem Asks.nodup (h : Asks command config before after words) :
    (before.map Choice.parameter).Nodup ∧ (after.map Choice.parameter).Nodup := by
  have hnodup := ((h.chosen.map Choice.parameter).nodup_iff).2 (nodup_chosen command config)
  rw [List.map_append, List.nodup_append] at hnodup
  exact ⟨hnodup.1, hnodup.2.1⟩

/-- What is found after the name of the command, or else before it, is what is chosen. -/
theorem Asks.value?_or (h : Asks command config before after words) (p : Parameter) :
    ((Given.ofChoices after).value? p).or ((Given.ofChoices before).value? p) =
      (((choicesOf command).map Choice.entry).lookup p).or
        (if p = .config then config else none) := by
  have hwhole : (after.map Choice.entry).reverse ++ (before.map Choice.entry).reverse =
      ((before ++ after).map Choice.entry).reverse := by
    rw [List.map_append, List.reverse_append]
  have hperm := (List.reverse_perm _).trans (h.chosen.map Choice.entry)
  have hcount : (((choicesOf command ++ Choice.ofValue .config config).map Choice.entry).map
      Prod.fst).count p ≤ 1 := by
    rw [map_fst_entry]
    exact List.nodup_iff_count_le_one.1 (nodup_chosen command config) p
  rw [value?_ofChoices, value?_ofChoices, ← List.lookup_append, hwhole,
    lookup_eq_of_perm hperm hcount, List.map_append, List.lookup_append, Choice.lookup_ofValue]

/-- No option of the command is found before its name. -/
theorem Asks.value?_before (h : Asks command config before after words) {p : Parameter}
    (hp : p ≠ .config) : (Given.ofChoices before).value? p = none := by
  rw [value?_ofChoices, List.lookup_eq_none_iff]
  intro e he
  obtain ⟨c, hc, rfl⟩ := List.mem_map.1 (List.mem_reverse.1 he)
  rw [bne_iff_ne, Choice.entry, h.global c hc]
  exact hp

/-- **The order of options does not matter**: whatever their order and spelling, what is asked for
is the command with these options. -/
theorem Asks.read_eq (h : Asks command config before after words) :
    read words = .ok { config, command } := by
  have hbefore : ∀ c ∈ before, c.parameter ∈ Level.root.parameters ∧ c.Plain := by
    intro c hc
    rw [h.global c hc]
    exact ⟨by decide, h.plain c (List.mem_append_left after hc)⟩
  have hafter : ∀ c ∈ after,
      c.parameter ∈ (Level.command (commandName command)).parameters ∧ c.Plain := by
    intro c hc
    refine ⟨?_, h.plain c (List.mem_append_right before hc)⟩
    have hchosen := (h.chosen.map Choice.parameter).subset
      (List.mem_map_of_mem (List.mem_append_right before hc))
    rw [List.map_append] at hchosen
    have hmem := ((parameters_choicesOf command).append
      (Choice.parameters_ofValue .config config)).subset hchosen
    rcases List.mem_append.1 hmem with hown | hconfig
    · exact List.mem_append_left _ hown
    · rw [List.mem_singleton.1 hconfig]
      exact List.mem_append_right _ List.mem_cons_self
  have hcommand : (commandName command).toCommand (.ofChoices after) = .ok command := by
    refine toCommand_of_lookup h.named fun p hp => ?_
    have hne : p ≠ .config := by
      rintro rfl
      exact config_notMem_parameters (commandName command) hp
    have hfound := h.value?_or p
    rwa [h.value?_before hne, Option.or_none, if_neg hne, Option.or_none] at hfound
  have hconfig : ((Given.ofChoices after).value? .config).or
      ((Given.ofChoices before).value? .config) = config := by
    have hnone : ((choicesOf command).map Choice.entry).lookup .config = none := by
      rw [List.lookup_eq_none_iff]
      intro e he
      obtain ⟨c, hc, rfl⟩ := List.mem_map.1 he
      have hmem := (parameters_choicesOf command).subset (List.mem_map_of_mem hc)
      rw [bne_iff_ne]
      intro heq
      exact config_notMem_parameters (commandName command) (by rw [heq]; exact hmem)
    rw [h.value?_or .config, hnone, Option.none_or, if_pos rfl]
  obtain ⟨hnodup, hnodup'⟩ := h.nodup
  rw [h.line.read_of_nodup hbefore hafter hnodup hnodup', hcommand, hconfig]
  rfl

end Asked

/-! ## Repeated options -/

/-- A command line that chooses options of a command, in any order, and one of them twice at the
same level. -/
structure Repeats (name : CommandName) (before after : List Choice) (words : List String) :
    Prop where
  /-- The command has options. -/
  named : name ≠ .completions
  /-- Only the configuration file is named before the command. -/
  global : ∀ c ∈ before, c.parameter = .config
  /-- The options are those of the command. -/
  own : ∀ c ∈ after, c.parameter ∈ name.parameters ∨ c.parameter = .config
  /-- The values are allowed and look like no option. -/
  plain : ∀ c ∈ before ++ after, c.Plain
  /-- At one of the levels an option is chosen twice. -/
  repeated : ¬ (before.map Choice.parameter).Nodup ∨ ¬ (after.map Choice.parameter).Nodup
  /-- The words are those of the choices. -/
  line : LineOf name before after words

/-- An option that is chosen twice is refused, wherever the two choices stand. -/
theorem Repeats.read_eq {name : CommandName} {before after : List Choice} {words : List String}
    (h : Repeats name before after words) : read words = .error .givenTwice := by
  refine h.line.read_of_repeated h.named (fun c hc => ?_) (fun c hc => ?_) h.repeated
  · rw [h.global c hc]
    exact ⟨by decide, h.plain c (List.mem_append_left after hc)⟩
  · refine ⟨?_, h.plain c (List.mem_append_right before hc)⟩
    rcases h.own c hc with hown | hconfig
    · exact List.mem_append_left _ hown
    · rw [hconfig]
      exact List.mem_append_right _ List.mem_cons_self

/-! ## Orders and settings -/

/-- **Neither order nor spelling of options counts.** A command line that chooses each option of a
command once asks for that command, whatever the order and the spelling, and for every configuration
the settings are what is given, or else configured, or else the default. A command line that chooses
an option twice at the same level is refused. -/
theorem read_options_in_any_order :
    (∀ (command : Command) (config : Option String) (before after : List Choice)
      (words : List String), Asks command config before after words →
        read words = .ok { config, command } ∧ ∀ c : Configuration, command.Settled c) ∧
    ∀ (name : CommandName) (before after : List Choice) (words : List String),
      Repeats name before after words → read words = .error .givenTwice :=
  ⟨fun command _ _ _ _ h => ⟨h.read_eq, fun c => command.settled c⟩, fun _ _ _ _ h => h.read_eq⟩

/-- A rendering asked for with options out of order, and a building with its input named twice. -/
theorem read_options_in_any_order_reportAndTwice :
    read ["--config", "a.toml", "render", "-o=b=c", "--no-ids", "--format", "report"] =
      .ok
        { config := some "a.toml"
          command := .render { format := some .report, noIds := true, output := some "b=c" } } ∧
    read ["build", "--input", "a", "-ob", "--input=c"] = .error .givenTwice := by
  have hbefore : Spells [⟨.config, some "a.toml"⟩] (["--" ++ "config", "a.toml"] ++ []) :=
    .cons (.apart rfl rfl) .nil
  have hafter : Spells [⟨.output, some "b=c"⟩, ⟨.noIds, none⟩, ⟨.format, some "report"⟩]
      (["-" ++ String.singleton 'o' ++ "=" ++ "b=c"] ++
        (["--" ++ "no-ids"] ++ (["--" ++ "format", "report"] ++ []))) :=
    .cons (.letterJoined rfl rfl) (.cons (.switch rfl rfl) (.cons (.apart rfl rfl) .nil))
  have hasks : Asks
      (.render { format := some .report, noIds := true, output := some "b=c" }) (some "a.toml")
      [⟨.config, some "a.toml"⟩]
      [⟨.output, some "b=c"⟩, ⟨.noIds, none⟩, ⟨.format, some "report"⟩]
      ["--config", "a.toml", "render", "-o=b=c", "--no-ids", "--format", "report"] :=
    { named := by decide
      chosen := by decide
      global := by decide
      plain := by decide
      line := .spelled hbefore hafter }
  have htwice : Spells [⟨.input, some "a"⟩, ⟨.output, some "b"⟩, ⟨.input, some "c"⟩]
      (["--" ++ "input", "a"] ++ (["-" ++ String.singleton 'o' ++ "b"] ++
        (["--" ++ "input" ++ "=" ++ "c"] ++ []))) :=
    .cons (.apart rfl rfl) (.cons (.letterAttached rfl rfl) (.cons (.joined rfl rfl) .nil))
  have hrepeats : Repeats .build []
      [⟨.input, some "a"⟩, ⟨.output, some "b"⟩, ⟨.input, some "c"⟩]
      ["build", "--input", "a", "-ob", "--input=c"] :=
    { named := by decide
      global := by decide
      own := by decide
      plain := by decide
      repeated := by decide
      line := .spelled .nil htwice }
  exact ⟨(read_options_in_any_order.1 _ _ _ _ _ hasks).1,
    read_options_in_any_order.2 _ _ _ _ hrepeats⟩

end CommandLine

end HotkeyTree
