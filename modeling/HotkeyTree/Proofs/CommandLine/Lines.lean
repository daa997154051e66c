import HotkeyTree.Proofs.CommandLine.Reading

/-!
# Proofs: command lines as choices

A command line is choices at the root level, the name of a command, and choices at the level of the
command. Each level keeps what is chosen there, unless a parameter is chosen twice: then the line is
refused, wherever the two choices stand among the others.
-/

namespace HotkeyTree.CommandLine

/-! ## Choosing each parameter once -/

namespace Choice

/-- What is kept of a choice: a switch has an empty value. -/
def entry (c : Choice) : Parameter × String := (c.parameter, c.value.getD "")

/-- The choice can be taken in, but only once. -/
def Single (c : Choice) : Prop :=
  ∀ g : Given, g.choose c =
    if g.has c.parameter then .error .givenTwice else .ok { g with values := c.entry :: g.values }

theorem Spelling.single {c : Choice} {ws : List String} (h : c.Spelling ws) (hplain : c.Plain) :
    c.Single := by
  have hvalue : ∀ {p : Parameter} {v : String}, p.use = .value → Plain ⟨p, some v⟩ →
      Single ⟨p, some v⟩ := by
    intro p v huse hplain g
    obtain ⟨hallowed, -⟩ := hplain v rfl
    simp only [Given.choose, Given.take, huse, Given.add, hallowed, if_true]
    rfl
  cases h with
  | @switch p name huse hname =>
    intro g
    have hallowed : p.allows "" = true := by
      cases p <;> first | rfl | cases huse
    simp only [Given.choose, Given.take, huse, Given.add, hallowed, if_true]
    rfl
  | apart huse _ => exact hvalue huse hplain
  | joined huse _ => exact hvalue huse hplain
  | letterApart huse _ => exact hvalue huse hplain
  | letterAttached huse _ => exact hvalue huse hplain
  | letterJoined huse _ => exact hvalue huse hplain

end Choice

theorem Spells.exists_spelling {cs : List Choice} {ws : List String} (h : Spells cs ws) :
    ∀ c ∈ cs, ∃ w, c.Spelling w := by
  induction h with
  | nil =>
    intro c hc
    exact absurd hc List.not_mem_nil
  | cons hspelling _ ih =>
    intro c hc
    rcases List.mem_cons.1 hc with rfl | hc
    · exact ⟨_, hspelling⟩
    · exact ih c hc

/-- What is given when these choices are taken in. -/
def Given.ofChoices (cs : List Choice) : Given := { values := (cs.map Choice.entry).reverse }

/-- Choices can be taken in, one after the other, if none of their parameters is given already and
none is chosen twice. -/
theorem foldlM_choose {cs : List Choice} (hcs : ∀ c ∈ cs, c.Single) (g : Given) :
    cs.foldlM Given.choose g =
      if (∀ c ∈ cs, g.has c.parameter = false) ∧ (cs.map Choice.parameter).Nodup then
        .ok { g with values := (cs.map Choice.entry).reverse ++ g.values }
      else .error .givenTwice := by
  induction cs generalizing g with
  | nil => simp; rfl
  | cons c cs ih =>
    have htail : ∀ d ∈ cs, d.Single := fun d hd => hcs d (List.mem_cons_of_mem c hd)
    rw [List.foldlM_cons, hcs c List.mem_cons_self]
    by_cases hc : g.has c.parameter = true
    · have hnot : ¬ ((∀ d ∈ c :: cs, g.has d.parameter = false) ∧
          ((c :: cs).map Choice.parameter).Nodup) := by
        rintro ⟨hfree, -⟩
        rw [hfree c List.mem_cons_self] at hc
        cases hc
      rw [if_pos hc, if_neg hnot]
      rfl
    · have hhas : ∀ p, Given.has { g with values := c.entry :: g.values } p =
          (p == c.parameter || g.has p) := by
        intro p
        simp only [Given.has, Given.value?, Choice.entry, List.lookup_cons]
        cases p == c.parameter <;> rfl
      have hfree : ((∀ d ∈ cs,
          Given.has { g with values := c.entry :: g.values } d.parameter = false) ∧
          (cs.map Choice.parameter).Nodup) ↔ ((∀ d ∈ c :: cs, g.has d.parameter = false) ∧
          ((c :: cs).map Choice.parameter).Nodup) := by
        simp only [hhas, Bool.or_eq_false_iff, beq_eq_false_iff_ne, List.forall_mem_cons,
          List.map_cons, List.nodup_cons, List.mem_map, not_exists, not_and]
        grind
      rw [if_neg hc]
      refine (ih htail _).trans ?_
      simp only [hfree, List.map_cons, List.reverse_cons, List.append_assoc, List.cons_append,
        List.nil_append]

/-- What a level comes to: what is chosen there, unless a parameter is chosen twice. -/
def Given.ofLevel (cs : List Choice) : Except Refusal Given :=
  if (cs.map Choice.parameter).Nodup then .ok (.ofChoices cs) else .error .givenTwice

theorem Comes.settled_eq {l : Level} {cs : List Choice} {ws : List String}
    {r : Except Refusal Given} (h : Comes l {} ws cs r) (hcs : ∀ c ∈ cs, c.Single) :
    r >>= Given.settle = Given.ofLevel cs := by
  have hfold := foldlM_choose hcs {}
  have hfree : ∀ c ∈ cs, ({} : Given).has c.parameter = false := fun c _ => rfl
  rw [h.settled]
  refine hfold.trans ?_
  by_cases hnodup : (cs.map Choice.parameter).Nodup
  · rw [if_pos ⟨hfree, hnodup⟩, Given.ofLevel, if_pos hnodup, List.append_nil]
    rfl
  · rw [if_neg (fun h => hnodup h.2), Given.ofLevel, if_neg hnodup]

/-! ## Command lines -/

/-- A command line: choices before the name of the command, the name, and choices after it. -/
inductive LineOf (name : CommandName) (before after : List Choice) : List String → Prop
  /-- The choices are spelled in any way. -/
  | spelled {ws ws' : List String} (hbefore : Spells before ws) (hafter : Spells after ws') :
      LineOf name before after (ws ++ name.text :: ws')

/-- What is asked for with what is given after the name of the command, and with what is given and
perhaps pending before it. -/
def CommandName.invoke (name : CommandName) (given root : Given) : Except Refusal Invocation :=
  name.toCommand given >>= fun command => root.settle >>= fun root =>
    .ok
      { config := (given.value? .config).or (root.value? .config)
        verbosity := if given.verbosity = 0 then root.verbosity else given.verbosity
        command }

theorem CommandName.read_of_comes {name : CommandName} {cs : List Choice} {ws : List String}
    {r : Except Refusal Given} (h : Comes (.command name) {} ws cs r) (hcs : ∀ c ∈ cs, c.Single)
    (root : Given) :
    name.read root ws = Given.ofLevel cs >>= fun given => name.invoke given root := by
  have hlevel := h.read_append []
  rw [List.append_nil] at hlevel
  rw [CommandName.read, hlevel, ← h.settled_eq hcs]
  cases r with
  | error e => rfl
  | ok g => rfl

section Line

variable {name : CommandName} {before after : List Choice} {words : List String}

/-- A command line is read level by level, and the level after the name of the command is settled
first. -/
theorem LineOf.exists_read_eq (h : LineOf name before after words)
    (hbefore : ∀ c ∈ before, c.parameter ∈ Level.root.parameters ∧ c.Plain)
    (hafter : ∀ c ∈ after, c.parameter ∈ (Level.command name).parameters ∧ c.Plain) :
    ∃ r : Except Refusal Given, r >>= Given.settle = Given.ofLevel before ∧
      read words = r >>= fun g => Given.ofLevel after >>= fun given => name.invoke given g := by
  have hsingle : ∀ {cs : List Choice} {l : Level} {ws : List String}, Spells cs ws →
      (∀ c ∈ cs, c.parameter ∈ l.parameters ∧ c.Plain) → ∀ c ∈ cs, c.Single := by
    intro cs l ws hspells hcs c hc
    obtain ⟨w, hw⟩ := hspells.exists_spelling c hc
    exact hw.single (hcs c hc).2
  cases h with
  | @spelled ws ws' hws hws' =>
    obtain ⟨r, hr⟩ := hws.comes hbefore (g := {}) rfl
    obtain ⟨r', hr'⟩ := hws'.comes hafter (g := {}) rfl
    refine ⟨r, hr.settled_eq (hsingle hws hbefore), ?_⟩
    rw [read, hr.read_append]
    cases r with
    | error e => rfl
    | ok g =>
      have hturn := Level.read_turn (hr.ready g rfl) name.turn?_text ws'
      have hcommand := CommandName.read_of_comes hr' (hsingle hws' hafter) g
      exact (congrArg (· >>= _) hturn).trans hcommand

/-- If no parameter is chosen twice at a level, all choices are found. -/
theorem LineOf.read_of_nodup (h : LineOf name before after words)
    (hbefore : ∀ c ∈ before, c.parameter ∈ Level.root.parameters ∧ c.Plain)
    (hafter : ∀ c ∈ after, c.parameter ∈ (Level.command name).parameters ∧ c.Plain)
    (hnodup : (before.map Choice.parameter).Nodup) (hnodup' : (after.map Choice.parameter).Nodup) :
    read words = name.toCommand (.ofChoices after) >>= fun command => .ok
      { config :=
          ((Given.ofChoices after).value? .config).or ((Given.ofChoices before).value? .config)
        command } := by
  obtain ⟨r, hr, hread⟩ := h.exists_read_eq hbefore hafter
  rw [Given.ofLevel, if_pos hnodup] at hr
  rw [hread, Given.ofLevel, if_pos hnodup']
  cases r with
  | error e => cases hr
  | ok g =>
    have hsettle : g.settle = .ok (.ofChoices before) := hr
    change name.invoke (.ofChoices after) g = _
    rw [CommandName.invoke, hsettle]
    rfl

/-- If a parameter is chosen twice at a level, wherever it is chosen, the line is refused. -/
theorem LineOf.read_of_repeated (h : LineOf name before after words) (hname : name ≠ .completions)
    (hbefore : ∀ c ∈ before, c.parameter ∈ Level.root.parameters ∧ c.Plain)
    (hafter : ∀ c ∈ after, c.parameter ∈ (Level.command name).parameters ∧ c.Plain)
    (hrepeated : ¬ (before.map Choice.parameter).Nodup ∨ ¬ (after.map Choice.parameter).Nodup) :
    read words = .error .givenTwice := by
  obtain ⟨r, hr, hread⟩ := h.exists_read_eq hbefore hafter
  have htotal : ∃ command, name.toCommand (.ofChoices after) = .ok command := by
    cases name with
    | build => exact ⟨_, rfl⟩
    | render => exact ⟨_, rfl⟩
    | completions => exact absurd rfl hname
  obtain ⟨command, hcommand⟩ := htotal
  rw [hread]
  by_cases hafter' : (after.map Choice.parameter).Nodup
  · -- the level before the name has the fault, which shows at once or when it is settled
    have hbefore' := hrepeated.resolve_right (not_not_intro hafter')
    rw [Given.ofLevel, if_neg hbefore'] at hr
    rw [Given.ofLevel, if_pos hafter']
    cases r with
    | error e =>
      have he : e = .givenTwice := Except.error.inj hr
      rw [he]
      rfl
    | ok g =>
      have hsettle : g.settle = .error .givenTwice := hr
      change name.invoke (.ofChoices after) g = _
      rw [CommandName.invoke, hcommand, hsettle]
      rfl
  · rw [Given.ofLevel, if_neg hafter']
    cases r with
    | error e =>
      rw [Given.ofLevel] at hr
      split at hr
      · cases hr
      · have he : e = .givenTwice := Except.error.inj hr
        rw [he]
        rfl
    | ok g => rfl

end Line

end HotkeyTree.CommandLine
