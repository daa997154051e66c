import HotkeyTree.Settings

/-!
# Proofs: where settings come from

The command line goes before the configuration, and the configuration before the defaults. A
setting that shows something is different: both can hide it, and neither can show what the other one
hides.
-/

namespace HotkeyTree

/-- Where a setting comes from: the command line, or else the configuration, or else the default. -/
inductive Resolves {α : Type} (default : α) : Option α → Option α → α → Prop
  /-- It is given on the command line. -/
  | given {v : α} {configured : Option α} : Resolves default (some v) configured v
  /-- It is not given, but configured. -/
  | configured {v : α} : Resolves default none (some v) v
  /-- It is neither given nor configured. -/
  | unset : Resolves default none none default

theorem resolves_getD {α : Type} (default : α) (given configured : Option α) :
    Resolves default given configured ((given.or configured).getD default) := by
  cases given with
  | some v => exact .given
  | none =>
    cases configured with
    | some v => exact .configured
    | none => exact .unset

/-- How the settings for building follow from the arguments and the configuration. What is noted
about the source cannot be given on the command line. -/
structure BuildSettings.Follows (a : BuildArguments) (c : BuildSection) (s : BuildSettings) :
    Prop where
  /-- Where the table is. -/
  input : Resolves defaultTable a.input c.input s.input
  /-- Where the document goes. -/
  output : Resolves defaultDocument a.output c.output s.output
  /-- The version to note. -/
  version : Resolves Document.defaultVersion a.version c.version s.version
  /-- The source file to note. -/
  generatedFrom : Resolves Document.defaultGeneratedFrom none c.generatedFrom s.generatedFrom
  /-- The remark to note. -/
  note : Resolves Document.defaultNote none c.note s.note

/-- How the settings for showing a document follow from the arguments and the configuration. Where
the text goes cannot be configured, and what the tree is called cannot be given on the command
line. -/
structure RenderSettings.Follows (a : RenderArguments) (c : RenderSection) (s : RenderSettings) :
    Prop where
  /-- Where the document is. -/
  input : Resolves defaultDocument a.input c.input s.input
  /-- Where the text goes. -/
  output : s.output = a.output
  /-- The format. -/
  format : Resolves .compact a.format c.format s.options.format
  /-- What the tree as a whole is called. -/
  rootLabel : Resolves Rendering.defaultRoot none c.root s.options.rootLabel
  /-- Ids are shown unless they are hidden by the switch or by the configuration. -/
  ids : s.options.showIds = true ↔ a.noIds = false ∧ c.ids ≠ some false
  /-- Dynamic shortcuts are marked unless that is hidden by the switch or by the configuration. -/
  dynamic : s.options.showDynamic = true ↔ a.noDynamic = false ∧ c.dynamic ≠ some false

theorem BuildSettings.follows_resolve (a : BuildArguments) (c : BuildSection) :
    (resolve a c).Follows a c where
  input := resolves_getD _ _ _
  output := resolves_getD _ _ _
  version := resolves_getD _ _ _
  generatedFrom := resolves_getD _ none _
  note := resolves_getD _ none _

/-- What is shown unless a switch or the configuration hides it. -/
theorem shown_iff (hidden : Bool) (configured : Option Bool) :
    (!hidden && configured.getD true) = true ↔ hidden = false ∧ configured ≠ some false := by
  rcases configured with _ | _ | _ <;> simp

theorem RenderSettings.follows_resolve (a : RenderArguments) (c : RenderSection) :
    (resolve a c).Follows a c where
  input := resolves_getD _ _ _
  output := rfl
  format := resolves_getD _ _ _
  rootLabel := resolves_getD _ none _
  ids := shown_iff _ _
  dynamic := shown_iff _ _

/-- The settings with which a command is carried out follow from its arguments and the
configuration. -/
def Command.Settled (c : Configuration) : Command → Prop
  | .build a => (BuildSettings.resolve a c.build).Follows a c.build
  | .render a => (RenderSettings.resolve a c.render).Follows a c.render
  | .completions _ => True

theorem Command.settled (c : Configuration) (command : Command) : command.Settled c := by
  cases command with
  | build a => exact BuildSettings.follows_resolve a c.build
  | render a => exact RenderSettings.follows_resolve a c.render
  | completions shell => trivial

end HotkeyTree
