import HotkeyTree.CommandLine.Word

/-!
# Reading a command line

The words of a level are read in order into what is given there. A value that follows its option as
a word of its own is only looked at when the next parameter of the level comes, or when the level
ends; until then it is pending. So where a command line has several faults, those of words that are
no parameters come before those of a pending value, and those after the name of the command come
before what is pending in front of it.

A parameter of both levels has the value that is given after the name of the command, or else the
one given before it.
-/

namespace HotkeyTree.CommandLine

/-- What is given at a level so far. -/
structure Given where
  /-- The values given, the last one first. That of a switch is empty. -/
  values : List (Parameter × String) := []
  /-- How often more is asked for, up to 255. -/
  verbosity : Nat := 0
  /-- The parameter that is not yet taken in, and its value as soon as that has come. -/
  pending : Option (Parameter × Option String) := none
deriving DecidableEq, Repr

namespace Given

/-- The value of a parameter. -/
def value? (g : Given) (p : Parameter) : Option String := g.values.lookup p

/-- Whether a parameter has been taken in. -/
def has (g : Given) (p : Parameter) : Bool := (g.value? p).isSome

/-- Whether nothing is given. -/
def isEmpty (g : Given) : Bool := g.values.isEmpty && g.verbosity == 0

/-- Whether the next word can be the value of an option. -/
def awaits (g : Given) : Bool :=
  match g.pending with
  | some (_, none) => true
  | _ => false

/-- Takes in a value for a parameter that can be given once. -/
def add (g : Given) (p : Parameter) (v : String) : Except Refusal Given :=
  if g.has p then .error .givenTwice
  else if p.allows v then .ok { g with values := (p, v) :: g.values }
  else .error .badValue

/-- Takes in a parameter, with its value if it has come with one. -/
def take (g : Given) (p : Parameter) (value : Option String) : Except Refusal Given :=
  match p.use with
  | .value =>
    match value with
    | some v => g.add p v
    | none => .error .badValue
  | .switch => g.add p ""
  | .count => .ok { g with verbosity := min 255 (g.verbosity + 1) }
  | .page => .error (if p = .version then .version else .help)

/-- Takes in what is pending. -/
def settle (g : Given) : Except Refusal Given :=
  match g.pending with
  | some (p, value) => take { g with pending := none } p value
  | none => .ok g

/-- Takes in what is pending, and then a parameter. -/
def next (g : Given) (p : Parameter) (value : Option String) : Except Refusal Given := do
  (← g.settle).take p value

/-- An option that has a value: a value that stands in the same word is taken in at once, any other
is awaited. -/
def offer (g : Given) (p : Parameter) (value : Option String) : Except Refusal Given :=
  match value with
  | some v => g.next p (some v)
  | none => do .ok { ← g.settle with pending := some (p, none) }

/-- The word that is awaited. -/
def hold (g : Given) (v : String) : Given :=
  { g with pending := g.pending.map fun e => (e.1, some v) }

/-- A name after two dashes. -/
def long (l : Level) (g : Given) (name : String) (value : Option String) : Except Refusal Given :=
  match l.long? name with
  | some p =>
    if p.use = .value then g.offer p value
    else if value.isSome then .error .valueNotTaken
    else g.next p none
  | none => .error .unknownArgument

/-- The letters after one dash. An option that has a value takes the letters after it as its value.
-/
def short (l : Level) (g : Given) : List Char → Except Refusal Given
  | [] => .ok g
  | c :: cs =>
    match l.short? c with
    | some p =>
      if p.use = .value then g.offer p (Word.attached? cs)
      else do short l (← g.next p none) cs
    | none => .error .unknownArgument

/-- Whether the shell has been named. -/
def hasShell (g : Given) : Bool := g.has .shell || g.pending.any fun e => e.1 = .shell

/-- A plain word that no option awaits. Only the completions have a place for one. Before the name
of a command it should have been such a name; after two dashes it cannot be one any more. -/
def plain (l : Level) (ended : Bool) (g : Given) (w : String) : Except Refusal Given :=
  match l with
  | .root =>
    if ended && (l.turn? w).isSome then .error .unknownArgument else .error .unknownCommand
  | .command .completions =>
    if g.hasShell then .error .unknownArgument
    else do .ok { ← g.settle with pending := some (.shell, some w) }
  | .command _ => .error .unknownArgument

/-- The words after two dashes. -/
def plains (l : Level) (g : Given) : List String → Except Refusal Given
  | [] => .ok g
  | w :: ws => do plains l (← g.plain l true w) ws

end Given

/-- Where the words of a level end. -/
structure Ending where
  /-- What is given at the level. -/
  given : Given
  /-- The word that ends the level, and the words after it. -/
  turn : Option (Turn × List String) := none

/-- Reads the words of a level. -/
def Level.read (l : Level) (g : Given) : List String → Except Refusal Ending
  | [] => .ok { given := g }
  | w :: ws =>
    match if g.awaits then none else l.turn? w with
    | some t => .ok { given := g, turn := some (t, ws) }
    | none =>
      match Word.ofString w with
      | .endOfOptions => do .ok { given := ← g.plains l ws }
      | .long name value => do read l (← g.long l name value) ws
      | .short letters => do read l (← g.short l letters) ws
      | .plain v =>
        if g.awaits then read l (g.hold v) ws else do read l (← g.plain l false v) ws

/-- The command that is asked for. -/
def CommandName.toCommand (c : CommandName) (g : Given) : Except Refusal Command :=
  match c with
  | .build => .ok (.build
      { input := g.value? .input, output := g.value? .output, version := g.value? .versionLabel })
  | .render => .ok (.render
      { input := g.value? .input, format := (g.value? .format).bind Format.ofName?
        noIds := g.has .noIds, noDynamic := g.has .noDynamic, output := g.value? .output })
  | .completions =>
    match (g.value? .shell).bind Shell.ofName? with
    | some shell => .ok (.completions shell)
    | none => .error .missingArgument

/-- What a question for help comes to. It may name one command, or itself. -/
def help : List String → Refusal
  | [] => .help
  | [w] => if (Level.root.turn? w).isSome then .help else .unknownCommand
  | _ => .unknownCommand

/-- Reads the words after the name of a command, where `root` is given before it. -/
def CommandName.read (c : CommandName) (root : Given) (ws : List String) :
    Except Refusal Invocation := do
  let given ← (← (Level.command c).read {} ws).given.settle
  let command ← c.toCommand given
  let root ← root.settle
  .ok
    { config := (given.value? .config).or (root.value? .config)
      verbosity := if given.verbosity = 0 then root.verbosity else given.verbosity
      command }

/-- Reads a command line, given as the words after the name of the program. -/
def read (ws : List String) : Except Refusal Invocation := do
  let ending ← Level.root.read {} ws
  match ending.turn with
  | some (.command c, rest) => c.read ending.given rest
  | some (.help, rest) => .error (help rest)
  | none =>
    let given ← ending.given.settle
    .error (if given.isEmpty then .nothingGiven else .noCommand)

end HotkeyTree.CommandLine
