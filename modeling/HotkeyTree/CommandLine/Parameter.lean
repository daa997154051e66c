import HotkeyTree.CommandLine.Basic

/-!
# The parameters of the command line

Options stand at two levels: before the name of the command, and after it. Each level has its own
parameters; a parameter of both levels can be given at each.
-/

namespace HotkeyTree.CommandLine

/-- The names of the commands. -/
inductive CommandName where
  /-- Build a document from a table. -/
  | build
  /-- Show a document. -/
  | render
  /-- Write the completions for a shell. -/
  | completions
deriving DecidableEq, Repr

/-- The place of a word: before the name of a command, or after it. -/
inductive Level where
  /-- Before the name of a command. -/
  | root
  /-- After the name of a command. -/
  | command (name : CommandName)
deriving DecidableEq, Repr

/-- What can be given. -/
inductive Parameter where
  /-- The configuration file. -/
  | config
  /-- More about the work. -/
  | verbose
  /-- The help. -/
  | help
  /-- The version of the program. -/
  | version
  /-- Where to read. -/
  | input
  /-- Where to write. -/
  | output
  /-- The version to note in a document. -/
  | versionLabel
  /-- The format. -/
  | format
  /-- No ids. -/
  | noIds
  /-- No marks of dynamic shortcuts. -/
  | noDynamic
  /-- The shell, which is given without the name of an option. -/
  | shell
deriving DecidableEq, Repr

/-- How a parameter is given. -/
inductive Use where
  /-- With a value, once. -/
  | value
  /-- Without a value, once. -/
  | switch
  /-- Without a value, any number of times. -/
  | count
  /-- Without a value; it asks for a text instead of a command. -/
  | page
deriving DecidableEq, Repr

namespace Parameter

/-- How a parameter is given. -/
def use : Parameter → Use
  | .config | .input | .output | .versionLabel | .format | .shell => .value
  | .noIds | .noDynamic => .switch
  | .verbose => .count
  | .help | .version => .page

/-- The name after two dashes. -/
def longName? : Parameter → Option String
  | .config => some "config"
  | .verbose => some "verbose"
  | .help => some "help"
  | .version => some "version"
  | .input => some "input"
  | .output => some "output"
  | .versionLabel => some "version-label"
  | .format => some "format"
  | .noIds => some "no-ids"
  | .noDynamic => some "no-dynamic"
  | .shell => none

/-- The letter after one dash. -/
def letter? : Parameter → Option Char
  | .verbose => some 'v'
  | .help => some 'h'
  | .version => some 'V'
  | .output => some 'o'
  | _ => none

/-- Whether a value is allowed: a path is not empty, and a format or a shell is a known one. -/
def allows (p : Parameter) (v : String) : Bool :=
  match p with
  | .config | .input | .output => !v.isEmpty
  | .format => (Format.ofName? v).isSome
  | .shell => (Shell.ofName? v).isSome
  | _ => true

end Parameter

/-- The command with this name. -/
def CommandName.ofString? (w : String) : Option CommandName :=
  if w = "build" then some .build
  else if w = "render" then some .render
  else if w = "completions" then some .completions
  else none

/-- The parameters that a command has for itself. -/
def CommandName.parameters : CommandName → List Parameter
  | .build => [.input, .output, .versionLabel]
  | .render => [.input, .format, .noIds, .noDynamic, .output]
  | .completions => [.shell]

namespace Level

/-- The parameters that can be given at a level. -/
def parameters : Level → List Parameter
  | .root => [.config, .verbose, .help, .version]
  | .command c => c.parameters ++ [.config, .verbose, .help]

/-- The parameter with this name after two dashes. -/
def long? (l : Level) (name : String) : Option Parameter :=
  l.parameters.find? fun p => p.longName? = some name

/-- The parameter with this letter after one dash. -/
def short? (l : Level) (c : Char) : Option Parameter :=
  l.parameters.find? fun p => p.letter? = some c

end Level

/-- The words that end the root level: the name of a command, or the question for help. -/
inductive Turn where
  /-- The name of a command. -/
  | command (name : CommandName)
  /-- The question for help. -/
  | help
deriving DecidableEq, Repr

/-- What a word ends a level with. After the name of a command there is no other. -/
def Level.turn? (l : Level) (w : String) : Option Turn :=
  match l with
  | .root => if w = "help" then some .help else (CommandName.ofString? w).map .command
  | .command _ => none

end HotkeyTree.CommandLine
