import HotkeyTree.Configuration

/-!
# What is asked for on the command line

A command line asks for one of three commands, with the options of that command, a configuration
file and a verbosity. A command line that asks for none is refused, and the refusal says why.
-/

namespace HotkeyTree

/-- The shells for which completions can be written. -/
inductive Shell where
  /-- The shell `bash`. -/
  | bash
  /-- The shell `elvish`. -/
  | elvish
  /-- The shell `fish`. -/
  | fish
  /-- The shell `powershell`. -/
  | powershell
  /-- The shell `zsh`. -/
  | zsh
deriving DecidableEq, Repr

namespace Shell

/-- All shells. -/
def all : List Shell := [.bash, .elvish, .fish, .powershell, .zsh]

/-- The name of a shell on the command line. -/
def name : Shell → String
  | .bash => "bash"
  | .elvish => "elvish"
  | .fish => "fish"
  | .powershell => "powershell"
  | .zsh => "zsh"

/-- The shell with this name. -/
def ofName? (s : String) : Option Shell := all.find? fun shell => shell.name = s

end Shell

/-- What a command line says about building. -/
structure BuildArguments where
  /-- Where the table is. -/
  input : Option String := none
  /-- Where the document goes. -/
  output : Option String := none
  /-- The version to note. -/
  version : Option String := none
deriving DecidableEq, Repr

/-- What a command line says about rendering. -/
structure RenderArguments where
  /-- Where the document is. -/
  input : Option String := none
  /-- The format. -/
  format : Option Format := none
  /-- Whether the ids of shortcuts are left out. -/
  noIds : Bool := false
  /-- Whether the marks of dynamic shortcuts are left out. -/
  noDynamic : Bool := false
  /-- Where the text goes. -/
  output : Option String := none
deriving DecidableEq, Repr

/-- The commands, with what is said about them. -/
inductive Command where
  /-- Build a document from a table. -/
  | build (arguments : BuildArguments)
  /-- Show a document. -/
  | render (arguments : RenderArguments)
  /-- Write the completions for a shell. -/
  | completions (shell : Shell)
deriving DecidableEq, Repr

/-- What a command line asks for. -/
structure Invocation where
  /-- The configuration file, if one is named. -/
  config : Option String := none
  /-- How much is to be told about the work, from 0 to 255. -/
  verbosity : Nat := 0
  /-- What is to be done. -/
  command : Command
deriving DecidableEq, Repr

/-- Why a command line is not carried out as a command. -/
inductive Refusal where
  /-- It asks for help. -/
  | help
  /-- It asks for the version. -/
  | version
  /-- It says nothing. -/
  | nothingGiven
  /-- It gives options and no command. -/
  | noCommand
  /-- It names a command that there is not. -/
  | unknownCommand
  /-- It has an option that there is not, or a word too many. -/
  | unknownArgument
  /-- A value is missing or not allowed. -/
  | badValue
  /-- An option is given twice. -/
  | givenTwice
  /-- An option has a value that takes none. -/
  | valueNotTaken
  /-- A word is missing. -/
  | missingArgument
deriving DecidableEq, Repr

/-- How the program ends: asking for help or for the version is no fault. -/
def Refusal.exitCode : Refusal → Nat
  | .help | .version => 0
  | _ => 2

end HotkeyTree
