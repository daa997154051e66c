import HotkeyTree.CommandLine.Parameter

/-!
# What the program says about its command line

The version, a page of help, the wording of refusals, and for each shell a script that completes the
words of a command line. All are made from the table of parameters.

The library that reads the program's command line writes these texts itself, and its sources are not
at hand. The help page, the wording of refusals and the scripts are therefore texts of their own
here: they differ from what the program prints. Only which of them is shown, where, and with which
exit code is as the program has it.
-/

namespace HotkeyTree

namespace CommandLine

/-- The name of the program. -/
def programName : String := "symkeys"

/-- The version of the program. -/
def programVersion : String := "0.1.0"

/-- The line that tells the version. -/
def versionPage : String := programName ++ " " ++ programVersion ++ "\n"

/-- The commands in the order in which they are told. -/
def commandNames : List CommandName := [.build, .render, .completions]

/-- The name of a command. -/
def CommandName.text : CommandName → String
  | .build => "build"
  | .render => "render"
  | .completions => "completions"

/-- How a parameter is written. -/
def Parameter.usage (p : Parameter) : String :=
  let name := match p.longName?, p.letter? with
    | some name, some c => "-" ++ String.singleton c ++ ", --" ++ name
    | some name, none => "--" ++ name
    | none, _ => ""
  match p with
  | .config | .input | .output => name ++ " <PATH>"
  | .versionLabel => name ++ " <LABEL>"
  | .format => name ++ " <compact|report>"
  | .shell => "<" ++ "|".intercalate (Shell.all.map Shell.name) ++ ">"
  | _ => name

/-- The lines on the parameters that can be given at a level. -/
def Level.usage (l : Level) : String :=
  String.join (l.parameters.map fun p => "  " ++ p.usage ++ "\n")

/-- The page of help. -/
def helpPage : String :=
  "Usage: " ++ programName ++ " [OPTIONS] <COMMAND>\n\nOptions:\n" ++ Level.root.usage
    ++ String.join (commandNames.map fun c =>
      "\n" ++ programName ++ " " ++ c.text ++ ":\n" ++ (Level.command c).usage)

/-- The words that a command line can have. -/
def vocabulary : List String :=
  let options := [Level.root, .command .build, .command .render, .command .completions].flatMap
    fun l => l.parameters.filterMap Parameter.longName?
  commandNames.map CommandName.text ++ ["help"] ++ options.eraseDups.map fun name => "--" ++ name

/-- The script that completes words in a shell. -/
def completionScript (shell : Shell) : String :=
  let words := " ".intercalate vocabulary
  match shell with
  | .bash => "complete -o default -W '" ++ words ++ "' " ++ programName ++ "\n"
  | .elvish =>
    "set edit:completion:arg-completer[" ++ programName ++ "] = \x7b|@_| put " ++ words ++ " \x7d\n"
  | .fish => "complete -c " ++ programName ++ " -a '" ++ words ++ "'\n"
  | .powershell =>
    "Register-ArgumentCompleter -Native -CommandName " ++ programName
      ++ " -ScriptBlock \x7b param($word) '" ++ words
      ++ "' -split ' ' | Where-Object \x7b $_ -like \x22$word*\x22 \x7d \x7d\n"
  | .zsh => "#compdef " ++ programName ++ "\ncompadd -- " ++ words ++ "\n"

end CommandLine

/-- What is said about a refusal: the version, a page of help, or what is wrong. -/
def Refusal.text : Refusal → String
  | help | nothingGiven => CommandLine.helpPage
  | version => CommandLine.versionPage
  | noCommand => "error: a command is missing\n"
  | unknownCommand => "error: there is no such command\n"
  | unknownArgument => "error: an argument is not known\n"
  | badValue => "error: a value is missing or not allowed\n"
  | givenTwice => "error: an option is given twice\n"
  | valueNotTaken => "error: an option takes no value\n"
  | missingArgument => "error: an argument is missing\n"

end HotkeyTree
