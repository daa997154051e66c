import HotkeyTree.Build
import HotkeyTree.Log.Severity
import HotkeyTree.Rendering
import HotkeyTree.Text.Quoted

/-!
# Messages about the work

A message has a level, a part of the program that it comes from, a text, and values with names. It
is told on a line of its own if the verbosity asks for its level; the part it comes from is named as
soon as details are asked for. A value is told as it stands, except for the display name of a
dropped node, which can be any text and is quoted.
-/

namespace HotkeyTree

namespace Severity

/-- The mark of a level at the beginning of a line: five characters, aligned to the right. -/
def mark : Severity → String
  | .warn => " WARN"
  | .info => " INFO"
  | .debug => "DEBUG"
  | .trace => "TRACE"

/-- Whether messages of a level are told where messages of the level `least` are. -/
def told (least s : Severity) : Bool := s.rank ≤ least.rank

end Severity

/-- The parts of the program that have something to tell. -/
inductive Origin where
  /-- The making of the tree. -/
  | tree
  /-- The command that builds a document. -/
  | buildCommand
  /-- The command that shows a document. -/
  | renderCommand
deriving DecidableEq, Repr

/-- How a part of the program is named. -/
def Origin.name : Origin → String
  | .tree => "symkeys_build"
  | .buildCommand => "symkeys::commands::build"
  | .renderCommand => "symkeys::commands::render"

/-- A message about the work. -/
structure Message where
  /-- Its level. -/
  severity : Severity
  /-- The part of the program it comes from. -/
  origin : Origin
  /-- What it says. -/
  text : String
  /-- The values it names, as they are told. -/
  fields : List (String × String) := []
deriving DecidableEq, Repr

namespace Message

/-- The line of a message. -/
def line (verbosity : Nat) (m : Message) : String :=
  m.severity.mark ++ " "
    ++ (if 2 ≤ verbosity then m.origin.name ++ ": " else "")
    ++ m.text
    ++ String.join (m.fields.map fun f => " " ++ f.1 ++ "=" ++ f.2)
    ++ "\n"

/-- The lines of those messages that are told. -/
def lines (verbosity : Nat) (ms : List Message) : String :=
  String.join
    ((ms.filter fun m => (Severity.ofVerbosity verbosity).told m.severity).map (line verbosity))

/-- How a hotkey id that may be missing is told. -/
def idText : Option Int64 → String
  | some id => "Some(" ++ toString id.toInt ++ ")"
  | none => "None"

/-- The message of an event. -/
def ofEvent : Event → Message
  | .dropped n reason =>
    { severity := .debug, origin := .tree, text := "dropping node"
      fields :=
        [("name", Text.quoted (n.name.getD "")), ("hotkey_id", idText n.hotkeyId),
         ("reason", reason.text)] }
  | .renamed scope r =>
    { severity := .warn, origin := .tree, text := r.message, fields := [("scope", scope.text)] }

/-- The messages on the making of a tree: its events, and that it is made. -/
def ofBuild (b : Build) : List Message :=
  b.events.map ofEvent ++
    [{ severity := .debug, origin := .tree, text := "built shortcut tree"
       fields :=
        [("categories", toString b.categories.length), ("warnings", toString b.warnings.length)] }]

/-- A table was read. -/
def tableLoaded (path : String) (nodes : Nat) : Message where
  severity := .info
  origin := .buildCommand
  text := "loaded shortcut table"
  fields := [("input", path), ("nodes", toString nodes)]

/-- A document was written. -/
def documentWritten (path : String) (s : Statistics) : Message where
  severity := .info
  origin := .buildCommand
  text := "wrote shortcut document"
  fields :=
    [("output", path), ("shortcuts", toString s.total.shortcuts),
     ("categories", toString s.categories)]

/-- How a format is told. -/
def formatText : Format → String
  | .compact => "Compact"
  | .report => "Report"

/-- A document is about to be shown. -/
def documentShown (path : String) (format : Format) : Message where
  severity := .debug
  origin := .renderCommand
  text := "rendering shortcut document"
  fields := [("input", path), ("format", formatText format)]

end Message

end HotkeyTree
