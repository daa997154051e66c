import HotkeyTree.CommandLine.Manual
import HotkeyTree.CommandLine.Reader
import HotkeyTree.Document.Json
import HotkeyTree.Document.Misfit
import HotkeyTree.Failure.Basic
import HotkeyTree.Files.Path
import HotkeyTree.Log.Basic
import HotkeyTree.Settings

/-!
# A run of the program

A run reads the command line and the configuration file and carries out one command on a file
system. It comes out with an exit code, a text for the standard output and one for the standard
error. Only what succeeded is told on the standard output; messages about the work come on the
standard error before the failure, if there is one.

A file is written last, so a failure leaves the files as they were.
-/

namespace HotkeyTree

/-- What comes out of a run. -/
structure Outcome where
  /-- How the program ends. -/
  exitCode : Nat
  /-- What is told on the standard output. -/
  output : String := ""
  /-- What is told on the standard error. -/
  errors : String := ""
deriving DecidableEq, Repr

/-- What comes out of a command: the messages on the way, and what it tells or why it failed. -/
structure CommandReport where
  /-- The messages, in order. -/
  messages : List Message := []
  /-- What the command tells, or why it failed. -/
  result : Except Failure String

/-- The outcome of a command. -/
def CommandReport.toOutcome (r : CommandReport) (verbosity : Nat) : Outcome :=
  let told := Message.lines verbosity r.messages
  match r.result with
  | .ok output => { exitCode := 0, output, errors := told }
  | .error failure => { exitCode := 1, errors := told ++ failure.text ++ "\n" }

/-- The outcome of a command line that is refused. -/
def Refusal.toOutcome (r : Refusal) : Outcome :=
  if r.exitCode = 0 then { exitCode := 0, output := r.text }
  else { exitCode := r.exitCode, errors := r.text }

namespace Program

variable {m : Type → Type} [Monad m] [FileSystem m]

/-! ## Configuration -/

/-- Reads a configuration file. -/
def readConfiguration (path : String) : m (Except Failure Configuration) := do
  match ← FileSystem.readFile path with
  | .error cause => return .error (.brokenConfiguration path cause)
  | .ok bytes =>
    match String.fromUTF8? bytes with
    | none => return .error (.brokenConfiguration path "the file is not encoded in UTF-8")
    | some text =>
      match Configuration.parse text with
      | .error fault => return .error (.brokenConfiguration path (fault.describe text))
      | .ok c => return .ok c

/-- The configuration: that of the file that is named, or that of the file in its usual place. Only
the latter may be missing. -/
def loadConfiguration (path? : Option String) : m (Except Failure Configuration) := do
  match path? with
  | some path => readConfiguration path
  | none =>
    if ← FileSystem.pathExists defaultConfiguration then readConfiguration defaultConfiguration
    else return .ok {}

/-! ## Building -/

/-- Reads a table. -/
def loadTable (path : String) : m (Except Failure (List Node)) := do
  if ← FileSystem.pathExists path then
    match ← FileSystem.readFile path with
    | .error cause => return .error (.unreadable path cause)
    | .ok bytes =>
      match VendorTable.ofBytes bytes with
      | .error .notPropertyList =>
        return .error (.notPropertyList path "the file is in neither of the two formats")
      | .error .notArray => return .error (.notArray path)
      | .ok nodes => return .ok nodes
  else return .error (.missingTable path)

/-- Makes the directories above a path. -/
def createAbove (path : String) : m (Except Failure Unit) := do
  match Path.above path with
  | [] => return .ok ()
  | parent :: _ =>
    match ← FileSystem.createDirectories parent with
    | .error cause => return .error (.noDirectory parent cause)
    | .ok () => return .ok ()

/-- Writes a text to a file. -/
def writeText (path text : String) : m (Except Failure Unit) := do
  match ← FileSystem.writeFile path text.toUTF8 with
  | .error cause => return .error (.unwritable path cause)
  | .ok () => return .ok ()

/-- The document that is built from some nodes. -/
def documentOf (s : BuildSettings) (b : Build) : Document where
  version := s.version
  generatedFrom := s.generatedFrom
  note := s.note
  categories := b.categories

/-- The text of a document in a file: a line feed ends it. -/
def documentText (d : Document) : String := d.write ++ "\n"

/-- What is told of a document that was built. -/
def summary (path : String) (s : Statistics) : String :=
  "Generated: " ++ path ++ "\n"
    ++ String.join (s.perCategory.map fun c =>
      "  " ++ c.key ++ ": " ++ toString c.tally.shortcuts ++ " shortcuts\n")
    ++ "Total: " ++ toString s.total.shortcuts ++ " shortcuts in " ++ toString s.categories
    ++ " categories\n"

/-- Builds a document from a table and writes it. -/
def build (s : BuildSettings) : m CommandReport := do
  match ← loadTable s.input with
  | .error failure => return { result := .error failure }
  | .ok nodes =>
    let b := Build.ofNodes nodes
    let d := documentOf s b
    let messages := Message.tableLoaded s.input nodes.length :: Message.ofBuild b
    match ← createAbove s.output with
    | .error failure => return { messages, result := .error failure }
    | .ok () =>
      match ← writeText s.output (documentText d) with
      | .error failure => return { messages, result := .error failure }
      | .ok () =>
        let statistics := Statistics.ofCategories d.categories
        let messages := messages ++ [.documentWritten s.output statistics]
        return { messages, result := .ok (summary s.output statistics) }

/-! ## Rendering -/

/-- Reads a document. -/
def loadDocument (path : String) : m (Except Failure Document) := do
  if ← FileSystem.pathExists path then
    match ← FileSystem.readFile path with
    | .error cause => return .error (.unreadable path cause)
    | .ok bytes =>
      match String.fromUTF8? bytes with
      | none => return .error (.unreadable path "the file is not encoded in UTF-8")
      | some text =>
        match Document.read? text with
        | none => return .error (.notDocument path (Document.misfit text).describe)
        | some d => return .ok d
  else return .error (.missingDocument path)

/-- Shows a document, in a file or on the standard output. -/
def render (s : RenderSettings) : m CommandReport := do
  match ← loadDocument s.input with
  | .error failure => return { result := .error failure }
  | .ok d =>
    let messages := [Message.documentShown s.input s.options.format]
    let text := Rendering.render s.options d
    match s.output with
    | none => return { messages, result := .ok text }
    | some path =>
      match ← writeText path text with
      | .error failure => return { messages, result := .error failure }
      | .ok () => return { messages, result := .ok ("Tree written to: " ++ path ++ "\n") }

/-! ## The run -/

/-- Carries out a command. -/
def carryOut (c : Configuration) : Command → m CommandReport
  | .build a => build (.resolve a c.build)
  | .render a => render (.resolve a c.render)
  | .completions shell => return { result := .ok (CommandLine.completionScript shell) }

/-- Runs the program with the words of a command line. -/
def run (words : List String) : m Outcome := do
  match CommandLine.read words with
  | .error refusal => return refusal.toOutcome
  | .ok i =>
    match ← loadConfiguration i.config with
    | .error failure => return (CommandReport.mk [] (.error failure)).toOutcome i.verbosity
    | .ok c => return (← carryOut c i.command).toOutcome i.verbosity

end Program

end HotkeyTree
