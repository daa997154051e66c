import HotkeyTree.Build
import HotkeyTree.CommandLine.Basic

/-!
# The settings of a run

A setting is what the command line says, or else what the configuration file says, or else a
default. Ids and marks are shown unless the command line or the configuration file hides them.
-/

namespace HotkeyTree

/-- Where the table is, if nothing is said about it. -/
def defaultTable : String := "data/DefaultShortcutsTable.xml"

/-- Where the document is, if nothing is said about it. -/
def defaultDocument : String := "data/symbolic-hotkeys.json"

/-- Where the configuration file is, if nothing is said about it. -/
def defaultConfiguration : String := "symkeys.toml"

/-- How a document is built. -/
structure BuildSettings where
  /-- Where the table is. -/
  input : String
  /-- Where the document goes. -/
  output : String
  /-- The version to note. -/
  version : String
  /-- The source file to note. -/
  generatedFrom : String
  /-- The remark to note. -/
  note : String
deriving DecidableEq, Repr

/-- How a document is shown. -/
structure RenderSettings where
  /-- Where the document is. -/
  input : String
  /-- Where the text goes, if not to the standard output. -/
  output : Option String
  /-- What is shown, and how. -/
  options : Rendering.Options
deriving DecidableEq, Repr

/-- The settings for building a document. -/
def BuildSettings.resolve (a : BuildArguments) (c : BuildSection) : BuildSettings where
  input := (a.input.or c.input).getD defaultTable
  output := (a.output.or c.output).getD defaultDocument
  version := (a.version.or c.version).getD Document.defaultVersion
  generatedFrom := c.generatedFrom.getD Document.defaultGeneratedFrom
  note := c.note.getD Document.defaultNote

/-- The settings for showing a document. -/
def RenderSettings.resolve (a : RenderArguments) (c : RenderSection) : RenderSettings where
  input := (a.input.or c.input).getD defaultDocument
  output := a.output
  options :=
    { format := (a.format.or c.format).getD .compact
      showIds := !a.noIds && c.ids.getD true
      showDynamic := !a.noDynamic && c.dynamic.getD true
      rootLabel := c.root.getD Rendering.defaultRoot }

end HotkeyTree
