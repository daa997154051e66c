import HotkeyTree.Outline
import HotkeyTree.Statistics

/-!
# Showing a tree

A document is shown as a compact tree or as a report in Markdown. Both show the lines of the outline
in order, each as one segment of text that ends in a line feed. The ids of shortcuts and the marks
of dynamic ones can be left out.
-/

namespace HotkeyTree

/-- The two ways of showing a document. -/
inductive Format where
  /-- A tree, one line per entry. -/
  | compact
  /-- A report in Markdown, with the tree and its numbers. -/
  | report
deriving DecidableEq, Repr

namespace Rendering

/-- What the tree as a whole is called, if nothing is said about it. -/
def defaultRoot : String := "darwin.symbolicHotkeys"

/-- What is shown, and how. -/
structure Options where
  /-- The format. -/
  format : Format := .compact
  /-- Whether the ids of shortcuts are shown. -/
  showIds : Bool := true
  /-- Whether dynamic shortcuts are marked. -/
  showDynamic : Bool := true
  /-- What the tree as a whole is called. -/
  rootLabel : String := defaultRoot
deriving DecidableEq, Repr

/-- Two spaces for every step. -/
def indent (steps : Nat) : String := String.ofList (List.replicate (2 * steps) ' ')

/-- The id of a shortcut, if ids are shown. -/
def idText (o : Options) (id : Int64) : String :=
  if o.showIds then " (ID: " ++ toString id.toInt ++ ")" else ""

/-- The mark of a dynamic shortcut, if such are marked. -/
def dynamicText (o : Options) (mark : String) (dynamic : Bool) : String :=
  if o.showDynamic && dynamic then mark else ""

/-- How the compact tree marks a dynamic shortcut. -/
def compactMark : String := " [dynamic]"

/-- How the report marks a dynamic shortcut. -/
def reportMark : String := " `[dynamic]`"

/-- A line of the compact tree without its indentation. -/
def compactText (o : Options) (l : Outline.Line) : String :=
  match l.kind with
  | .shortcut id dynamic =>
    "`" ++ l.key ++ "` - **" ++ l.name ++ "**" ++ idText o id ++ dynamicText o compactMark dynamic
  | _ => "`" ++ l.key ++ "` (**" ++ l.name ++ "**)"

/-- The segment of a line in the compact tree. -/
def compactSegment (o : Options) (l : Outline.Line) : String :=
  indent (l.depth + 1) ++ "- " ++ compactText o l ++ "\n"

/-- The compact tree: the root, then the lines of the outline. -/
def compact (o : Options) (d : Document) : String :=
  "`" ++ o.rootLabel ++ "`\n"
    ++ String.join ((Outline.ofCategories d.categories).map (compactSegment o))

/-- A line of the report without its indentation. -/
def reportText (o : Options) (l : Outline.Line) : String :=
  match l.kind with
  | .shortcut id dynamic =>
    "`" ++ l.key ++ "` - " ++ l.name ++ idText o id ++ dynamicText o reportMark dynamic
  | _ => "**" ++ l.key ++ "** (" ++ l.name ++ ")"

/-- The segment of a line in the report. -/
def reportSegment (o : Options) (l : Outline.Line) : String :=
  indent l.depth ++ "- " ++ reportText o l ++ "\n"

/-- Explains the mark of dynamic shortcuts. -/
def dynamicNote : String :=
  "> **Note**: Shortcuts marked with `[dynamic]` are dynamically created by macOS.\n\n"

/-- The report up to the note on dynamic shortcuts. -/
def reportHeader (o : Options) (d : Document) (s : Statistics) : String :=
  "# " ++ o.rootLabel ++ " Options Tree\n\n"
    ++ "Generated from version: " ++ d.version ++ "\n"
    ++ "Total categories: " ++ toString s.categories ++ "\n\n"

/-- The end of the report, after the tree. -/
def reportFooter (s : Statistics) : String :=
  "\n## Statistics\n\n"
    ++ "- Total shortcuts: " ++ toString s.total.shortcuts ++ "\n"
    ++ "- Dynamic shortcuts: " ++ toString s.total.dynamic ++ "\n"
    ++ "- Categories: " ++ toString s.categories ++ "\n"

/-- The report: its header, the note on dynamic shortcuts if there are any to be marked, the lines
of the outline, and the numbers. -/
def report (o : Options) (d : Document) : String :=
  let s := Statistics.ofCategories d.categories
  reportHeader o d s
    ++ (if o.showDynamic && Statistics.anyDynamic d.categories then dynamicNote else "")
    ++ "## " ++ o.rootLabel ++ "\n\n"
    ++ String.join ((Outline.ofCategories d.categories).map (reportSegment o))
    ++ reportFooter s

/-- A document in the chosen format. -/
def render (o : Options) (d : Document) : String :=
  match o.format with
  | .compact => compact o d
  | .report => report o d

end Rendering

end HotkeyTree
