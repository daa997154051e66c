import HotkeyTree.Proofs.Rendering.Lines

/-!
# Proofs: what the switches take away

A text is cut into pieces where it is written, not where it is read: a name may have anything in it
that looks like an annotation. Which pieces there are depends on the document, the format and the
name of the whole, but not on the switches. They say which pieces are shown.
-/

namespace HotkeyTree.Rendering

open Outline

/-- The same with both switches on. -/
def Options.annotated (o : Options) : Options := { o with showIds := true, showDynamic := true }

/-- A piece of a text. -/
inductive Piece where
  /-- What is always shown. -/
  | fixed (text : String)
  /-- The id of a shortcut, behind its name. -/
  | id (i : Int64)
  /-- The mark of a dynamic shortcut, at the end of its segment. -/
  | mark (text : String)
  /-- The note on dynamic shortcuts. -/
  | note

namespace Piece

/-- The text of a piece, whether it is shown or not. -/
def text : Piece → String
  | fixed text => text
  | id i => " (ID: " ++ toString i.toInt ++ ")"
  | mark text => text
  | note => "> **Note**: Shortcuts marked with `[dynamic]` are dynamically created by macOS.\n\n"

/-- Whether a piece is shown: an annotation is if its switch is on, all else always. -/
def isShown (o : Options) : Piece → Bool
  | fixed _ => true
  | id _ => o.showIds
  | mark _ => o.showDynamic
  | note => o.showDynamic

end Piece

/-- The texts of pieces one after the other. -/
def textOf (ps : List Piece) : String := String.join (ps.map Piece.text)

/-! ## Segments in pieces -/

/-- The segment of a line up to its annotations. -/
def entryText (l : Line) : Format → String
  | .compact => indent (l.depth + 1) ++ "- " ++
    if l.isShortcut then "`" ++ l.key ++ "` - **" ++ l.name ++ "**"
    else "`" ++ l.key ++ "` (**" ++ l.name ++ "**)"
  | .report => indent l.depth ++ "- " ++
    if l.isShortcut then "`" ++ l.key ++ "` - " ++ l.name
    else "**" ++ l.key ++ "** (" ++ l.name ++ ")"

/-- How a dynamic shortcut is marked. -/
def markText : Format → String
  | .compact => " [dynamic]"
  | .report => " `[dynamic]`"

/-- A shortcut has its own id behind its name, and its mark if it is dynamic. -/
def annotations (f : Format) : Kind → List Piece
  | .shortcut id true => [.id id, .mark (markText f)]
  | .shortcut id false => [.id id]
  | .category | .group => []

/-- The segment of a line in pieces: what comes before the annotations, these, and the line feed. -/
def linePieces (f : Format) (l : Line) : List Piece :=
  .fixed (entryText l f) :: annotations f l.kind ++ [.fixed "\n"]

/-- A document in pieces, in a format and under a name. -/
def pieces (root : String) (d : Document) : Format → List Piece
  | .compact =>
    .fixed ("`" ++ root ++ "`\n") :: (ofCategories d.categories).flatMap (linePieces .compact)
  | .report =>
    let s := Statistics.ofCategories d.categories
    .fixed (reportHeader { rootLabel := root } d s) ::
      ((if Statistics.anyDynamic d.categories then [.note] else []) ++
        .fixed ("## " ++ root ++ "\n\n") ::
          ((ofCategories d.categories).flatMap (linePieces .report) ++ [.fixed (reportFooter s)]))

variable (o : Options) (d : Document)

/-! ## The pieces that are shown -/

/-- The text of the pieces that are shown. -/
def shownText (ps : List Piece) : String := textOf (ps.filter (Piece.isShown o))

/-- The switches look at each piece alone, so texts may be cut anywhere between two pieces. -/
theorem shownText_append (ps qs : List Piece) :
    shownText o (ps ++ qs) = shownText o ps ++ shownText o qs := by
  rw [shownText, List.filter_append, textOf, List.map_append, String.join_append]
  rfl

theorem shownText_fixed_cons (text : String) (ps : List Piece) :
    shownText o (.fixed text :: ps) = text ++ shownText o ps := by
  rw [shownText, List.filter_cons_of_pos rfl, textOf, List.map_cons, String.join_cons]
  rfl

theorem shownText_nil : shownText o [] = "" := rfl

/-- If the pieces of each line show its segment, those of all lines show the segments one after the
other. -/
theorem shownText_flatMap {segment : Line → String} {cut : Line → List Piece}
    (h : ∀ l, shownText o (cut l) = segment l) (ls : List Line) :
    shownText o (ls.flatMap cut) = String.join (ls.map segment) := by
  induction ls with
  | nil => rfl
  | cons l ls ih => rw [List.flatMap_cons, shownText_append, h, ih, List.map_cons, String.join_cons]

/-- The pieces behind a shortcut show just the id and the mark that the writers put there. -/
theorem shownText_annotations (f : Format) (id : Int64) (dynamic : Bool) :
    shownText o (annotations f (.shortcut id dynamic)) =
      idText o id ++ dynamicText o (markText f) dynamic := by
  cases dynamic <;> cases hids : o.showIds <;> cases hmarks : o.showDynamic <;>
    simp [annotations, shownText, textOf, Piece.isShown, Piece.text, idText, dynamicText, hids,
      hmarks]

theorem shownText_linePieces (f : Format) (l : Line) :
    shownText o (linePieces f l) =
      entryText l f ++ (shownText o (annotations f l.kind) ++ "\n") := by
  rw [linePieces, List.cons_append, shownText_fixed_cons, shownText_append, shownText_fixed_cons,
    shownText_nil, String.append_empty]

/-- In the compact format the pieces of a line show its segment, whatever the switches are. -/
theorem shownText_linePieces_compact (l : Line) :
    shownText o (linePieces .compact l) = compactSegment o l := by
  obtain ⟨depth, key, name, kind⟩ := l
  rw [shownText_linePieces, compactSegment, compactText]
  cases kind with
  | category | group =>
    simp [annotations, shownText_nil, entryText, Line.isShortcut, String.append_assoc]
  | shortcut id dynamic =>
    simp [shownText_annotations, entryText, Line.isShortcut, markText, compactMark,
      String.append_assoc]

/-- In the report, too, the pieces of a line show its segment. -/
theorem shownText_linePieces_report (l : Line) :
    shownText o (linePieces .report l) = reportSegment o l := by
  obtain ⟨depth, key, name, kind⟩ := l
  rw [shownText_linePieces, reportSegment, reportText]
  cases kind with
  | category | group =>
    simp [annotations, shownText_nil, entryText, Line.isShortcut, String.append_assoc]
  | shortcut id dynamic =>
    simp [shownText_annotations, entryText, Line.isShortcut, markText, reportMark,
      String.append_assoc]

/-- The note needs both: the switch, and a dynamic shortcut somewhere in the document. -/
theorem shownText_note :
    shownText o (if Statistics.anyDynamic d.categories then [.note] else []) =
      if o.showDynamic && Statistics.anyDynamic d.categories then dynamicNote else "" := by
  cases hmarks : o.showDynamic <;> cases Statistics.anyDynamic d.categories <;>
    simp [shownText, textOf, Piece.isShown, Piece.text, hmarks, dynamicNote]

/-- What is rendered is the text of the pieces that are shown. -/
theorem render_eq_shownText : render o d = shownText o (pieces o.rootLabel d o.format) := by
  unfold render
  cases o.format with
  | compact =>
    rw [pieces, shownText_fixed_cons, shownText_flatMap o (shownText_linePieces_compact o)]
    rfl
  | report =>
    have hheader : ∀ s, reportHeader { rootLabel := o.rootLabel } d s = reportHeader o d s :=
      fun _ => rfl
    rw [pieces, shownText_fixed_cons, shownText_append, shownText_note, shownText_fixed_cons,
      shownText_append, shownText_flatMap o (shownText_linePieces_report o), shownText_fixed_cons,
      shownText_nil, String.append_empty, hheader]
    simp only [report, String.append_assoc]

/-- With both switches on every piece is shown. -/
theorem shownText_of_annotated {ps : List Piece} (hids : o.showIds = true)
    (hmarks : o.showDynamic = true) : shownText o ps = textOf ps := by
  have hall : ∀ p ∈ ps, p.isShown o = true := by
    intro p _
    cases p with
    | fixed text => rfl
    | id i => exact hids
    | mark text => exact hmarks
    | note => exact hmarks
  rw [shownText, List.filter_eq_self.2 hall]

/-- **The switches only take annotations away.** With both on the pieces of a document are shown one
after the other, in either format; otherwise the same pieces without the ids, or without the marks
and the note. No line feed is lost in the compact tree. -/
theorem render_toggled (o : Options) (d : Document) :
    render o.annotated d = textOf (pieces o.rootLabel d o.format) ∧
      render o d = textOf ((pieces o.rootLabel d o.format).filter (Piece.isShown o)) ∧
      (compact o d).toList.count '\n' = (compact o.annotated d).toList.count '\n' := by
  refine ⟨?_, render_eq_shownText o d, ?_⟩
  · rw [render_eq_shownText, shownText_of_annotated o.annotated rfl rfl]
    rfl
  · rw [count_compact, count_compact]
    rfl

end HotkeyTree.Rendering
