import HotkeyTree.Proofs.Statistics
import HotkeyTree.Rendering

/-!
# Proofs: both formats show the same tree

The compact tree and the report are written by formatters of their own, and the numbers in the
report come from a count of its own. Here both are put together once more, from segments that say
what is shown of each line of the outline and from nothing else: the numbers are counted in the
segments, and the note stands in the report if one of them is marked.
-/

namespace HotkeyTree.Rendering

open Outline

/-! ## Segments -/

/-- What is shown of a line. -/
structure Segment where
  line : Line
  /-- The id behind the name, if one is shown. -/
  id : Option Int64
  /-- Whether the mark of a dynamic shortcut is shown. -/
  marked : Bool
deriving DecidableEq, Repr

namespace Segment

def idText (s : Segment) : String :=
  match s.id with
  | some id => " (ID: " ++ toString id.toInt ++ ")"
  | none => ""

/-- A segment in the compact tree, two spaces further in than in the report. -/
def compact (s : Segment) : String :=
  let entry := if s.line.isShortcut then "`" ++ s.line.key ++ "` - **" ++ s.line.name ++ "**"
    else "`" ++ s.line.key ++ "` (**" ++ s.line.name ++ "**)"
  "  " ++ indent s.line.depth ++ "- " ++ entry ++ s.idText
    ++ (if s.marked then " [dynamic]" else "") ++ "\n"

/-- A segment in the report. -/
def report (s : Segment) : String :=
  let entry := if s.line.isShortcut then "`" ++ s.line.key ++ "` - " ++ s.line.name
    else "**" ++ s.line.key ++ "** (" ++ s.line.name ++ ")"
  indent s.line.depth ++ "- " ++ entry ++ s.idText
    ++ (if s.marked then " `[dynamic]`" else "") ++ "\n"

end Segment

/-- The report up to the note, with the number of categories among some segments. -/
def headerOf (o : Options) (version : String) (segments : List Segment) : String :=
  "# " ++ o.rootLabel ++ " Options Tree\n\n" ++ "Generated from version: " ++ version ++ "\n"
    ++ "Total categories: " ++ toString (segments.countP (·.line.isCategory)) ++ "\n\n"

/-- The end of the report, with the numbers of some segments. -/
def footerOf (segments : List Segment) : String :=
  "\n## Statistics\n\n"
    ++ "- Total shortcuts: " ++ toString (segments.countP (·.line.isShortcut)) ++ "\n"
    ++ "- Dynamic shortcuts: " ++ toString (segments.countP (·.line.isDynamicShortcut)) ++ "\n"
    ++ "- Categories: " ++ toString (segments.countP (·.line.isCategory)) ++ "\n"

/-- Both formats show a document by these segments. -/
structure InStep (o : Options) (d : Document) (segments : List Segment) : Prop where
  /-- One for each line, in order. -/
  lines : segments.map Segment.line = ofCategories d.categories
  /-- Ids are shown of all shortcuts, and of nothing else, or of none. -/
  ids : ∀ s ∈ segments, ∀ id, s.id = some id ↔
    o.showIds = true ∧ ∃ dynamic, s.line.kind = .shortcut id dynamic
  /-- Marks are shown of all dynamic shortcuts, and of nothing else, or of none. -/
  marks : ∀ s ∈ segments, s.marked = true ↔
    o.showDynamic = true ∧ s.line.isDynamicShortcut = true
  compact : render { o with format := .compact } d =
    "`" ++ o.rootLabel ++ "`\n" ++ String.join (segments.map Segment.compact)
  report : render { o with format := .report } d =
    headerOf o d.version segments ++ (if segments.any Segment.marked then dynamicNote else "")
      ++ ("## " ++ o.rootLabel ++ "\n\n") ++ String.join (segments.map Segment.report)
      ++ footerOf segments
  /-- The text has the note behind its header exactly if a segment is marked. -/
  note_iff : (headerOf o d.version segments ++ dynamicNote).toList <+:
    (render { o with format := .report } d).toList ↔ ∃ s ∈ segments, s.marked = true

/-- What is shown of a line with these options. -/
def segmentOf (o : Options) (l : Line) : Segment where
  line := l
  id := match l.kind with
    | .shortcut id _ => if o.showIds then some id else none
    | _ => none
  marked := o.showDynamic && l.isDynamicShortcut

/-- What is shown of a document with these options. -/
def segmentsOf (o : Options) (d : Document) : List Segment :=
  (ofCategories d.categories).map (segmentOf o)

/-! ## One segment -/

variable (o : Options) (d : Document)

theorem segmentOf_id_eq_some_iff (l : Line) (id : Int64) :
    (segmentOf o l).id = some id ↔ o.showIds = true ∧ ∃ dynamic, l.kind = .shortcut id dynamic := by
  cases hkind : l.kind <;> simp [segmentOf, hkind]

theorem segmentOf_marked_iff (l : Line) :
    (segmentOf o l).marked = true ↔ o.showDynamic = true ∧ l.isDynamicShortcut = true := by
  rw [segmentOf, Bool.and_eq_true]

theorem indent_succ (steps : Nat) : indent (steps + 1) = "  " ++ indent steps := by
  apply String.toList_injective
  have hspaces : List.replicate (2 * (steps + 1)) ' ' =
      ' ' :: ' ' :: List.replicate (2 * steps) ' ' := by
    rw [Nat.mul_add, Nat.add_comm, List.replicate_add]
    rfl
  simp [indent, hspaces]

theorem compactSegment_eq (l : Line) : compactSegment o l = (segmentOf o l).compact := by
  obtain ⟨depth, key, name, kind⟩ := l
  cases kind <;> cases hids : o.showIds <;>
    simp [compactSegment, compactText, Segment.compact, Segment.idText, segmentOf, indent_succ,
      Line.isShortcut, Line.isDynamicShortcut, idText, dynamicText, compactMark, hids,
      String.append_assoc]

theorem reportSegment_eq (l : Line) : reportSegment o l = (segmentOf o l).report := by
  obtain ⟨depth, key, name, kind⟩ := l
  cases kind <;> cases hids : o.showIds <;>
    simp [reportSegment, reportText, Segment.report, Segment.idText, segmentOf,
      Line.isShortcut, Line.isDynamicShortcut, idText, dynamicText, reportMark, hids,
      String.append_assoc]

/-! ## The numbers and the note -/

theorem countP_segmentsOf (p : Line → Bool) :
    (segmentsOf o d).countP (fun s => p s.line) = (ofCategories d.categories).countP p := by
  rw [segmentsOf, List.countP_map]
  rfl

theorem statistics_categories_eq :
    (Statistics.ofCategories d.categories).categories =
      (segmentsOf o d).countP (·.line.isCategory) := by
  rw [countP_segmentsOf, countP_isCategory, blocks_ofCategories, List.length_map]
  rfl

theorem reportHeader_eq :
    reportHeader o d (Statistics.ofCategories d.categories) =
      headerOf o d.version (segmentsOf o d) := by
  have htext : ∀ s : Statistics, s.categories = (segmentsOf o d).countP (·.line.isCategory) →
      reportHeader o d s = headerOf o d.version (segmentsOf o d) := by
    intro s h
    unfold reportHeader headerOf
    rw [h]
  exact htext _ (statistics_categories_eq o d)

theorem reportFooter_eq :
    reportFooter (Statistics.ofCategories d.categories) = footerOf (segmentsOf o d) := by
  have htotal := Statistics.total_eq_tally d.categories
  have hshortcuts : (Statistics.ofCategories d.categories).total.shortcuts =
      (segmentsOf o d).countP (·.line.isShortcut) := by
    rw [countP_segmentsOf, htotal]
    rfl
  have hdynamic : (Statistics.ofCategories d.categories).total.dynamic =
      (segmentsOf o d).countP (·.line.isDynamicShortcut) := by
    rw [countP_segmentsOf, htotal]
    rfl
  have htext : ∀ s : Statistics,
      s.total.shortcuts = (segmentsOf o d).countP (·.line.isShortcut) →
      s.total.dynamic = (segmentsOf o d).countP (·.line.isDynamicShortcut) →
      s.categories = (segmentsOf o d).countP (·.line.isCategory) →
      reportFooter s = footerOf (segmentsOf o d) := by
    intro s h h' h''
    unfold reportFooter footerOf
    rw [h, h', h'']
  exact htext _ hshortcuts hdynamic (statistics_categories_eq o d)

/-- The test that decides about the note looks for a mark. -/
theorem any_marked_segmentsOf :
    (segmentsOf o d).any Segment.marked =
      (o.showDynamic && Statistics.anyDynamic d.categories) := by
  have hlines : Statistics.anyDynamic d.categories =
      (ofCategories d.categories).any Line.isDynamicShortcut := by
    rw [Bool.eq_iff_iff, Statistics.anyDynamic_eq_true_iff, Statistics.total_eq_tally,
      List.any_eq_true]
    exact List.countP_pos_iff
  rw [segmentsOf, List.any_map, hlines]
  cases hshow : o.showDynamic with
  | false => simp [Function.comp_def, segmentOf, hshow]
  | true => simp [Function.comp_def, segmentOf, hshow]

/-! ## Whole texts -/

theorem compact_eq :
    compact o d =
      "`" ++ o.rootLabel ++ "`\n" ++ String.join ((segmentsOf o d).map Segment.compact) := by
  have hsegments : compactSegment o = Segment.compact ∘ segmentOf o :=
    funext fun l => compactSegment_eq o l
  rw [compact, segmentsOf, List.map_map, hsegments]

theorem report_eq :
    report o d = headerOf o d.version (segmentsOf o d)
      ++ (if (segmentsOf o d).any Segment.marked then dynamicNote else "")
      ++ ("## " ++ o.rootLabel ++ "\n\n") ++ String.join ((segmentsOf o d).map Segment.report)
      ++ footerOf (segmentsOf o d) := by
  have hsegments : reportSegment o = Segment.report ∘ segmentOf o :=
    funext fun l => reportSegment_eq o l
  rw [report, reportHeader_eq, reportFooter_eq o d, ← any_marked_segmentsOf, hsegments,
    ← List.map_map]
  simp only [segmentsOf, String.append_assoc]

/-- What comes behind the header begins like the note only if it is the note. -/
theorem header_note_prefix_report_iff :
    (headerOf o d.version (segmentsOf o d) ++ dynamicNote).toList <+: (report o d).toList ↔
      (segmentsOf o d).any Segment.marked = true := by
  rw [report_eq, String.append_assoc, String.append_assoc, String.append_assoc,
    String.toList_append, String.toList_append, List.prefix_append_right_inj]
  split
  case isTrue hmarked =>
    rw [String.toList_append]
    exact iff_of_true (List.prefix_append _ _) hmarked
  case isFalse hmarked =>
    refine iff_of_false (fun hnote => ?_) hmarked
    -- the title comes instead, and it begins otherwise
    obtain ⟨rest, hrest⟩ := hnote
    simp [dynamicNote] at hrest

/-- **Both formats show the same tree.** -/
theorem inStep_segmentsOf : InStep o d (segmentsOf o d) := by
  refine ⟨?_, ?_, ?_, compact_eq o d, report_eq o d, ?_⟩
  · rw [segmentsOf, List.map_map]
    exact List.map_id _
  · intro s hs id
    obtain ⟨l, -, rfl⟩ := List.mem_map.1 hs
    exact segmentOf_id_eq_some_iff o l id
  · intro s hs
    obtain ⟨l, -, rfl⟩ := List.mem_map.1 hs
    exact segmentOf_marked_iff o l
  · rw [← List.any_eq_true]
    exact header_note_prefix_report_iff o d

end HotkeyTree.Rendering
