import HotkeyTree.Proofs.Rendering.Compact

/-!
# Proofs: how many lines the compact tree has

The segment of an entry ends in a line feed, but it also shows the key and the name of the entry as
they are. So there is one line for the root and one for each entry, and one more for every line feed
in a key or a name. The keys and names of a document that was read can be any texts.
-/

namespace HotkeyTree

namespace Text

/-- The lines of a text. A line feed at the end ends the last line and does not begin another. -/
def lines (text : String) : List (List Char) :=
  let parts := text.toList.splitOn '\n'
  if parts.getLast? = some [] then parts.dropLast else parts

theorem length_splitOn {α : Type} [BEq α] [LawfulBEq α] (a : α) (cs : List α) :
    (cs.splitOn a).length = cs.count a + 1 := by
  induction cs with
  | nil => simp
  | cons c cs ih =>
    rw [List.splitOn_cons_eq_if_modifyHead, List.count_cons]
    split
    · rw [List.length_cons, ih]
    · rw [List.length_modifyHead, ih, Nat.add_zero]

/-- A text that ends in a line feed has as many lines as line feeds. -/
theorem length_lines {text : String} {cs : List Char} (h : text.toList = cs ++ ['\n']) :
    (lines text).length = text.toList.count '\n' := by
  have hparts : text.toList.splitOn '\n' = cs.splitOn '\n' ++ [[]] := by
    rw [h, List.splitOn_append_cons_self, List.splitOn_nil]
  rw [lines, hparts, List.getLast?_concat, if_pos rfl, List.dropLast_concat, length_splitOn, h]
  simp

end Text

namespace Rendering

open Outline

/-- The line feeds in what a line shows as it is. -/
def lineFeedsShown (l : Line) : Nat := l.key.toList.count '\n' + l.name.toList.count '\n'

theorem count_compactSegment (o : Options) (l : Line) :
    (compactSegment o l).toList.count '\n' = 1 + lineFeedsShown l := by
  rw [toList_compactSegment]
  simp only [List.count_append, List.count_cons, List.count_replicate, count_lineFeed_afterKey,
    lineFeedsShown]
  simp
  omega

/-- The line feeds of a compact tree, whatever annotations are shown. -/
theorem count_compact (o : Options) (d : Document) :
    (compact o d).toList.count '\n' = o.rootLabel.toList.count '\n' + 1 +
      ((ofCategories d.categories).length +
        ((ofCategories d.categories).map lineFeedsShown).sum) := by
  have hsegments : ∀ ls : List Line,
      (ls.flatMap fun l => (compactSegment o l).toList).count '\n' =
        ls.length + (ls.map lineFeedsShown).sum := by
    intro ls
    induction ls with
    | nil => rfl
    | cons l ls ih =>
      rw [List.flatMap_cons, List.count_append, count_compactSegment, ih, List.length_cons,
        List.map_cons, List.sum_cons]
      omega
  rw [compact]
  simp only [String.toList_append, String.toList_join, List.flatMap_map, List.count_append,
    hsegments]
  simp

/-- The compact tree ends in a line feed. -/
theorem exists_compact_eq_concat (o : Options) (d : Document) :
    ∃ cs, (compact o d).toList = cs ++ ['\n'] := by
  rw [compact, String.toList_append, String.toList_join, List.flatMap_map]
  rcases List.eq_nil_or_concat (ofCategories d.categories) with hnil | ⟨ls, l, hlast⟩
  · rw [hnil, List.flatMap_nil, List.append_nil]
    exact ⟨'`' :: o.rootLabel.toList ++ ['`'], by simp⟩
  · rw [hlast, List.concat_eq_append, List.flatMap_append, List.flatMap_singleton,
      toList_compactSegment, ← List.append_assoc, ← List.append_assoc]
    exact ⟨_, rfl⟩

/-- **How many lines the compact tree has**: one for the root, one for each entry, and one for each
line feed in a key or a name. So it is one for each entry exactly if no key or name has one. -/
theorem length_lines_compact (d : Document) :
    (Text.lines (compact {} d)).length = (ofCategories d.categories).length + 1 +
        ((ofCategories d.categories).map lineFeedsShown).sum ∧
      ((Text.lines (compact {} d)).length = (ofCategories d.categories).length + 1 ↔
        ∀ l ∈ ofCategories d.categories, '\n' ∉ l.key.toList ∧ '\n' ∉ l.name.toList) := by
  have hlines : (Text.lines (compact {} d)).length = (ofCategories d.categories).length + 1 +
      ((ofCategories d.categories).map lineFeedsShown).sum := by
    have hroot : (defaultRoot.toList).count '\n' = 0 := by decide
    obtain ⟨cs, hcs⟩ := exists_compact_eq_concat {} d
    rw [Text.length_lines hcs, count_compact, hroot]
    omega
  refine ⟨hlines, ?_⟩
  rw [hlines, Nat.add_eq_left, List.sum_eq_zero_iff_forall_eq_nat, List.forall_mem_map]
  simp only [lineFeedsShown, Nat.add_eq_zero_iff, List.count_eq_zero]

/-- A document with one category, whose name has a line feed in it. -/
def brokenNameText : String :=
  "\x7b\"version\":\"\",\"generatedFrom\":\"\",\"note\":\"\",\"categories\":\x7b" ++
    "\"a\":\x7b\"name\":\"A\\nB\",\"key\":\"a\",\"sourceIdentifier\":\"a\"\x7d\x7d\x7d"

/-- The one entry of the document takes two lines. -/
theorem length_lines_brokenNameText : ∃ d, Document.read? brokenNameText = some d ∧
    (ofCategories d.categories).length = 1 ∧ (Text.lines (compact {} d)).length = 3 := by
  have hchars : brokenNameText.toList = _ :=
    String.toList_append.trans (congrArg₂ _ String.toList_ofList String.toList_ofList)
  have hread : (Document.read? brokenNameText).map
      (fun d => ((ofCategories d.categories).length, (Text.lines (compact {} d)).length)) =
        some (1, 3) := by
    rw [Document.read?, Json.parse?, Json.parse, hchars]
    decide +kernel
  obtain ⟨d, hd, hlengths⟩ := Option.map_eq_some_iff.1 hread
  obtain ⟨hentries, hlines⟩ := Prod.mk.inj hlengths
  exact ⟨d, hd, hentries, hlines⟩

end Rendering

end HotkeyTree
