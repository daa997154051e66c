import HotkeyTree.Outline
import HotkeyTree.Proofs.Tree
import HotkeyTree.Statistics
import Mathlib.Algebra.GroupWithZero.Nat

/-!
# Proofs: statistics and outline agree

The numbers of a tree are added up by one recursion over it, its lines are listed by another. Here
the lines are counted: those of a group have the tally of the group, at any depth, so those of a
category have the tally of the category, and where the next category begins can be told from the
lines alone.
-/

namespace HotkeyTree

namespace Outline

def Line.isCategory (l : Line) : Bool := l.kind == .category

def Line.isShortcut (l : Line) : Bool :=
  match l.kind with
  | .shortcut .. => true
  | _ => false

def Line.isDynamicShortcut (l : Line) : Bool :=
  match l.kind with
  | .shortcut _ dynamic => dynamic
  | _ => false

/-- What is counted in some lines. -/
def tally (lines : List Line) : Tally :=
  ⟨lines.countP Line.isShortcut, lines.countP Line.isDynamicShortcut⟩

/-- The line of a category with the lines after it, up to the next category. -/
structure Block where
  head : Line
  below : List Line
deriving DecidableEq, Repr

/-- The blocks that some lines are made of. -/
def blocks : List Line → List Block
  | [] => []
  | l :: ls =>
    if l.isCategory then ⟨l, ls.takeWhile (!·.isCategory)⟩ :: blocks ls else blocks ls

/-! ## Counting lines -/

theorem tally_append (ls ls' : List Line) : tally (ls ++ ls') = tally ls + tally ls' := by
  unfold tally
  rw [List.countP_append, List.countP_append]
  rfl

theorem tally_flatMap {α : Type} (lines : α → List Line) (as : List α) :
    tally (as.flatMap lines) = (as.map fun a => tally (lines a)).sum := by
  induction as with
  | nil => rfl
  | cons a as ih => rw [List.flatMap_cons, tally_append, ih, List.map_cons, List.sum_cons]

theorem tally_ofShortcut (depth : Nat) (s : Shortcut) :
    tally [ofShortcut depth s] = Tally.ofShortcut s := by
  cases h : s.isDynamic <;>
    simp [tally, ofShortcut, Line.isShortcut, Line.isDynamicShortcut, Tally.ofShortcut, h]

theorem tally_map_ofShortcut (depth : Nat) (m : Keyed Shortcut) :
    tally (m.map fun e => ofShortcut depth e.2) = (m.map fun e => Tally.ofShortcut e.2).sum := by
  induction m with
  | nil => rfl
  | cons e m ih =>
    rw [List.map_cons, ← List.singleton_append, tally_append, ih, tally_ofShortcut, List.map_cons,
      List.sum_cons]

/-- Lines and tallies of the slots of a group agree if those of the entries in them do. -/
theorem tally_ofSlots {es : List (String × Entry)}
    (h : ∀ slot ∈ es, ∀ depth, tally (ofEntry depth slot.2) = Tally.ofEntry slot.2) (depth : Nat) :
    tally (ofSlots depth es) = Tally.ofSlots es := by
  induction es with
  | nil => rfl
  | cons slot es ih =>
    obtain ⟨k, e⟩ := slot
    have he := h (k, e) List.mem_cons_self depth
    have hes := ih fun slot hslot => h slot (List.mem_cons_of_mem _ hslot)
    show tally (ofEntry depth e ++ ofSlots depth es) = Tally.ofEntry e + Tally.ofSlots es
    rw [tally_append, he, hes]

theorem tally_ofEntry (e : Entry) : ∀ depth, tally (ofEntry depth e) = Tally.ofEntry e := by
  induction e using Entry.induction with
  | shortcut s => exact fun depth => tally_ofShortcut depth s
  | group g ih =>
    obtain ⟨name, key, sourceIdentifier, entries⟩ := g
    intro depth
    -- the line of the group itself is not counted
    show tally (ofSlots (depth + 1) entries) = Tally.ofSlots entries
    exact tally_ofSlots ih (depth + 1)

/-- The lines of a category after its own. -/
def below (c : Category) : List Line :=
  (c.shortcuts.map fun e => ofShortcut 1 e.2) ++ c.subgroups.flatMap fun e => ofGroup 1 e.2

theorem tally_below (c : Category) : tally (below c) = Tally.ofCategory c := by
  have hgroups : (c.subgroups.map fun e => tally (ofGroup 1 e.2)) =
      c.subgroups.map fun e => Tally.ofGroup e.2 :=
    List.map_congr_left fun e _ => tally_ofEntry (.group e.2) 1
  rw [below, tally_append, tally_map_ofShortcut, tally_flatMap, hgroups, Tally.ofCategory]

/-! ## Telling categories apart -/

theorem isCategory_eq_false_of_mem_ofSlots {es : List (String × Entry)}
    (h : ∀ slot ∈ es, ∀ depth, ∀ l ∈ ofEntry depth slot.2, l.isCategory = false) {depth : Nat}
    {l : Line} (hl : l ∈ ofSlots depth es) : l.isCategory = false := by
  induction es with
  | nil => exact absurd hl List.not_mem_nil
  | cons slot es ih =>
    obtain ⟨k, e⟩ := slot
    rcases List.mem_append.1 hl with hl | hl
    · exact h (k, e) List.mem_cons_self depth l hl
    · exact ih (fun slot hslot => h slot (List.mem_cons_of_mem _ hslot)) hl

theorem isCategory_eq_false_of_mem_ofEntry (e : Entry) :
    ∀ depth, ∀ l ∈ ofEntry depth e, l.isCategory = false := by
  induction e using Entry.induction with
  | shortcut s =>
    intro depth l hl
    rw [ofEntry, List.mem_singleton] at hl
    rw [hl]
    rfl
  | group g ih =>
    obtain ⟨name, key, sourceIdentifier, entries⟩ := g
    intro depth l hl
    rcases List.mem_cons.1 hl with rfl | hl
    · rfl
    · exact isCategory_eq_false_of_mem_ofSlots ih hl

theorem isCategory_eq_false_of_mem_below {c : Category} {l : Line} (hl : l ∈ below c) :
    l.isCategory = false := by
  rcases List.mem_append.1 hl with hl | hl
  · obtain ⟨e, -, rfl⟩ := List.mem_map.1 hl
    rfl
  · obtain ⟨e, -, hl⟩ := List.mem_flatMap.1 hl
    exact isCategory_eq_false_of_mem_ofEntry (.group e.2) 1 l hl

/-- Lines that are no categories begin no block. -/
theorem blocks_append {ls : List Line} (h : ∀ l ∈ ls, l.isCategory = false) (ls' : List Line) :
    blocks (ls ++ ls') = blocks ls' := by
  induction ls with
  | nil => rfl
  | cons l ls ih =>
    have hl := h l List.mem_cons_self
    rw [List.cons_append, blocks, hl, if_neg Bool.false_ne_true]
    exact ih fun l' hl' => h l' (List.mem_cons_of_mem _ hl')

def categoryLine (c : Category) : Line := ⟨0, c.key, c.name, .category⟩

/-- The lines of a tree after those of a category are none, or begin with one of a category. -/
theorem takeWhile_below_append (c : Category) (m : Keyed Category) :
    (below c ++ ofCategories m).takeWhile (!·.isCategory) = below c := by
  have hbelow : ∀ l ∈ below c, (!l.isCategory) = true := by
    intro l hl
    rw [isCategory_eq_false_of_mem_below hl]
    rfl
  rw [List.takeWhile_append_of_pos hbelow]
  cases m with
  | nil => exact List.append_nil _
  | cons e m => exact List.append_nil _

/-- The lines of a tree fall into one block for each category. -/
theorem blocks_ofCategories (m : Keyed Category) :
    blocks (ofCategories m) = m.map fun e => ⟨categoryLine e.2, below e.2⟩ := by
  induction m with
  | nil => rfl
  | cons e m ih =>
    show blocks (categoryLine e.2 :: (below e.2 ++ ofCategories m)) = _
    have hline : (categoryLine e.2).isCategory = true := rfl
    rw [blocks, if_pos hline, takeWhile_below_append,
      blocks_append fun _ => isCategory_eq_false_of_mem_below, ih, List.map_cons]

theorem countP_isCategory (ls : List Line) : ls.countP Line.isCategory = (blocks ls).length := by
  induction ls with
  | nil => rfl
  | cons l ls ih => by_cases h : l.isCategory = true <;> simp [blocks, h, ih]

end Outline

open Outline

/-! ## The numbers of a tree -/

namespace Tally

theorem shortcuts_sum (ts : List Tally) : ts.sum.shortcuts = (ts.map Tally.shortcuts).sum := by
  induction ts with
  | nil => rfl
  | cons t ts ih =>
    rw [List.sum_cons, List.map_cons, List.sum_cons, ← ih]
    rfl

theorem dynamic_sum (ts : List Tally) : ts.sum.dynamic = (ts.map Tally.dynamic).sum := by
  induction ts with
  | nil => rfl
  | cons t ts ih =>
    rw [List.sum_cons, List.map_cons, List.sum_cons, ← ih]
    rfl

end Tally

/-- A line of a dynamic shortcut is a line of a shortcut. -/
theorem Outline.dynamic_tally_le (ls : List Line) : (tally ls).dynamic ≤ (tally ls).shortcuts := by
  refine List.countP_mono_left fun l _ hl => ?_
  unfold Line.isDynamicShortcut at hl
  unfold Line.isShortcut
  split at hl
  · rfl
  · exact absurd hl Bool.false_ne_true

namespace Statistics

/-- What the numbers of a tree have to do with its lines. -/
structure Agree (m : Keyed Category) : Prop where
  shortcuts : (ofCategories m).total.shortcuts =
    (Outline.ofCategories m).countP Line.isShortcut
  dynamic : (ofCategories m).total.dynamic =
    (Outline.ofCategories m).countP Line.isDynamicShortcut
  categories : (ofCategories m).categories = (Outline.ofCategories m).countP Line.isCategory
  keys : (ofCategories m).perCategory.map CategoryTally.key = m.map fun e => e.2.key
  /-- Every category has the numbers of its block of lines. -/
  blocks : (ofCategories m).perCategory =
    (Outline.blocks (Outline.ofCategories m)).map fun b => ⟨b.head.key, tally b.below⟩
  shortcuts_sum : (ofCategories m).total.shortcuts =
    ((ofCategories m).perCategory.map fun c => c.tally.shortcuts).sum
  dynamic_sum : (ofCategories m).total.dynamic =
    ((ofCategories m).perCategory.map fun c => c.tally.dynamic).sum
  dynamic_le : (ofCategories m).total.dynamic ≤ (ofCategories m).total.shortcuts
  category_dynamic_le : ∀ c ∈ (ofCategories m).perCategory, c.tally.dynamic ≤ c.tally.shortcuts
  anyDynamic_iff : anyDynamic m = true ↔ 0 < (ofCategories m).total.dynamic

theorem total_eq_sum (m : Keyed Category) :
    (ofCategories m).total = ((ofCategories m).perCategory.map CategoryTally.tally).sum := rfl

theorem perCategory_eq (m : Keyed Category) :
    (ofCategories m).perCategory =
      (Outline.blocks (Outline.ofCategories m)).map fun b => ⟨b.head.key, tally b.below⟩ := by
  rw [blocks_ofCategories, List.map_map]
  refine List.map_congr_left fun e _ => ?_
  show (⟨e.2.key, Tally.ofCategory e.2⟩ : CategoryTally) = ⟨e.2.key, tally (below e.2)⟩
  rw [tally_below]

/-- All lines together have the total: the line of a category counts nothing itself. -/
theorem total_eq_tally (m : Keyed Category) :
    (ofCategories m).total = tally (Outline.ofCategories m) := by
  have hlines : ∀ c, tally (Outline.ofCategory c) = Tally.ofCategory c := tally_below
  show ((m.map fun e => (⟨e.2.key, Tally.ofCategory e.2⟩ : CategoryTally)).map
    CategoryTally.tally).sum = _
  rw [Outline.ofCategories, tally_flatMap, List.map_map]
  exact congrArg List.sum (List.map_congr_left fun e _ => (hlines e.2).symm)

theorem anyDynamic_eq_true_iff (m : Keyed Category) :
    anyDynamic m = true ↔ 0 < (ofCategories m).total.dynamic := by
  have hsum : (ofCategories m).total.dynamic =
      (m.map fun e => (Tally.ofCategory e.2).dynamic).sum := by
    rw [total_eq_sum, Tally.dynamic_sum]
    show (((m.map _).map _).map _).sum = _
    rw [List.map_map, List.map_map]
    rfl
  rw [hsum, List.sum_pos_iff_exists_pos_nat]
  unfold anyDynamic
  simp

/-- **The numbers of a tree are those of its lines**, in total and block by block. -/
theorem agree_ofCategories (m : Keyed Category) : Agree m := by
  have htotal := total_eq_tally m
  have hle := Outline.dynamic_tally_le (Outline.ofCategories m)
  rw [← htotal] at hle
  refine ⟨?_, ?_, ?_, ?_, perCategory_eq m, ?_, ?_, hle, ?_, anyDynamic_eq_true_iff m⟩
  · rw [htotal]
    rfl
  · rw [htotal]
    rfl
  · rw [countP_isCategory, blocks_ofCategories, List.length_map]
    rfl
  · show (m.map _).map _ = _
    rw [List.map_map]
    rfl
  · rw [total_eq_sum, Tally.shortcuts_sum, List.map_map]
    rfl
  · rw [total_eq_sum, Tally.dynamic_sum, List.map_map]
    rfl
  · intro c hc
    rw [perCategory_eq] at hc
    obtain ⟨b, -, rfl⟩ := List.mem_map.1 hc
    exact Outline.dynamic_tally_le b.below

end Statistics

end HotkeyTree
