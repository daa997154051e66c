import HotkeyTree.Program
import HotkeyTree.Proofs.Outline
import HotkeyTree.Proofs.Spelling
import HotkeyTree.Rendering
import Mathlib

/-!
# Proofs: the compact tree can be read back

A name is shown as it is, and it may look like any mark of the format. Still a line can be read: its
indentation and its key from the front, since no key has a quote in it, its mark and its id from the
end, and what is left between them is the name. Only a line feed in a name would be taken for the
end of the line. So the compact tree of a forest whose names have none tells everything that the
outline tells, and with it the tree.
-/

namespace HotkeyTree

/-! ## Cutting at a character -/

section Cutting

variable {α : Type} {a : α} {xs ys zs ws : List α}

theorem append_cons_inj (hxs : a ∉ xs) (hys : a ∉ ys) (h : xs ++ a :: zs = ys ++ a :: ws) :
    xs = ys ∧ zs = ws := by
  induction xs generalizing ys with
  | nil =>
    cases ys with
    | nil => exact ⟨rfl, (List.cons.inj h).2⟩
    | cons y ys => exact absurd ((List.cons.inj h).1 ▸ List.mem_cons_self) hys
  | cons x xs ih =>
    cases ys with
    | nil => exact absurd ((List.cons.inj h).1.symm ▸ List.mem_cons_self) hxs
    | cons y ys =>
      obtain ⟨rfl, htail⟩ := List.cons.inj h
      obtain ⟨rfl, hrest⟩ := ih (fun hmem => hxs (List.mem_cons_of_mem _ hmem))
        (fun hmem => hys (List.mem_cons_of_mem _ hmem)) htail
      exact ⟨rfl, hrest⟩

theorem append_cons_inj_right (hzs : a ∉ zs) (hws : a ∉ ws) (h : xs ++ a :: zs = ys ++ a :: ws) :
    xs = ys ∧ zs = ws := by
  have hreverse : zs.reverse ++ a :: xs.reverse = ws.reverse ++ a :: ys.reverse := by
    simpa using congrArg List.reverse h
  obtain ⟨hend, hfront⟩ := append_cons_inj (by simpa using hzs) (by simpa using hws) hreverse
  exact ⟨List.reverse_injective hfront, List.reverse_injective hend⟩

end Cutting

/-! ## Numbers -/

/-- A number is written with digits, and a sign before them. -/
theorem eq_or_isKeyChar_of_mem_toString {i : Int} {c : Char} (hc : c ∈ (toString i).toList) :
    c = '-' ∨ Text.isKeyChar c = true := by
  cases i with
  | ofNat n => exact Or.inr (plainKey_toString n c hc)
  | negSucc n =>
    change c ∈ ("-" ++ toString (n + 1)).toList at hc
    rw [String.toList_append] at hc
    rcases List.mem_append.1 hc with hc | hc
    · exact Or.inl (by simpa using hc)
    · exact Or.inr (plainKey_toString (n + 1) c hc)

namespace Rendering

open Outline

/-! ## Reading a line -/

/-- A line that can be read off its text. -/
structure Legible (l : Line) : Prop where
  quote_notMem_key : '`' ∉ l.key.toList
  lineFeed_notMem_key : '\n' ∉ l.key.toList
  lineFeed_notMem_name : '\n' ∉ l.name.toList
  /-- Categories and groups are written alike, but not at the same depth. -/
  depth_eq_zero_iff : l.depth = 0 ↔ l.kind = .category

/-- What stands behind the key of a line. -/
def afterKey (o : Options) (l : Line) : List Char :=
  match l.kind with
  | .shortcut id dynamic =>
    " - **".toList ++ l.name.toList ++ "**".toList ++ (idText o id).toList
      ++ (dynamicText o compactMark dynamic).toList
  | _ => " (**".toList ++ l.name.toList ++ "**)".toList

theorem toList_compactSegment (o : Options) (l : Line) :
    (compactSegment o l).toList = (List.replicate (2 * (l.depth + 1)) ' '
      ++ '-' :: ' ' :: '`' :: (l.key.toList ++ '`' :: afterKey o l)) ++ ['\n'] := by
  obtain ⟨depth, key, name, kind⟩ := l
  cases kind <;> simp [compactSegment, compactText, indent, afterKey]

variable {o : Options}

theorem toList_idText (hids : o.showIds = true) (id : Int64) :
    (idText o id).toList = " (ID:".toList ++ ' ' :: ((toString id.toInt).toList ++ [')']) := by
  simp [idText, hids]

/-- The end of the line of a shortcut tells whether it is dynamic, and its id. -/
theorem idText_dynamicText_inj (hids : o.showIds = true) (hdynamic : o.showDynamic = true)
    {front front' : List Char} {id id' : Int64} {dynamic dynamic' : Bool}
    (h : front ++ (idText o id).toList ++ (dynamicText o compactMark dynamic).toList =
      front' ++ (idText o id').toList ++ (dynamicText o compactMark dynamic').toList) :
    front = front' ∧ id = id' ∧ dynamic = dynamic' := by
  have hspace : ∀ i : Int, ' ' ∉ (toString i).toList := by
    intro i hmem
    exact absurd (eq_or_isKeyChar_of_mem_toString hmem) (by decide)
  have hlast : ∀ (front : List Char) (id : Int64) (dynamic : Bool),
      (front ++ (idText o id).toList ++ (dynamicText o compactMark dynamic).toList).getLast? =
        some (if dynamic then ']' else ')') := by
    intro front id dynamic
    cases dynamic <;>
      simp [dynamicText, compactMark, hdynamic, toList_idText hids, List.getLast?_cons]
  have hmarks : dynamic = dynamic' := by
    have hchars := congrArg List.getLast? h
    rw [hlast, hlast] at hchars
    cases dynamic <;> cases dynamic' <;> simp at hchars <;> rfl
  subst hmarks
  have hfront := List.append_cancel_right h
  rw [toList_idText hids, toList_idText hids, ← List.append_assoc, ← List.append_assoc,
    ← List.cons_append, ← List.cons_append, ← List.append_assoc, ← List.append_assoc] at hfront
  obtain ⟨hname, hdigits⟩ :=
    append_cons_inj_right (hspace _) (hspace _) (List.append_cancel_right hfront)
  have hid := Int.repr_injective (String.toList_injective hdigits)
  exact ⟨List.append_cancel_right hname, Int64.toInt_inj.1 hid, rfl⟩

/-- What stands behind the key tells the name, and of a shortcut everything else too. -/
theorem afterKey_inj (hids : o.showIds = true) (hdynamic : o.showDynamic = true) {l l' : Line}
    (h : afterKey o l = afterKey o l') :
    l.name = l'.name ∧ (l.kind = l'.kind ∨ l.isShortcut = false ∧ l'.isShortcut = false) := by
  obtain ⟨depth, key, name, kind⟩ := l
  obtain ⟨depth', key', name', kind'⟩ := l'
  -- the second character tells a shortcut from the rest
  have hsecond := congrArg (fun cs => cs[1]?) h
  have hshortcut : ∀ {id id' : Int64} {dynamic dynamic' : Bool},
      afterKey o ⟨depth, key, name, .shortcut id dynamic⟩ =
        afterKey o ⟨depth', key', name', .shortcut id' dynamic'⟩ →
      name = name' ∧ Kind.shortcut id dynamic = .shortcut id' dynamic' := by
    intro id id' dynamic dynamic' h
    obtain ⟨hfront, rfl, rfl⟩ := idText_dynamicText_inj hids hdynamic h
    have hname := List.append_cancel_left (List.append_cancel_right hfront)
    exact ⟨String.toList_injective hname, rfl⟩
  have hother : " (**".toList ++ name.toList ++ "**)".toList =
      " (**".toList ++ name'.toList ++ "**)".toList → name = name' := fun h =>
    String.toList_injective (List.append_cancel_left (List.append_cancel_right h))
  cases kind with
  | shortcut id dynamic =>
    cases kind' with
    | shortcut id' dynamic' =>
      obtain ⟨hname, hkind⟩ := hshortcut h
      exact ⟨hname, Or.inl hkind⟩
    | category | group => simp [afterKey] at hsecond
  | category | group =>
    cases kind' with
    | shortcut id' dynamic' => simp [afterKey] at hsecond
    | category | group => exact ⟨hother h, Or.inr ⟨rfl, rfl⟩⟩

theorem lineFeed_notMem_idText (id : Int64) : '\n' ∉ (idText o id).toList := by
  have hdigits : '\n' ∉ (toString id.toInt).toList := by
    intro hmem
    exact absurd (eq_or_isKeyChar_of_mem_toString hmem) (by decide)
  unfold idText
  split
  · simpa using hdigits
  · decide

theorem lineFeed_notMem_dynamicText (dynamic : Bool) :
    '\n' ∉ (dynamicText o compactMark dynamic).toList := by
  unfold dynamicText
  split <;> decide

theorem count_lineFeed_afterKey (l : Line) :
    (afterKey o l).count '\n' = l.name.toList.count '\n' := by
  obtain ⟨depth, key, name, kind⟩ := l
  cases kind with
  | category | group => simp [afterKey]
  | shortcut id dynamic =>
    have hid := List.count_eq_zero.2 (lineFeed_notMem_idText (o := o) id)
    have hmark := List.count_eq_zero.2 (lineFeed_notMem_dynamicText (o := o) dynamic)
    simp [afterKey, hid, hmark]

theorem lineFeed_notMem_afterKey {l : Line} (hl : '\n' ∉ l.name.toList) :
    '\n' ∉ afterKey o l := by
  rw [← List.count_eq_zero, count_lineFeed_afterKey]
  exact List.count_eq_zero.2 hl

/-- **A line can be read off its text**, whatever comes after it. -/
theorem compactSegment_append_inj (hids : o.showIds = true) (hdynamic : o.showDynamic = true)
    {l l' : Line} (hl : Legible l) (hl' : Legible l') {rest rest' : List Char}
    (h : (compactSegment o l).toList ++ rest = (compactSegment o l').toList ++ rest') :
    l = l' ∧ rest = rest' := by
  have hbody : ∀ {l : Line}, Legible l → '\n' ∉ List.replicate (2 * (l.depth + 1)) ' '
      ++ '-' :: ' ' :: '`' :: (l.key.toList ++ '`' :: afterKey o l) := by
    intro l hl
    have hkey := hl.lineFeed_notMem_key
    have hafter := lineFeed_notMem_afterKey (o := o) hl.lineFeed_notMem_name
    simp [hkey, hafter]
  have hspaces : ∀ n, '-' ∉ List.replicate n ' ' := by simp
  rw [toList_compactSegment, toList_compactSegment, ← List.append_cons, ← List.append_cons] at h
  obtain ⟨hline, hrest⟩ := append_cons_inj (hbody hl) (hbody hl') h
  obtain ⟨hindent, htext⟩ := append_cons_inj (hspaces _) (hspaces _) hline
  obtain ⟨hkey, hafter⟩ := append_cons_inj hl.quote_notMem_key hl'.quote_notMem_key
    (List.cons.inj (List.cons.inj htext).2).2
  have hdepth : l.depth = l'.depth := by
    have hlength := congrArg List.length hindent
    simp only [List.length_replicate] at hlength
    omega
  obtain ⟨hname, hkind⟩ := afterKey_inj hids hdynamic hafter
  have hkinds : l.kind = l'.kind := by
    rcases hkind with hkind | ⟨hno, hno'⟩
    · exact hkind
    · have hcategory := hl.depth_eq_zero_iff
      have hcategory' := hl'.depth_eq_zero_iff
      rw [hdepth, hcategory'] at hcategory
      unfold Line.isShortcut at hno hno'
      cases hk : l.kind <;> cases hk' : l'.kind <;> simp_all
  obtain ⟨depth, key, name, kind⟩ := l
  obtain ⟨depth', key', name', kind'⟩ := l'
  obtain rfl : depth = depth' := hdepth
  obtain rfl : key = key' := String.toList_injective hkey
  obtain rfl : name = name' := hname
  obtain rfl : kind = kind' := hkinds
  exact ⟨rfl, hrest⟩

/-- Legible lines can be read off the compact tree. -/
theorem ofCategories_eq_of_compact_eq (hids : o.showIds = true) (hdynamic : o.showDynamic = true)
    {d d' : Document} (hd : ∀ l ∈ ofCategories d.categories, Legible l)
    (hd' : ∀ l ∈ ofCategories d'.categories, Legible l) (h : compact o d = compact o d') :
    ofCategories d.categories = ofCategories d'.categories := by
  have hsegments :
      ((ofCategories d.categories).flatMap fun l => (compactSegment o l).toList) ++ [] =
      ((ofCategories d'.categories).flatMap fun l => (compactSegment o l).toList) ++ [] := by
    have hchars := congrArg String.toList h
    simp only [compact, String.toList_append, String.toList_join, List.flatMap_map] at hchars
    rw [List.append_nil, List.append_nil]
    exact List.append_cancel_left hchars
  have hlines := (flatMap_append_inj (P := Legible) (Q := Legible) id (fun _ => True) (· = [])
    (fun _ _ => trivial) (fun _ _ => trivial)
    (fun l rest hnil => by simp [toList_compactSegment] at hnil)
    (fun l l' rest rest' hl hl' _ _ => compactSegment_append_inj hids hdynamic hl hl')
    hd hd' rfl rfl hsegments).1
  rwa [List.map_id, List.map_id] at hlines

end Rendering

/-! ## Names and keys of built trees -/

namespace DisplayName

/-- Cleaning a name adds nothing to it. -/
theorem mem_of_mem_unmark {cs : List Char} {c : Char} (h : c ∈ unmark cs) : c ∈ cs := by
  fun_induction unmark cs with
  | case1 cs hmarker ih => exact List.mem_of_mem_drop ((List.dropWhile_sublist _).subset (ih h))
  | case2 cs hmarker => exact h

end DisplayName

namespace Build

open Outline

variable {ns : List Node}

/-- What is stored of nodes is named after one of them. -/
theorem exists_named_node {α : Type} [HasKey α] [Labelled α] {hints : α → Keyed.Hints}
    {make : Node → Option α} {nodes : List Node} (hnodes : ∀ n ∈ nodes, Node.In ns n)
    (hmake : ∀ n a, make n = some a → ∃ name, n.nonEmptyName = some name ∧
      Labelled.name a = DisplayName.clean name) {scope : Scope} {hotkeyId : α → Option Int64}
    {i : Item} (hi : i ∈ (Keyed.insertAll hints [] (nodes.filterMap make)).items scope hotkeyId) :
    ∃ n, Node.In ns n ∧ ∃ name, n.name = some name ∧ i.label.name = DisplayName.clean name := by
  obtain ⟨k, b, hmem, rfl⟩ := Keyed.mem_items.1 hi
  obtain ⟨n, hn, a, hmade, hstores⟩ := exists_made hmem
  obtain ⟨name, hname, hclean⟩ := hmake n a hmade
  have hsame := hstores.apply_eq (f := Labelled.name) Labelled.name_withKey
  exact ⟨n, hnodes n hn, name, (Option.filter_eq_some_iff.1 hname).1, hsame.trans hclean⟩

/-- Every entry is named after a node. -/
theorem exists_name_of_mem_items {i : Item} (hi : i ∈ (ofNodes ns).items) :
    ∃ n, Node.In ns n ∧ ∃ name, n.name = some name ∧ i.label.name = DisplayName.clean name := by
  have hshortcut : ∀ n s, madeShortcut n = some s → ∃ name, n.nonEmptyName = some name ∧
      Labelled.name s = DisplayName.clean name := by
    intro n s hs
    obtain ⟨name, id, hname, -, -, -, hclean, -⟩ := madeShortcut_eq_some hs
    exact ⟨name, hname, hclean⟩
  have hgroup : ∀ n g, madeGroup n = some g → ∃ name, n.nonEmptyName = some name ∧
      Labelled.name g = DisplayName.clean name := by
    intro n g hg
    obtain ⟨name, hname, -, hclean, -⟩ := madeGroup_eq_some hg
    exact ⟨name, hname, hclean⟩
  have hentry : ∀ n e, madeEntry n = some e → ∃ name, n.nonEmptyName = some name ∧
      Labelled.name e = DisplayName.clean name := by
    intro n e he
    rcases madeEntry_eq_some he with ⟨s, rfl, hs⟩ | ⟨g, rfl, hg⟩
    · exact hshortcut n s hs
    · exact hgroup n g hg
  cases mem_items_iff.1 hi with
  | category h =>
    rw [categoryItems, ofNodes_categories] at h
    refine exists_named_node (fun n hn => .top hn) (fun n c hc => ?_) h
    obtain ⟨name, identifier, hname, -, -, rfl⟩ := madeCategory_eq_some hc
    exact ⟨name, hname, rfl⟩
  | shortcut hc h =>
    obtain ⟨n, hn, -, hshortcuts, -⟩ := exists_category_node hc
    rw [Category.shortcutItems, hshortcuts] at h
    exact exists_named_node (fun m hm => .child (.top hn) hm)
      (fun m s hs => hshortcut m s (directShortcut_eq_some hs)) h
  | subgroup hc h =>
    obtain ⟨n, hn, -, -, hsubgroups⟩ := exists_category_node hc
    rw [Category.subgroupItems, hsubgroups] at h
    exact exists_named_node (fun m hm => .child (.top hn) hm)
      (fun m g hg => hgroup m g (directGroup_eq_some hg)) h
  | entry hg h =>
    obtain ⟨n, hn, hentries, -⟩ := exists_group_node hg
    rw [Group.entryItems, hentries] at h
    exact exists_named_node (fun m hm => .child hn hm) hentry h

/-- Every line of a tree shows the stored key and the name of one of its entries. -/
theorem exists_item_of_standsFor {b : Build} (hb : OwnKeys b.categories) {l : Line}
    (h : StandsFor b.categories l) :
    ∃ i ∈ b.items, i.label.stored = l.key ∧ i.label.name = l.name := by
  cases h with
  | category hc =>
    have hitem := mem_items_iff.2 (.category (Keyed.mem_items.2 ⟨_, _, hc, rfl⟩))
    exact ⟨_, hitem, (hb.category hc).symm, rfl⟩
  | group hg _ =>
    cases hg with
    | subgroup hc hg =>
      have hitem := mem_items_iff.2 (.subgroup hc (Keyed.mem_items.2 ⟨_, _, hg, rfl⟩))
      exact ⟨_, hitem, (hb.subgroup hc hg).symm, rfl⟩
    | nested hg hg' =>
      have hitem := mem_items_iff.2 (.entry hg (Keyed.mem_items.2 ⟨_, _, hg', rfl⟩))
      exact ⟨_, hitem, (hb.entry hg hg').symm, rfl⟩
  | shortcut hs _ =>
    cases hs with
    | direct hc hs =>
      have hitem := mem_items_iff.2 (.shortcut hc (Keyed.mem_items.2 ⟨_, _, hs, rfl⟩))
      exact ⟨_, hitem, (hb.shortcut hc hs).symm, rfl⟩
    | nested hg hs =>
      have hitem := mem_items_iff.2 (.entry hg (Keyed.mem_items.2 ⟨_, _, hs, rfl⟩))
      exact ⟨_, hitem, (hb.entry hg hs).symm, rfl⟩

theorem ownKeys_ofNodes (ns : List Node) : OwnKeys (ofNodes ns).categories :=
  fun _ hl => (soundMapping_of_hasMapping hl).own_eq

/-- A stored key has only ASCII letters, digits and a sign in it. -/
theorem eq_or_isKeyChar_of_mem_items {i : Item} (hi : i ∈ (ofNodes ns).items) {c : Char}
    (hc : c ∈ i.label.stored.toList) : c = '-' ∨ Text.isKeyChar c = true := by
  refine forall_items_ofNodes (motive := fun i => ∀ c ∈ i.label.stored.toList,
    c = '-' ∨ Text.isKeyChar c = true) ns ?_ i hi c hc
  intro α _ _ _ scope hints hotkeyId as _ _ hmade i hi c hc
  obtain ⟨a, ha, m, -, -, hstored, -⟩ := exists_storedKey_of_mem_items hmade hi
  rw [hstored] at hc
  exact Keyed.eq_or_isKeyChar_of_mem_storedKey (hmade a ha) hc

/-- No name in a forest has a line feed in it. -/
def OneLineNames (ns : List Node) : Prop :=
  ∀ n, Node.In ns n → ∀ name ∈ n.name, '\n' ∉ name.toList

/-- The lines of a tree are legible if no name of the forest has a line feed in it. -/
theorem legible_of_mem_ofCategories (hns : OneLineNames ns) {l : Line}
    (hl : l ∈ ofCategories (ofNodes ns).categories) : Rendering.Legible l := by
  have hstands := standsFor_of_mem_ofCategories hl
  obtain ⟨i, hi, hkey, hname⟩ := exists_item_of_standsFor (ownKeys_ofNodes ns) hstands
  refine ⟨?_, ?_, ?_, ?_⟩
  · intro hmem
    rw [← hkey] at hmem
    exact absurd (eq_or_isKeyChar_of_mem_items hi hmem) (by decide)
  · intro hmem
    rw [← hkey] at hmem
    exact absurd (eq_or_isKeyChar_of_mem_items hi hmem) (by decide)
  · obtain ⟨n, hn, name, hnode, hclean⟩ := exists_name_of_mem_items hi
    rw [← hname, hclean, DisplayName.clean, String.toList_ofList]
    exact fun hmem => hns n hn name hnode (DisplayName.mem_of_mem_unmark hmem)
  · cases hstands with
    | category hc => simp [categoryLine]
    | group hg hdepth => simpa using Nat.one_le_iff_ne_zero.1 hdepth
    | shortcut hs hdepth => simpa [ofShortcut] using Nat.one_le_iff_ne_zero.1 hdepth

/-- **A compact tree that shows ids and marks determines the tree it was made of**: categories,
shortcuts and groups in their order and places, with their keys, names, ids and whether they are
dynamic. Names may have anything but line feeds in them. -/
theorem told_eq_of_compact_eq {ns ns' : List Node} (hns : OneLineNames ns)
    (hns' : OneLineNames ns') {o : Rendering.Options} (hids : o.showIds = true)
    (hdynamic : o.showDynamic = true) (s s' : BuildSettings)
    (h : Rendering.compact o (Program.documentOf s (ofNodes ns)) =
      Rendering.compact o (Program.documentOf s' (ofNodes ns'))) :
    (Program.documentOf s (ofNodes ns)).categories.told =
      (Program.documentOf s' (ofNodes ns')).categories.told := by
  have hlines := Rendering.ofCategories_eq_of_compact_eq hids hdynamic
    (fun _ hl => legible_of_mem_ofCategories hns hl)
    (fun _ hl => legible_of_mem_ofCategories hns' hl) h
  exact told_eq_of_ofCategories_eq (ownKeys_ofNodes ns) (ownKeys_ofNodes ns') hlines

/-- A category with a shortcut and a group whose names look like marks of the format, and what no
line tells of the shortcut. -/
def imitatingForest (identifier : String) (dynamic : Option Bool) : List Node :=
  [{ name := some "Fill** (ID: 5) [dynamic]"
     identifier := some identifier
     children := some
      [{ name := some "`a` - **b** (ID: 7)"
         hotkeyId := some (-3)
         dynamic
         key := some identifier },
       { name := some "G**)"
         children := some
          [{ name := some " [dynamic]", hotkeyId := some 2, dynamic := some true }] }] }]

theorem oneLineNames_imitatingForest (identifier : String) (dynamic : Option Bool) :
    OneLineNames (imitatingForest identifier dynamic) := by
  have hall : ∀ n, Node.In (imitatingForest identifier dynamic) n →
      (∀ name ∈ n.name, '\n' ∉ name.toList) ∧
        ∀ c ∈ n.childNodes, (∀ name ∈ c.name, '\n' ∉ name.toList) ∧
          ∀ c' ∈ c.childNodes, (∀ name ∈ c'.name, '\n' ∉ name.toList) ∧ c'.childNodes = [] := by
    intro n hn
    induction hn with
    | top h =>
      obtain rfl := List.mem_singleton.1 h
      simp [Node.childNodes]
    | child _ hc ih =>
      obtain ⟨hname, hbelow⟩ := ih.2 _ hc
      refine ⟨hname, fun c hc => ?_⟩
      obtain ⟨hname', hnil⟩ := hbelow c hc
      exact ⟨hname', by simp [hnil]⟩
  exact fun n hn => (hall n hn).1

theorem told_eq_imitatingForest :
    let d := Program.documentOf (.resolve {} {}) (ofNodes (imitatingForest "x" none))
    let d' := Program.documentOf (.resolve { version := some "1" } {})
      (ofNodes (imitatingForest "y.z" (some false)))
    Rendering.compact {} d = Rendering.compact {} d' ∧ d.categories.told = d'.categories.told := by
  intro d d'
  have h : Rendering.compact {} d = Rendering.compact {} d' := by decide +kernel
  exact ⟨h, told_eq_of_compact_eq (oneLineNames_imitatingForest _ _)
    (oneLineNames_imitatingForest _ _) rfl rfl _ _ h⟩

end Build

end HotkeyTree
