import HotkeyTree.Proofs.Document.RoundTrip
import HotkeyTree.Proofs.Soundness
import HotkeyTree.Rendering

/-!
# Proofs: which of the built documents can be read

The builder nests groups as deep as the nodes do, and the writer follows it, but the reader has a
limit. Every level of groups costs two open brackets, so a document can be read exactly if its
groups stand on at most 61 levels. A document that is built from any forest is read back, and shown
as it would be without the file, exactly then; a container nested once more is the smallest that is
not.
-/

namespace HotkeyTree

open Json

/-! ## Levels of groups -/

mutual

/-- On how many levels an entry has groups: none for a shortcut. -/
def Entry.levels : Entry → Nat
  | .shortcut _ => 0
  | .group g => g.levels
termination_by structural e => e

/-- On how many levels a group has groups, its own level included. -/
def Group.levels : Group → Nat
  | ⟨_, _, _, entries⟩ => Entry.levelsOfSlots entries + 1
termination_by structural g => g

/-- The greatest number of levels among entries. -/
def Entry.levelsOfSlots : List (String × Entry) → Nat
  | [] => 0
  | e :: es => max (Entry.levelsOfSlot e) (Entry.levelsOfSlots es)
termination_by structural es => es

/-- The number of levels of an entry under its key. -/
def Entry.levelsOfSlot : String × Entry → Nat
  | (_, e) => e.levels
termination_by structural e => e

end

/-- The greatest number of levels among groups. -/
def Category.levels (c : Category) : Nat := (c.subgroups.map fun e => e.2.levels).foldr max 0

/-- The greatest number of levels among categories. -/
def Document.levels (d : Document) : Nat := (d.categories.map fun e => e.2.levels).foldr max 0

theorem foldr_max_le {ns : List Nat} {n : Nat} : ns.foldr max 0 ≤ n ↔ ∀ m ∈ ns, m ≤ n := by
  induction ns with
  | nil => simp
  | cons m ns ih => rw [List.foldr_cons, Nat.max_le, ih, List.forall_mem_cons]

theorem Group.levels_le {g : Group} {n : Nat} :
    g.levels ≤ n + 1 ↔ ∀ e ∈ g.entries, e.2.levels ≤ n := by
  obtain ⟨name, key, ident, entries⟩ := g
  have hslots : Entry.levelsOfSlots entries ≤ n ↔ ∀ e ∈ entries, e.2.levels ≤ n := by
    induction entries with
    | nil => simp [Entry.levelsOfSlots]
    | cons e es ih =>
      obtain ⟨k, e⟩ := e
      rw [Entry.levelsOfSlots, Entry.levelsOfSlot, Nat.max_le, ih, List.forall_mem_cons]
  rw [levels, Nat.add_le_add_iff_right, hslots]

theorem Group.one_le_levels (g : Group) : 1 ≤ g.levels := by
  cases g
  rw [levels]
  omega

theorem Category.levels_le {c : Category} {n : Nat} :
    c.levels ≤ n ↔ ∀ e ∈ c.subgroups, e.2.levels ≤ n := by
  rw [levels, foldr_max_le, List.forall_mem_map]

theorem Document.levels_le {d : Document} {n : Nat} :
    d.levels ≤ n ↔ ∀ e ∈ d.categories, e.2.levels ≤ n := by
  rw [levels, foldr_max_le, List.forall_mem_map]

/-! ## Levels and depth -/

/-- An entry needs two brackets for every level of groups, and one more for a shortcut. -/
theorem Entry.depth_le_iff (e : Entry) : ∀ n, (toJson e).depth ≤ 2 * n + 1 ↔ e.levels ≤ n := by
  induction e using Entry.induction with
  | shortcut s =>
    intro n
    have hdepth := s.depth_toJson
    have hlevels : levels (.shortcut s) = 0 := rfl
    rw [depth_shortcut, hlevels]
    omega
  | group g ih =>
    intro n
    have hlevels : levels (.group g) = g.levels := rfl
    rw [depth_group, hlevels]
    cases n with
    | zero =>
      -- both sides fail: a group alone has a level and two brackets
      have hpos := g.one_le_levels
      have hdepth := g.two_le_depth
      omega
    | succ n =>
      -- the two brackets of the group are what the bound gains from `n` to `n + 1`
      have hstep : 2 * (n + 1) + 1 = (2 * n + 1) + 2 := by omega
      rw [hstep, Group.depth_le, Group.levels_le]
      exact forall₂_congr fun e he => ih e he n

namespace Document

/-- The greatest number of levels of groups in a document that can be read. -/
def maxLevels : Nat := 61

theorem depth_le_maxDepth_iff (d : Document) :
    d.toJson.depth ≤ maxDepth ↔ d.levels ≤ maxLevels := by
  -- of the 127 brackets the document and its category take two each: 123 = 2 * 61 + 1 are left
  have hgroup : ∀ g : Group, g.toJson.depth ≤ 121 + 2 ↔ g.levels ≤ maxLevels := by
    intro g
    have h := Entry.depth_le_iff (.group g) 61
    rwa [Entry.depth_group] at h
  have hcategory : ∀ c : Category, c.toJson.depth ≤ 121 + 4 ↔ c.levels ≤ maxLevels := by
    intro c
    rw [Category.depth_le, Category.levels_le]
    exact forall₂_congr fun e _ => hgroup e.2
  have hdocument : d.toJson.depth ≤ 125 + 2 ↔ d.levels ≤ maxLevels := by
    rw [depth_le, levels_le]
    exact forall₂_congr fun e _ => hcategory e.2
  exact hdocument

/-- A document without repeated keys is read from its file exactly if its groups do not nest too
deep. -/
theorem Proper.read?_file {d : Document} (hd : d.Proper) :
    read? (Program.documentText d) = if d.levels ≤ maxLevels then some d else none := by
  have hread : read? (Program.documentText d) =
      if d.toJson.depth ≤ maxDepth then some d else none :=
    read?_write_append hd (by simp [isBlank])
  rw [hread]
  exact if_congr d.depth_le_maxDepth_iff rfl rfl

end Document

namespace Build

/-- The keys of a tree made of nodes are never repeated. -/
theorem proper_documentOf (s : BuildSettings) (ns : List Node) :
    (Program.documentOf s (ofNodes ns)).Proper :=
  fun _ hl => (soundMapping_of_hasMapping hl).distinct

/-- **A document that was built is read back, and shown as it is, exactly if its groups stand on at
most 61 levels**, whatever the nodes, what is noted of their source, and what is to be shown. -/
theorem read?_documentOf (ns : List Node) (s : BuildSettings) :
    let d := Program.documentOf s (ofNodes ns)
    Document.read? (Program.documentText d) =
        (if d.levels ≤ Document.maxLevels then some d else none) ∧
      ∀ o, (Document.read? (Program.documentText d)).map (Rendering.render o) =
        (if d.levels ≤ Document.maxLevels then some (Rendering.render o d) else none) := by
  intro d
  have hread := (proper_documentOf s ns).read?_file
  refine ⟨hread, fun o => ?_⟩
  rw [hread]
  split <;> rfl

/-! ## The smallest documents that cannot be read -/

/-- A shortcut in so many containers. -/
def nestedNode : Nat → Node
  | 0 => { name := some "Leaf", hotkeyId := some 1 }
  | n + 1 => { name := some "Group", children := some [nestedNode n] }

/-- A category with a shortcut in so many containers. -/
def nestedForest (n : Nat) : List Node :=
  [{ name := some "Category", identifier := some "id", children := some [nestedNode n] }]

/-- A container of one usable node is a group of what is made of it. -/
theorem exists_madeGroup {n : Nat} {e : Entry} (he : madeEntry (nestedNode n) = some e) :
    ∃ g, madeGroup (nestedNode (n + 1)) = some g ∧ g.levels = e.levels + 1 := by
  have hname : (nestedNode (n + 1)).nonEmptyName = some "Group" := by
    simp [nestedNode, Node.nonEmptyName]
  have hentries : Keyed.insertAll entryHints [] ([nestedNode n].filterMap madeEntry) =
      [(HasKey.key e, e)] := by
    rw [List.filterMap_cons_some he]
    rfl
  have hkey : DisplayName.key "Group" ≠ "" := by decide +kernel
  refine ⟨⟨DisplayName.clean "Group", DisplayName.key "Group", "", [(HasKey.key e, e)]⟩, ?_, ?_⟩
  · rw [madeGroup, keyedOrDrop_fst, groupOf_fst, hname]
    simp [nestedNode, hentries, Option.filter, hkey]
  · simp [Group.levels, Entry.levelsOfSlots, Entry.levelsOfSlot]

theorem exists_madeEntry (n : Nat) : ∃ e, madeEntry (nestedNode n) = some e ∧ e.levels = n := by
  induction n with
  | zero =>
    have hmade : (madeShortcut (nestedNode 0)).isSome := by decide +kernel
    obtain ⟨s, hs⟩ := Option.isSome_iff_exists.1 hmade
    refine ⟨.shortcut s, ?_, rfl⟩
    have hverdict : (nestedNode 0).verdict .groupChild = .shortcut := by decide
    rw [madeEntry_eq, hverdict, hs]
    rfl
  | succ n ih =>
    obtain ⟨e, he, hlevels⟩ := ih
    obtain ⟨g, hg, hgroup⟩ := exists_madeGroup he
    refine ⟨.group g, ?_, hgroup.trans (congrArg (· + 1) hlevels)⟩
    have hverdict : (nestedNode (n + 1)).verdict .groupChild = .container := by
      simp [nestedNode, Node.verdict, Node.nonEmptyName, Node.isDisplayOnly, Node.childNodes]
    rw [madeEntry_eq, hverdict, hg]
    rfl

/-- The one category of the forest has the levels of the group in it. -/
theorem exists_madeCategory {n : Nat} {g : Group} (hg : madeGroup (nestedNode (n + 1)) = some g) :
    ∃ c, (nestedForest (n + 1)).filterMap madeCategory = [c] ∧ c.levels = g.levels := by
  have hdirect : directGroup (nestedNode (n + 1)) = some g := by
    have hverdict : (nestedNode (n + 1)).verdict .categoryChild = .container := by
      simp [nestedNode, Node.verdict]
    rw [directGroup, if_pos hverdict, hg]
  have hgroups : Keyed.insertAll groupHints [] ([nestedNode (n + 1)].filterMap directGroup) =
      [(HasKey.key g, g)] := by
    rw [List.filterMap_cons_some hdirect]
    rfl
  have hkey : DisplayName.key "Category" ≠ "" := by decide +kernel
  let c : Category :=
    { name := DisplayName.clean "Category"
      key := DisplayName.key "Category"
      sourceIdentifier := "id"
      shortcuts := Keyed.insertAll shortcutHints []
        ([nestedNode (n + 1)].filterMap directShortcut)
      subgroups := [(HasKey.key g, g)] }
  refine ⟨c, List.filterMap_cons_some ?_, by simp [Category.levels, c]⟩
  rw [madeCategory, categoryOf_fst]
  simp [Node.nonEmptyName, Node.nonEmptyIdentifier, Node.childNodes, hgroups, Option.filter, hkey,
    c]

/-- Every container in the forest becomes a level of groups. -/
theorem levels_nestedForest (s : BuildSettings) (n : Nat) :
    (Program.documentOf s (ofNodes (nestedForest (n + 1)))).levels = n + 1 := by
  obtain ⟨e, he, hlevels⟩ := exists_madeEntry n
  obtain ⟨g, hg, hgroup⟩ := exists_madeGroup he
  obtain ⟨c, hc, hcategory⟩ := exists_madeCategory hg
  have hcategories : (ofNodes (nestedForest (n + 1))).categories = [(HasKey.key c, c)] := by
    rw [ofNodes_categories, hc]
    rfl
  simp only [Document.levels, Program.documentOf, hcategories, List.map_cons, List.map_nil,
    List.foldr_cons, List.foldr_nil]
  omega

/-- With 62 containers around a shortcut the document that is built cannot be read. -/
theorem read?_nestedForest :
    let d := Program.documentOf (.resolve {} {}) (ofNodes (nestedForest 62))
    Document.read? (Program.documentText d) = none := by
  intro d
  have hlevels : d.levels = 62 := levels_nestedForest (.resolve {} {}) 61
  rw [(proper_documentOf _ _).read?_file, hlevels]
  rfl

end Build

end HotkeyTree
