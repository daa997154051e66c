import HotkeyTree.Proofs.Making

/-!
# Proofs: the tree is a projection of the forest

Read without its keys, a tree says which entries there are, in which order and with which
attributes. `Projection` tells from the nodes alone what that should be, with no mapping, no key and
no event in sight, and `map_content_ofNodes` says that it is what the builder makes: nothing is
lost, doubled, merged or moved.
-/

namespace HotkeyTree

/-! ## Trees without keys -/

namespace Content

/-- A shortcut without its key. -/
structure Shortcut where
  id : Int64
  name : String
  defaultKey : Option String
  defaultModifier : Option Int64
  defaultCharKey : Option String
  defaultEnabled : Option Bool
  slowId : Option Int64
  sourceIdentifier : Option String
  dynamic : Option Bool
deriving DecidableEq, Repr

mutual

/-- An entry of a group without its keys. -/
inductive Entry where
  | shortcut (s : Shortcut)
  | group (g : Group)
deriving Repr

/-- A group without its keys. -/
structure Group where
  name : String
  -- empty if there is none
  sourceIdentifier : String
  entries : List Entry
deriving Repr

end

/-- A category without its keys. -/
structure Category where
  name : String
  sourceIdentifier : String
  shortcuts : List Shortcut
  subgroups : List Group
deriving Repr

end Content

/-- What a shortcut says, its key apart. -/
def Shortcut.content (s : Shortcut) : Content.Shortcut where
  id := s.id
  name := s.name
  defaultKey := s.defaultKey
  defaultModifier := s.defaultModifier
  defaultCharKey := s.defaultCharKey
  defaultEnabled := s.defaultEnabled
  slowId := s.slowId
  sourceIdentifier := s.sourceIdentifier
  dynamic := s.dynamic

mutual

/-- What an entry says, keys apart. -/
def Entry.content : Entry → Content.Entry
  | .shortcut s => .shortcut s.content
  | .group g => .group (Group.content g)
termination_by structural e => e

/-- What a group says, keys apart. -/
def Group.content : Group → Content.Group
  | ⟨name, _, sourceIdentifier, entries⟩ =>
    ⟨name, sourceIdentifier, Entry.slotContents entries⟩
termination_by structural g => g

/-- What the entries in some slots say, keys apart. -/
def Entry.slotContents : List (String × Entry) → List Content.Entry
  | [] => []
  | e :: es => Entry.slotContent e :: Entry.slotContents es
termination_by structural es => es

/-- What the entry in a slot says, keys apart. -/
def Entry.slotContent : String × Entry → Content.Entry
  | (_, e) => Entry.content e
termination_by structural e => e

end

/-- What a category says, keys apart. -/
def Category.content (c : Category) : Content.Category where
  name := c.name
  sourceIdentifier := c.sourceIdentifier
  shortcuts := c.shortcuts.map fun slot => slot.2.content
  subgroups := c.subgroups.map fun slot => slot.2.content

/-! ## What a forest stands for -/

namespace Projection

/-- The name of a node, if it has one and a key can be made from it. -/
def usableName (a : Node.Attributes) : Option String :=
  a.name.filter fun s => s ≠ "" ∧ DisplayName.key s ≠ ""

/-- The shortcut that a node stands for: it needs a hotkey id and a usable name, and must not be a
mere label. -/
def shortcut? (n : Node) : Option Content.Shortcut :=
  match usableName n.toAttributes, n.hotkeyId with
  | some name, some id =>
    if n.isDisplayOnly then none
    else some
      { id
        name := DisplayName.clean name
        defaultKey := n.key
        defaultModifier := n.modifier
        defaultCharKey := n.charKey
        defaultEnabled := n.enabled
        slowId := n.slowHotkeyId
        sourceIdentifier := n.identifier
        dynamic := n.dynamic }
  | _, _ => none

/-- The entry that a child of a group stands for, given what it stands for as a group: labels are
nothing, and a hotkey id wins over children. -/
def entryWith (n : Node) (asGroup : Option Content.Group) : Option Content.Entry :=
  if n.isDisplayOnly then none
  else match n.hotkeyId with
    | some _ => (shortcut? n).map .shortcut
    | none => asGroup.map .group

mutual

/-- The group that a node stands for: it needs a usable name and a child that stands for an
entry. -/
def group? : Node → Option Content.Group
  | ⟨_, none⟩ => none
  | ⟨a, some nodes⟩ =>
    match usableName a, entries nodes with
    | some name, e :: es => some ⟨DisplayName.clean name, a.identifier.getD "", e :: es⟩
    | _, _ => none
termination_by structural n => n

/-- The entries that the children of a group stand for. -/
def entries : List Node → List Content.Entry
  | [] => []
  | n :: ns => (entryWith n (group? n)).toList ++ entries ns
termination_by structural ns => ns

end

/-- The group that a child of a category stands for: there a label may be one, too. -/
def subgroup? (n : Node) : Option Content.Group := if n.hotkeyId = none then group? n else none

/-- The category that a node at the top stands for: it needs a usable name and an identifier. -/
def category? (n : Node) : Option Content.Category :=
  match usableName n.toAttributes, n.nonEmptyIdentifier with
  | some name, some identifier => some
    { name := DisplayName.clean name
      sourceIdentifier := identifier
      shortcuts := n.childNodes.filterMap shortcut?
      subgroups := n.childNodes.filterMap subgroup? }
  | _, _ => none

/-! ## The projection is what is made -/

theorem entries_eq_filterMap (ns : List Node) :
    entries ns = ns.filterMap fun n => entryWith n (group? n) := by
  induction ns with
  | nil => rfl
  | cons n ns ih =>
    rw [entries, ih, List.filterMap_cons]
    cases entryWith n (group? n) <;> rfl

theorem slotContents_eq_map (slots : List (String × Entry)) :
    Entry.slotContents slots = slots.map fun slot => slot.2.content := by
  induction slots with
  | nil => rfl
  | cons slot slots ih => rw [Entry.slotContents, ih, List.map_cons, Entry.slotContent]

theorem content_group (g : Group) :
    g.content = ⟨g.name, g.sourceIdentifier, g.entries.map fun slot => slot.2.content⟩ := by
  obtain ⟨name, key, sourceIdentifier, entries⟩ := g
  rw [Group.content, slotContents_eq_map]

theorem content_withKey_entry (e : Entry) (k : String) :
    (HasKey.withKey e k).content = e.content := by
  cases e with
  | shortcut s => rfl
  | group g => simp only [HasKey.withKey, Entry.content, content_group]

theorem content_withKey_group (g : Group) (k : String) :
    (HasKey.withKey g k).content = g.content := by
  simp only [HasKey.withKey, content_group]

/-- A usable name is a name that is there, with the key made from it. -/
theorem usableName_eq (n : Node) :
    usableName n.toAttributes = n.nonEmptyName.filter fun s => DisplayName.key s ≠ "" := by
  unfold usableName Node.nonEmptyName
  cases n.name with
  | none => rfl
  | some s => by_cases h : s = "" <;> simp [Option.filter, h]

end Projection

namespace Build

open Projection

theorem content_madeShortcut {n : Node} (h : n.isDisplayOnly = false) :
    (madeShortcut n).map Shortcut.content = shortcut? n := by
  unfold madeShortcut shortcutOrDrop shortcutOf shortcut?
  rw [usableName_eq, h]
  cases n.nonEmptyName with
  | none => rfl
  | some name =>
    cases n.hotkeyId with
    | none => by_cases hkey : DisplayName.key name = "" <;> simp [Option.filter, hkey]
    | some id =>
      by_cases hkey : DisplayName.key name = ""
      · simp [Option.filter, hkey]
      · simp [Option.filter, hkey, Shortcut.content]

theorem shortcut?_eq_none {n : Node}
    (h : n.nonEmptyName = none ∨ n.isDisplayOnly = true ∨ n.hotkeyId = none) :
    shortcut? n = none := by
  unfold shortcut?
  rw [usableName_eq]
  rcases h with h | h | h
  · simp [h]
  · rw [h]
    cases n.nonEmptyName.filter _ <;> cases n.hotkeyId <;> rfl
  · rw [h]
    cases n.nonEmptyName.filter _ <;> rfl

theorem group?_eq_none {n : Node} (h : n.nonEmptyName = none ∨ n.childNodes = []) :
    group? n = none := by
  obtain ⟨a, _ | nodes⟩ := n
  · rfl
  · rw [group?]
    rcases h with h | h
    · rw [show usableName a = none by rw [usableName_eq ⟨a, some nodes⟩, h]; rfl]
    · have hnil : nodes = [] := h
      rw [hnil, entries]
      cases usableName a <;> rfl

/-- What a child of a group becomes, by what it is made into as a group. -/
theorem content_madeEntry {n : Node} (h : (madeGroup n).map Group.content = group? n) :
    (madeEntry n).map Entry.content = entryWith n (group? n) := by
  rw [madeEntry_eq]
  unfold Node.verdict entryWith
  cases hname : n.nonEmptyName with
  | none =>
    have h1 := shortcut?_eq_none (Or.inl hname)
    have h2 := group?_eq_none (Or.inl hname)
    cases n.hotkeyId <;> simp [h1, h2]
  | some name =>
    cases hlabel : n.isDisplayOnly with
    | true => simp
    | false =>
      cases n.hotkeyId with
      | some id =>
        have hs := content_madeShortcut hlabel
        simp [← hs, Function.comp_def, Entry.content]
      | none =>
        cases hc : n.childNodes with
        | nil => simp [group?_eq_none (Or.inr hc)]
        | cons c cs => simp [← h, Function.comp_def, Entry.content]

/-- What is made of the children of a group, if every one of them is made as it should be. -/
theorem map_content_madeEntries {nodes : List Node}
    (h : ∀ n ∈ nodes, (madeGroup n).map Group.content = group? n) :
    ((Keyed.insertAll entryHints [] (nodes.filterMap madeEntry)).map fun slot => slot.2.content)
      = entries nodes := by
  rw [Keyed.map_insertAll content_withKey_entry, entries_eq_filterMap, List.map_filterMap]
  exact List.filterMap_congr fun n hn => content_madeEntry (h n hn)

/-- A group is made of a node exactly if the node stands for one, and it says the same. -/
theorem content_madeGroup (n : Node) : (madeGroup n).map Group.content = group? n := by
  induction n using Node.induction with
  | node n ih =>
    obtain ⟨a, _ | nodes⟩ := n
    · -- neither side makes a group without children, named or not
      rw [madeGroup, keyedOrDrop_fst, groupOf_fst]
      cases (Node.mk a none).nonEmptyName <;> rfl
    · have hentries := map_content_madeEntries ih
      rw [madeGroup, keyedOrDrop_fst, groupOf_fst, group?, usableName_eq ⟨a, some nodes⟩]
      cases (Node.mk a (some nodes)).nonEmptyName with
      | none => rfl
      | some name =>
        simp only [Option.bind_some, Node.childNodes, Option.getD_some] at hentries ⊢
        rw [← hentries]
        -- the builder asks for a key after the entries, the projection asks for it with the name
        by_cases hkey : DisplayName.key name = ""
        · cases Keyed.insertAll entryHints [] (nodes.filterMap madeEntry) <;>
            simp [Option.filter, hkey]
        · cases Keyed.insertAll entryHints [] (nodes.filterMap madeEntry) <;>
            simp [Option.filter, hkey, content_group]

theorem content_directShortcut (n : Node) :
    (directShortcut n).map Shortcut.content = shortcut? n := by
  by_cases h : n.verdict .categoryChild = .shortcut
  · obtain ⟨-, hlabel, -⟩ := Node.verdict_categoryChild_eq_shortcut.1 h
    rw [directShortcut, if_pos h, content_madeShortcut hlabel]
  · -- what the verdict rejects fails one of the conditions of the projection
    rw [directShortcut, if_neg h, Option.map_none, shortcut?_eq_none]
    by_contra hcon
    simp only [not_or, Bool.not_eq_true] at hcon
    exact h (Node.verdict_categoryChild_eq_shortcut.2 hcon)

theorem content_directGroup (n : Node) :
    (directGroup n).map Group.content = subgroup? n := by
  by_cases h : n.verdict .categoryChild = .container
  · obtain ⟨-, hid⟩ := Node.verdict_categoryChild_eq_container.1 h
    rw [directGroup, if_pos h, content_madeGroup, subgroup?, if_pos hid]
  · rw [directGroup, if_neg h, Option.map_none, subgroup?]
    by_cases hid : n.hotkeyId = none
    · have hc : n.children = none := by
        by_contra hc
        exact h (Node.verdict_categoryChild_eq_container.2 ⟨hc, hid⟩)
      rw [if_pos hid, group?_eq_none (Or.inr (Node.childNodes_eq_nil hc))]
    · rw [if_neg hid]

/-- Every category says what the node it is made of stands for. -/
theorem content_madeCategory (n : Node) :
    (madeCategory n).map Category.content = category? n := by
  rw [madeCategory, categoryOf_fst]
  unfold category?
  rw [usableName_eq]
  cases n.nonEmptyName with
  | none => rfl
  | some name =>
    cases n.nonEmptyIdentifier with
    | none => by_cases hkey : DisplayName.key name = "" <;> simp [Option.filter, hkey]
    | some identifier =>
      by_cases hkey : DisplayName.key name = ""
      · simp [Option.filter, hkey]
      · have hshortcuts := Keyed.map_insertAll (f := Shortcut.content) (fun _ _ => rfl)
          shortcutHints (n.childNodes.filterMap directShortcut)
        have hsubgroups := Keyed.map_insertAll content_withKey_group
          groupHints (n.childNodes.filterMap directGroup)
        rw [List.map_filterMap] at hshortcuts hsubgroups
        simp [Option.filter, hkey, Category.content, hshortcuts, hsubgroups,
          content_directShortcut, content_directGroup]

/-- **The tree is the projection of the forest.** Read in order and without keys, the categories
that are made are the ones that the nodes stand for. -/
theorem map_content_ofNodes (ns : List Node) :
    ((ofNodes ns).categories.map fun slot => slot.2.content) = ns.filterMap category? := by
  rw [ofNodes_categories, Keyed.map_insertAll (f := Category.content) (fun _ _ => rfl),
    List.map_filterMap]
  exact List.filterMap_congr fun n _ => content_madeCategory n

end Build

end HotkeyTree
