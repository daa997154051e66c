import HotkeyTree.Proofs.DisplayName
import HotkeyTree.Proofs.Insertions
import HotkeyTree.Proofs.Making

/-!
# Proofs: what every tree made of nodes satisfies

An entry is made with the key of its name, and storing it can only make the key longer. So whatever
the nodes are, every mapping at every depth can be addressed by its keys, no group is empty, and
every id comes from a node.

A group or shortcut of the tree is traced back to the node it is made of; what holds of the whole
tree then follows from what holds of a mapping in which made entries were stored.
-/

namespace HotkeyTree

open Keyed

/-! ## Mappings of made entries -/

/-- An entry as it is made, before it is stored: its key is the key of its name, which is shown
without marker. -/
structure FreshlyMade {α : Type} [HasKey α] [Labelled α] (a : α) : Prop where
  key_eq : HasKey.key a = DisplayName.key (Labelled.name a)
  key_ne : HasKey.key a ≠ ""
  unmarked : ¬ DisplayName.marker.toList <+: (Labelled.name a).toList

/-- What is promised of a mapping, said of its labels. -/
structure SoundMapping (l : List Label) : Prop where
  /-- No key is used twice. -/
  distinct : (l.map Label.stored).Nodup
  /-- No key is empty. -/
  stored_ne : ∀ e ∈ l, e.stored ≠ ""
  /-- Every entry carries the key it is stored under. -/
  own_eq : ∀ e ∈ l, e.own = e.stored
  /-- A key can be made from every name. -/
  key_ne : ∀ e ∈ l, DisplayName.key e.name ≠ ""
  /-- Every key begins with the key made from the name. -/
  stored_eq : ∀ e ∈ l, ∃ suffix, e.stored = DisplayName.key e.name ++ suffix
  /-- No name is empty. -/
  name_ne : ∀ e ∈ l, e.name ≠ ""
  /-- No name begins with the marker. -/
  unmarked : ∀ e ∈ l, ¬ DisplayName.marker.toList <+: e.name.toList

section Labels

variable {α : Type} [HasKey α] [Labelled α]

/-- An entry made from a name is freshly made. -/
theorem FreshlyMade.of_name {a : α} {name : String}
    (hname : Labelled.name a = DisplayName.clean name) (hkey : HasKey.key a = DisplayName.key name)
    (hne : DisplayName.key name ≠ "") : FreshlyMade a := by
  refine ⟨?_, ?_, ?_⟩
  · rw [hkey, hname, DisplayName.key_clean]
  · rw [hkey]
    exact hne
  · rw [hname]
    exact DisplayName.not_marker_prefix_clean name

theorem append_ne_empty {s t : String} (h : s ≠ "") : s ++ t ≠ "" := by
  intro hst
  have hchars := congrArg String.toList hst
  simp only [String.toList_append, String.toList_empty, List.append_eq_nil_iff] at hchars
  exact h (String.toList_eq_nil_iff.1 hchars.1)

/-- A mapping in which only freshly made entries were stored keeps the promises. -/
theorem soundMapping_insertAll (hints : α → Hints) {as : List α} (h : ∀ a ∈ as, FreshlyMade a) :
    SoundMapping (insertAll hints [] as).labels := by
  -- all but distinctness is traced back to the entry: storing only makes its key longer
  have horigin : ∀ e ∈ (insertAll hints [] as).labels, e.own = e.stored ∧
      DisplayName.key e.name ≠ "" ∧ (∃ suffix, e.stored = DisplayName.key e.name ++ suffix) ∧
      ¬ DisplayName.marker.toList <+: e.name.toList := by
    intro e he
    obtain ⟨slot, hslot, rfl⟩ := List.mem_map.1 he
    obtain ⟨a, ha, hstores⟩ := exists_stores hslot
    obtain ⟨hkey, hne, hmark⟩ := h a ha
    have hname := hstores.apply_eq (f := Labelled.name) Labelled.name_withKey
    refine ⟨hstores.key_eq, ?_, ?_, ?_⟩
    · rw [hname, ← hkey]
      exact hne
    · rw [hname, ← hkey]
      exact hstores.exists_suffix
    · rw [hname]
      exact hmark
  refine ⟨?_, ?_, ?_, ?_, ?_, ?_, ?_⟩
  · rw [map_stored_labels]
    exact insertAll_distinct hints distinct_nil as
  · intro e he
    obtain ⟨-, hne, ⟨suffix, hs⟩, -⟩ := horigin e he
    rw [hs]
    exact append_ne_empty hne
  · exact fun e he => (horigin e he).1
  · exact fun e he => (horigin e he).2.1
  · exact fun e he => (horigin e he).2.2.1
  · exact fun e he => DisplayName.ne_empty_of_key_ne_empty (horigin e he).2.1
  · exact fun e he => (horigin e he).2.2.2

end Labels

/-- A group stored in a mixed mapping was stored as a group. -/
theorem Keyed.Stores.of_group {e : Entry} {k : String} {g : Group}
    (h : Stores e (k, Entry.group g)) : ∃ g₀, e = .group g₀ ∧ Stores g₀ (k, g) := by
  rcases h with h | ⟨suffix, h⟩
  · obtain ⟨rfl, rfl⟩ := Prod.mk.inj h
    exact ⟨g, rfl, Or.inl rfl⟩
  · obtain ⟨rfl, hg⟩ := Prod.mk.inj h
    cases e with
    | shortcut s => exact nomatch hg
    | group g₀ =>
      obtain rfl := Entry.group.inj hg
      exact ⟨g₀, rfl, Or.inr ⟨suffix, rfl⟩⟩

/-- A group is stored in a mixed mapping as it is stored among groups. -/
theorem Keyed.Stores.group {g₀ : Group} {slot : String × Entry} (h : Stores (.group g₀) slot) :
    ∃ g, slot.2 = .group g ∧ Stores g₀ (slot.1, g) := by
  rcases h with rfl | ⟨suffix, rfl⟩
  · exact ⟨g₀, rfl, Or.inl rfl⟩
  · exact ⟨HasKey.withKey g₀ (HasKey.key g₀ ++ suffix), rfl, Or.inr ⟨suffix, rfl⟩⟩

/-- A shortcut stored in a mixed mapping was stored as a shortcut. -/
theorem Keyed.Stores.of_shortcut {e : Entry} {k : String} {s : Shortcut}
    (h : Stores e (k, Entry.shortcut s)) : ∃ s₀, e = .shortcut s₀ ∧ Stores s₀ (k, s) := by
  rcases h with h | ⟨suffix, h⟩
  · obtain ⟨rfl, rfl⟩ := Prod.mk.inj h
    exact ⟨s, rfl, Or.inl rfl⟩
  · obtain ⟨rfl, hs⟩ := Prod.mk.inj h
    cases e with
    | group g => exact nomatch hs
    | shortcut s₀ =>
      obtain rfl := Entry.shortcut.inj hs
      exact ⟨s₀, rfl, Or.inr ⟨suffix, rfl⟩⟩

/-! ## Made entries -/

namespace Build

theorem madeShortcut_eq_some {n : Node} {s : Shortcut} (h : madeShortcut n = some s) :
    ∃ name id, n.nonEmptyName = some name ∧ n.hotkeyId = some id ∧ DisplayName.key name ≠ "" ∧
      s.id = id ∧ s.name = DisplayName.clean name ∧ s.key = DisplayName.key name := by
  unfold madeShortcut shortcutOrDrop shortcutOf at h
  cases hname : n.nonEmptyName with
  | none => simp [hname] at h
  | some name =>
    cases hid : n.hotkeyId with
    | none => simp [hname, hid] at h
    | some id =>
      by_cases hkey : DisplayName.key name = ""
      · simp [hname, hid, hkey] at h
      · simp only [hname, hid, hkey, if_false, Option.some.injEq] at h
        exact ⟨name, id, rfl, rfl, hkey, by rw [← h], by rw [← h], by rw [← h]⟩

theorem madeGroup_eq_some {n : Node} {g : Group} (h : madeGroup n = some g) :
    ∃ name, n.nonEmptyName = some name ∧ DisplayName.key name ≠ "" ∧
      g.name = DisplayName.clean name ∧ g.key = DisplayName.key name ∧
      g.entries = insertAll entryHints [] (n.childNodes.filterMap madeEntry) ∧ g.entries ≠ [] := by
  rw [madeGroup, keyedOrDrop_fst, Option.filter_eq_some_iff, groupOf_fst] at h
  obtain ⟨h, hkey⟩ := h
  obtain ⟨name, hname, h⟩ := Option.bind_eq_some_iff.1 h
  obtain ⟨nodes, hnodes, h⟩ := Option.bind_eq_some_iff.1 h
  have hchild : n.childNodes = nodes := by simp [Node.childNodes, hnodes]
  by_cases hempty : insertAll entryHints [] (nodes.filterMap madeEntry) = []
  · simp [hempty] at h
  · simp only [hempty, if_false, Option.some.injEq] at h
    subst h
    exact ⟨name, hname, by simpa using hkey, rfl, rfl, by rw [hchild], hempty⟩

theorem madeEntry_eq_some {n : Node} {e : Entry} (h : madeEntry n = some e) :
    (∃ s, e = .shortcut s ∧ madeShortcut n = some s) ∨
      ∃ g, e = .group g ∧ madeGroup n = some g := by
  rw [madeEntry_eq] at h
  cases hv : n.verdict .groupChild with
  | shortcut =>
    rw [hv] at h
    obtain ⟨s, hs, rfl⟩ := Option.map_eq_some_iff.1 h
    exact Or.inl ⟨s, rfl, hs⟩
  | container =>
    rw [hv] at h
    obtain ⟨g, hg, rfl⟩ := Option.map_eq_some_iff.1 h
    exact Or.inr ⟨g, rfl, hg⟩
  | dropped r => simp [hv] at h

theorem directShortcut_eq_some {n : Node} {s : Shortcut} (h : directShortcut n = some s) :
    madeShortcut n = some s := by
  unfold directShortcut at h
  split at h
  · exact h
  · exact nomatch h

theorem directGroup_eq_some {n : Node} {g : Group} (h : directGroup n = some g) :
    madeGroup n = some g := by
  unfold directGroup at h
  split at h
  · exact h
  · exact nomatch h

theorem madeCategory_eq_some {n : Node} {c : Category} (h : madeCategory n = some c) :
    ∃ name identifier, n.nonEmptyName = some name ∧ n.nonEmptyIdentifier = some identifier ∧
      DisplayName.key name ≠ "" ∧ c =
        { name := DisplayName.clean name
          key := DisplayName.key name
          sourceIdentifier := identifier
          shortcuts := insertAll shortcutHints [] (n.childNodes.filterMap directShortcut)
          subgroups := insertAll groupHints [] (n.childNodes.filterMap directGroup) } := by
  rw [madeCategory, Option.filter_eq_some_iff, categoryOf_fst] at h
  obtain ⟨h, hkey⟩ := h
  obtain ⟨name, hname, h⟩ := Option.bind_eq_some_iff.1 h
  obtain ⟨identifier, hident, rfl⟩ := Option.map_eq_some_iff.1 h
  exact ⟨name, identifier, hname, hident, by simpa using hkey, rfl⟩

/-! ## Where entries come from -/

/-- What is stored of nodes was made of one of them. -/
theorem exists_made {α : Type} [HasKey α] {hints : α → Hints} {make : Node → Option α}
    {nodes : List Node} {slot : String × α}
    (h : slot ∈ insertAll hints [] (nodes.filterMap make)) :
    ∃ n ∈ nodes, ∃ a, make n = some a ∧ Stores a slot := by
  obtain ⟨a, ha, hstores⟩ := exists_stores h
  obtain ⟨n, hn, hmake⟩ := List.mem_filterMap.1 ha
  exact ⟨n, hn, a, hmake, hstores⟩

/-- A category of the tree holds what is made of the children of a node at the top. -/
theorem exists_category_node {ns : List Node} {k : String} {c : Category}
    (h : (k, c) ∈ (ofNodes ns).categories) :
    ∃ n ∈ ns, n.nonEmptyIdentifier = some c.sourceIdentifier ∧
      c.shortcuts = insertAll shortcutHints [] (n.childNodes.filterMap directShortcut) ∧
      c.subgroups = insertAll groupHints [] (n.childNodes.filterMap directGroup) := by
  rw [ofNodes_categories] at h
  obtain ⟨n, hn, c₀, hmade, hstores⟩ := exists_made h
  obtain ⟨name, identifier, -, hident, -, rfl⟩ := madeCategory_eq_some hmade
  have h1 := hstores.apply_eq (f := Category.sourceIdentifier) (fun _ _ => rfl)
  have h2 := hstores.apply_eq (f := Category.shortcuts) (fun _ _ => rfl)
  have h3 := hstores.apply_eq (f := Category.subgroups) (fun _ _ => rfl)
  exact ⟨n, hn, h1 ▸ hident, h2, h3⟩

/-- A group made of a node in the forest. -/
theorem madeGroup_entries {ns : List Node} {n : Node} {g₀ g : Group} {k : String}
    (hn : Node.In ns n) (hmade : madeGroup n = some g₀) (hstores : Stores g₀ (k, g)) :
    ∃ n, Node.In ns n ∧
      g.entries = insertAll entryHints [] (n.childNodes.filterMap madeEntry) ∧ g.entries ≠ [] := by
  obtain ⟨name, -, -, -, -, hentries, hne⟩ := madeGroup_eq_some hmade
  have hsame := hstores.apply_eq (f := Group.entries) (fun _ _ => rfl)
  exact ⟨n, hn, hsame.trans hentries, by rw [hsame]; exact hne⟩

/-- A group of the tree holds what is made of the children of some node, which is something. -/
theorem exists_group_node {ns : List Node} {g : Group} (h : HasGroup (ofNodes ns).categories g) :
    ∃ n, Node.In ns n ∧
      g.entries = insertAll entryHints [] (n.childNodes.filterMap madeEntry) ∧ g.entries ≠ [] := by
  -- by the way down to the group: what stands above it has a node, and it comes from a child of it
  induction h with
  | subgroup hc hg =>
    obtain ⟨n, hn, -, -, hsub⟩ := exists_category_node hc
    rw [hsub] at hg
    obtain ⟨n', hn', g₀, hdirect, hstores⟩ := exists_made hg
    exact madeGroup_entries (.child (.top hn) hn') (directGroup_eq_some hdirect) hstores
  | nested _ hg' ih =>
    obtain ⟨n, hn, hentries, -⟩ := ih
    rw [hentries] at hg'
    obtain ⟨n', hn', e, hentry, hstores⟩ := exists_made hg'
    obtain ⟨g₀, rfl, hgs⟩ := Stores.of_group hstores
    rcases madeEntry_eq_some hentry with ⟨s, hs, -⟩ | ⟨g₁, hg₁, hmade⟩
    · exact nomatch hs
    · exact madeGroup_entries (.child hn hn') (Entry.group.inj hg₁ ▸ hmade) hgs

/-- A shortcut of the tree has the hotkey id of some node. -/
theorem exists_shortcut_node {ns : List Node} {s : Shortcut}
    (h : HasShortcut (ofNodes ns).categories s) : ∃ n, Node.In ns n ∧ n.hotkeyId = some s.id := by
  have hid : ∀ {n : Node} {s₀ : Shortcut} {k : String}, madeShortcut n = some s₀ →
      Stores s₀ (k, s) → n.hotkeyId = some s.id := by
    intro n s₀ k hmade hstores
    obtain ⟨name, id, -, hid, -, hs₀, -, -⟩ := madeShortcut_eq_some hmade
    rw [hid, ← hs₀, hstores.apply_eq (f := Shortcut.id) (fun _ _ => rfl)]
  cases h with
  | direct hc hs =>
    obtain ⟨n, hn, -, hdirect, -⟩ := exists_category_node hc
    rw [hdirect] at hs
    obtain ⟨n', hn', s₀, hmade, hstores⟩ := exists_made hs
    exact ⟨n', .child (.top hn) hn', hid (directShortcut_eq_some hmade) hstores⟩
  | nested hg hs =>
    obtain ⟨n, hn, hentries, -⟩ := exists_group_node hg
    rw [hentries] at hs
    obtain ⟨n', hn', e, hentry, hstores⟩ := exists_made hs
    obtain ⟨s₀, rfl, hss⟩ := Stores.of_shortcut hstores
    rcases madeEntry_eq_some hentry with ⟨s₁, hs₁, hmade⟩ | ⟨g, hg, -⟩
    · exact ⟨n', .child hn hn', hid (Entry.shortcut.inj hs₁ ▸ hmade) hss⟩
    · exact nomatch hg

/-! ## Every mapping of the tree -/

theorem freshlyMade_shortcut {n : Node} {s : Shortcut} (h : madeShortcut n = some s) :
    FreshlyMade s := by
  obtain ⟨name, id, -, -, hne, -, hname, hkey⟩ := madeShortcut_eq_some h
  exact .of_name hname hkey hne

theorem freshlyMade_group {n : Node} {g : Group} (h : madeGroup n = some g) : FreshlyMade g := by
  obtain ⟨name, -, hne, hname, hkey, -, -⟩ := madeGroup_eq_some h
  exact .of_name hname hkey hne

theorem freshlyMade_entry {n : Node} {e : Entry} (h : madeEntry n = some e) : FreshlyMade e := by
  rcases madeEntry_eq_some h with ⟨s, rfl, hs⟩ | ⟨g, rfl, hg⟩
  · obtain ⟨hkey, hne, hmark⟩ := freshlyMade_shortcut hs
    exact ⟨hkey, hne, hmark⟩
  · obtain ⟨hkey, hne, hmark⟩ := freshlyMade_group hg
    exact ⟨hkey, hne, hmark⟩

theorem freshlyMade_category {n : Node} {c : Category} (h : madeCategory n = some c) :
    FreshlyMade c := by
  obtain ⟨name, identifier, -, -, hne, rfl⟩ := madeCategory_eq_some h
  exact .of_name rfl rfl hne

/-- What holds of every mapping in which freshly made entries were stored holds of every mapping of
a tree made of nodes, at every depth. -/
theorem forall_mappings_ofNodes {motive : List Label → Prop} (ns : List Node)
    (stored : ∀ {α : Type} [HasKey α] [LawfulHasKey α] [Labelled α] (hints : α → Hints)
      (as : List α), (∀ a ∈ as, FreshlyMade a) → motive (insertAll hints [] as).labels) :
    ∀ l, HasMapping (ofNodes ns).categories l → motive l := by
  intro l h
  cases h with
  | categories =>
    rw [ofNodes_categories]
    refine stored categoryHints _ (List.forall_mem_filterMap.2 fun _ _ _ hmade => ?_)
    exact freshlyMade_category hmade
  | shortcuts hc =>
    obtain ⟨n, -, -, hdirect, -⟩ := exists_category_node hc
    rw [hdirect]
    refine stored shortcutHints _ (List.forall_mem_filterMap.2 fun _ _ _ hmade => ?_)
    exact freshlyMade_shortcut (directShortcut_eq_some hmade)
  | subgroups hc =>
    obtain ⟨n, -, -, -, hsub⟩ := exists_category_node hc
    rw [hsub]
    refine stored groupHints _ (List.forall_mem_filterMap.2 fun _ _ _ hmade => ?_)
    exact freshlyMade_group (directGroup_eq_some hmade)
  | entries hg =>
    obtain ⟨n, -, hentries, -⟩ := exists_group_node hg
    rw [hentries]
    refine stored entryHints _ (List.forall_mem_filterMap.2 fun _ _ _ hmade => ?_)
    exact freshlyMade_entry hmade

/-- Every mapping of the tree, at every depth, keeps the promises. -/
theorem soundMapping_of_hasMapping {ns : List Node} {l : List Label}
    (h : HasMapping (ofNodes ns).categories l) : SoundMapping l :=
  forall_mappings_ofNodes ns (fun hints _ hmade => soundMapping_insertAll hints hmade) l h

end Build

/-- What is promised of a tree made of a forest. -/
structure SoundTree (ns : List Node) (m : Keyed Category) : Prop where
  /-- Every mapping at every depth is sound. -/
  mappings : ∀ l, HasMapping m l → SoundMapping l
  /-- No group is empty. -/
  groups : ∀ g, HasGroup m g → g.entries ≠ []
  /-- Every category has an identifier. -/
  identifiers : ∀ slot ∈ m, slot.2.sourceIdentifier ≠ ""
  /-- Every id is the hotkey id of a node. -/
  ids : ∀ s, HasShortcut m s → ∃ n, Node.In ns n ∧ n.hotkeyId = some s.id

/-- **Every tree is sound.** -/
theorem Build.soundTree_ofNodes (ns : List Node) : SoundTree ns (Build.ofNodes ns).categories := by
  refine ⟨fun l hl => soundMapping_of_hasMapping hl, ?_, ?_, fun s hs => exists_shortcut_node hs⟩
  · intro g hg
    obtain ⟨n, -, -, hne⟩ := exists_group_node hg
    exact hne
  · rintro ⟨k, c⟩ hc
    obtain ⟨n, -, hident, -, -⟩ := exists_category_node hc
    have hne := (Option.filter_eq_some_iff.1 hident).2
    simpa using hne

end HotkeyTree
