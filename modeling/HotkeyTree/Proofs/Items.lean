import HotkeyTree.Proofs.Insertions
import HotkeyTree.Proofs.Soundness

/-!
# Proofs: the entries of a tree, one by one

Equal entries may stand in different mappings, and what is said of "every entry, wherever it is"
must tell them apart. So the entries of a tree are listed, each with the mapping that holds it and
with the name that reports give to this mapping. A name of a group or a category in a report is made
from its display name: it is the key that the container had before it was stored itself.

`mem_items_iff` says that the list has what stands in a mapping of the tree, and nothing else. In a
tree made of nodes every mapping is one in which freshly made entries were stored, so what is to be
shown of all entries need only be shown of such mappings (`forall_items_ofNodes`).
-/

namespace HotkeyTree

/-- An entry of a tree, where it stands. -/
structure Item where
  /-- What reports call the mapping that holds it. -/
  scope : Scope
  /-- That mapping. -/
  mapping : List Label
  label : Label
  /-- The hotkey id, if the entry is a shortcut. -/
  hotkeyId : Option Int64
deriving DecidableEq, Repr

def Keyed.items {α : Type} [HasKey α] [Labelled α] (scope : Scope) (hotkeyId : α → Option Int64)
    (m : Keyed α) : List Item :=
  m.map fun slot =>
    ⟨scope, m.labels, ⟨slot.1, HasKey.key slot.2, Labelled.name slot.2⟩, hotkeyId slot.2⟩

def Entry.hotkeyId : Entry → Option Int64
  | .shortcut s => some s.id
  | .group _ => none

/-- The entries directly in a group. -/
def Group.entryItems (g : Group) : List Item :=
  Keyed.items (.group (DisplayName.key g.name)) Entry.hotkeyId g.entries

def Category.shortcutItems (c : Category) : List Item :=
  c.shortcuts.items (.category (DisplayName.key c.name)) fun s => some s.id

def Category.subgroupItems (c : Category) : List Item :=
  c.subgroups.items (.category (DisplayName.key c.name)) fun _ => none

mutual

/-- The entries below an entry, at every depth. -/
def Entry.items : Entry → List Item
  | .shortcut _ => []
  | .group g => Group.items g
termination_by structural e => e

def Group.items : Group → List Item
  | ⟨name, key, sourceIdentifier, entries⟩ =>
    Group.entryItems ⟨name, key, sourceIdentifier, entries⟩ ++ Entry.itemsBelow entries
termination_by structural g => g

def Entry.itemsBelow : List (String × Entry) → List Item
  | [] => []
  | e :: es => Entry.itemsBelowOne e ++ Entry.itemsBelow es
termination_by structural es => es

def Entry.itemsBelowOne : String × Entry → List Item
  | (_, e) => Entry.items e
termination_by structural e => e

end

/-- The entries of a category, at every depth. -/
def Category.items (c : Category) : List Item :=
  c.shortcutItems ++ c.subgroupItems ++ c.subgroups.flatMap fun slot => slot.2.items

/-- The categories themselves. -/
def Build.categoryItems (b : Build) : List Item := b.categories.items .categories fun _ => none

/-- The entries of a tree: its categories and all that is in them, at every depth. -/
def Build.items (b : Build) : List Item :=
  b.categoryItems ++ b.categories.flatMap fun slot => slot.2.items

/-- An entry stands in one of the mappings of a tree. -/
inductive Build.HasItem (b : Build) (i : Item) : Prop where
  | category (h : i ∈ b.categoryItems)
  | shortcut {k : String} {c : Category} (hc : (k, c) ∈ b.categories) (h : i ∈ c.shortcutItems)
  | subgroup {k : String} {c : Category} (hc : (k, c) ∈ b.categories) (h : i ∈ c.subgroupItems)
  | entry {g : Group} (hg : HasGroup b.categories g) (h : i ∈ g.entryItems)

/-! ## The list is complete -/

theorem Group.items_eq (g : Group) :
    g.items = g.entryItems ++ g.entries.flatMap fun slot => slot.2.items := by
  have hbelow : ∀ es : List (String × Entry),
      Entry.itemsBelow es = es.flatMap fun slot => slot.2.items := by
    intro es
    induction es with
    | nil => rfl
    | cons e es ih => rw [Entry.itemsBelow, ih, List.flatMap_cons, Entry.itemsBelowOne]
  obtain ⟨name, key, sourceIdentifier, entries⟩ := g
  rw [Group.items, hbelow]

theorem Keyed.mem_items {α : Type} [HasKey α] [Labelled α] {scope : Scope}
    {hotkeyId : α → Option Int64} {m : Keyed α} {i : Item} :
    i ∈ m.items scope hotkeyId ↔ ∃ k a, (k, a) ∈ m ∧
      i = ⟨scope, m.labels, ⟨k, HasKey.key a, Labelled.name a⟩, hotkeyId a⟩ := by
  unfold items
  rw [List.mem_map]
  constructor
  · rintro ⟨⟨k, a⟩, hmem, rfl⟩
    exact ⟨k, a, hmem, rfl⟩
  · rintro ⟨k, a, hmem, rfl⟩
    exact ⟨(k, a), hmem, rfl⟩

namespace Build

variable {b : Build} {i : Item}

theorem mem_items_of_hasGroup {g : Group} (hg : HasGroup b.categories g) (hi : i ∈ g.items) :
    i ∈ b.items := by
  -- by the way down to the group
  induction hg with
  | @subgroup k k' c g hc hg =>
    have hcat : i ∈ c.items :=
      List.mem_append_right _ (List.mem_flatMap.2 ⟨(k', g), hg, hi⟩)
    exact List.mem_append_right _ (List.mem_flatMap.2 ⟨(k, c), hc, hcat⟩)
  | @nested k g g' hg hg' ih =>
    refine ih ?_
    rw [Group.items_eq]
    exact List.mem_append_right _ (List.mem_flatMap.2 ⟨(k, .group g'), hg', hi⟩)

theorem hasItem_of_mem_group (e : Entry) :
    ∀ g, e = .group g → HasGroup b.categories g → i ∈ g.items → b.HasItem i := by
  induction e using Entry.induction with
  | shortcut _ =>
    intro g he
    exact nomatch he
  | group g ih =>
    intro g' he hg hi
    obtain rfl := Entry.group.inj he
    rw [Group.items_eq] at hi
    rcases List.mem_append.1 hi with hi | hi
    · exact .entry hg hi
    · obtain ⟨⟨k, e⟩, hmem, hi⟩ := List.mem_flatMap.1 hi
      cases e with
      | shortcut _ => exact absurd hi List.not_mem_nil
      | group g' => exact ih (k, .group g') hmem g' rfl (.nested hg hmem) hi

/-- What is listed is what stands in a mapping, at any depth. -/
theorem mem_items_iff : i ∈ b.items ↔ b.HasItem i := by
  constructor
  · intro hi
    rcases List.mem_append.1 hi with hi | hi
    · exact .category hi
    · obtain ⟨⟨k, c⟩, hc, hi⟩ := List.mem_flatMap.1 hi
      rcases List.mem_append.1 hi with hi | hi
      · rcases List.mem_append.1 hi with hi | hi
        · exact .shortcut hc hi
        · exact .subgroup hc hi
      · obtain ⟨⟨k', g⟩, hg, hi⟩ := List.mem_flatMap.1 hi
        exact hasItem_of_mem_group (.group g) g rfl (.subgroup hc hg) hi
  · intro hi
    cases hi with
    | category h => exact List.mem_append_left _ h
    | @shortcut k c hc h =>
      have hcat : i ∈ c.items := List.mem_append_left _ (List.mem_append_left _ h)
      exact List.mem_append_right _ (List.mem_flatMap.2 ⟨(k, c), hc, hcat⟩)
    | @subgroup k c hc h =>
      have hcat : i ∈ c.items := List.mem_append_left _ (List.mem_append_right _ h)
      exact List.mem_append_right _ (List.mem_flatMap.2 ⟨(k, c), hc, hcat⟩)
    | entry hg h =>
      refine mem_items_of_hasGroup hg ?_
      rw [Group.items_eq]
      exact List.mem_append_left _ h

/-! ## Entries of made trees -/

/-- What stands in a mapping in which freshly made entries were stored is one of these entries, and
what was in the mapping when it came is still in front of it. -/
theorem exists_storedKey_of_mem_items {α : Type} [HasKey α] [LawfulHasKey α] [Labelled α]
    {scope : Scope} {hints : α → Keyed.Hints} {hotkeyId : α → Option Int64} {as : List α}
    (hmade : ∀ a ∈ as, FreshlyMade a)
    (hi : i ∈ (Keyed.insertAll hints [] as).items scope hotkeyId) :
    ∃ a ∈ as, ∃ m, m ++ [Keyed.slotOf m a (hints a)] <+: Keyed.insertAll hints [] as ∧
      i.mapping = (Keyed.insertAll hints [] as).labels ∧
      i.label.stored = Keyed.storedKey m a (hints a) ∧
      DisplayName.key i.label.name = HasKey.key a ∧
      i.hotkeyId = hotkeyId (HasKey.withKey a i.label.stored) := by
  obtain ⟨k, b, hmem, rfl⟩ := Keyed.mem_items.1 hi
  obtain ⟨a, ha, m, hslot, hm⟩ := Keyed.exists_slotOf_of_mem hmem
  obtain ⟨rfl, rfl⟩ := Prod.mk.inj hslot
  refine ⟨a, ha, m, hm, rfl, rfl, ?_, rfl⟩
  rw [Labelled.name_withKey]
  exact (hmade a ha).key_eq.symm

/-- What holds of the entries of a mapping in which freshly made entries were stored, each with its
hotkey id among the hints, holds of all entries of a tree made of nodes. -/
theorem forall_items_ofNodes {motive : Item → Prop} (ns : List Node)
    (stored : ∀ {α : Type} [HasKey α] [LawfulHasKey α] [Labelled α] (scope : Scope)
      (hints : α → Keyed.Hints) (hotkeyId : α → Option Int64) (as : List α),
      (∀ a, (hints a).id = hotkeyId a) →
      (∀ a k, hotkeyId (HasKey.withKey a k) = hotkeyId a) →
      (∀ a ∈ as, FreshlyMade a) →
      ∀ i ∈ (Keyed.insertAll hints [] as).items scope hotkeyId, motive i) :
    ∀ i ∈ (ofNodes ns).items, motive i := by
  intro i hi
  cases mem_items_iff.1 hi with
  | category h =>
    rw [categoryItems, ofNodes_categories] at h
    refine stored _ _ _ _ (fun _ => rfl) (fun _ _ => rfl) ?_ i h
    rw [List.forall_mem_filterMap]
    exact fun _ _ _ hmade => freshlyMade_category hmade
  | shortcut hc h =>
    obtain ⟨n, -, -, hshortcuts, -⟩ := exists_category_node hc
    rw [Category.shortcutItems, hshortcuts] at h
    refine stored _ _ _ _ (fun _ => rfl) (fun _ _ => rfl) ?_ i h
    rw [List.forall_mem_filterMap]
    exact fun _ _ _ hmade => freshlyMade_shortcut (directShortcut_eq_some hmade)
  | subgroup hc h =>
    obtain ⟨n, -, -, -, hsubgroups⟩ := exists_category_node hc
    rw [Category.subgroupItems, hsubgroups] at h
    refine stored _ _ _ _ (fun _ => rfl) (fun _ _ => rfl) ?_ i h
    rw [List.forall_mem_filterMap]
    exact fun _ _ _ hmade => freshlyMade_group (directGroup_eq_some hmade)
  | entry hg h =>
    obtain ⟨n, -, hentries, -⟩ := exists_group_node hg
    rw [Group.entryItems, hentries] at h
    refine stored _ _ _ _ ?_ ?_ ?_ i h
    · intro e
      cases e <;> rfl
    · intro e k
      cases e <;> rfl
    · rw [List.forall_mem_filterMap]
      exact fun _ _ _ hmade => freshlyMade_entry hmade

end Build

end HotkeyTree
