import HotkeyTree.Node.Basic
import HotkeyTree.Proofs.Keyed
import HotkeyTree.Tree

/-!
# Proofs: trees at every depth

Nodes and groups nest, so what holds of them is proved by induction on what they hold. What holds of
a tree "at every depth" is said with its groups, its shortcuts and its mappings, wherever they are.
-/

namespace HotkeyTree

/-! ## Nodes -/

namespace Node

/-- What holds of a node as soon as it holds of the nodes below it holds of every node. -/
@[elab_as_elim]
theorem induction {motive : Node → Prop}
    (node : ∀ n : Node, (∀ c ∈ n.childNodes, motive c) → motive n) (n : Node) : motive n :=
  @Node.rec motive (fun children => ∀ c ∈ children.getD [], motive c)
    (fun nodes => ∀ c ∈ nodes, motive c)
    (fun _ _ ih => node _ ih)
    (fun _ hc => absurd hc (by simp))
    (fun _ ih => ih)
    (fun _ hc => absurd hc (by simp))
    (fun _ _ ihn ihns c hc => (List.mem_cons.1 hc).elim (fun h => h ▸ ihn) (ihns c))
    n

/-- The nodes of a forest, at every depth. -/
inductive In (ns : List Node) : Node → Prop where
  /-- A node at the top. -/
  | top {n : Node} (h : n ∈ ns) : In ns n
  /-- A node below one of the forest. -/
  | child {n c : Node} (hn : In ns n) (hc : c ∈ n.childNodes) : In ns c

end Node

/-! ## Entries and groups -/

/-- What holds of an entry as soon as it holds of the entries directly in it holds of every
entry. -/
@[elab_as_elim]
theorem Entry.induction {motive : Entry → Prop} (shortcut : ∀ s, motive (.shortcut s))
    (group : ∀ g : Group, (∀ slot ∈ g.entries, motive slot.2) → motive (.group g)) (e : Entry) :
    motive e :=
  @Entry.rec motive (fun g => ∀ slot ∈ g.entries, motive slot.2)
    (fun slots => ∀ slot ∈ slots, motive slot.2) (fun slot => motive slot.2)
    shortcut group
    (fun _ _ _ _ ih => ih)
    (fun _ h => absurd h List.not_mem_nil)
    (fun _ _ ihe ihes slot h => (List.mem_cons.1 h).elim (fun he => he ▸ ihe) (ihes slot))
    (fun _ _ ih => ih)
    e

instance : Labelled Shortcut where
  name := Shortcut.name
  key_withKey _ _ := rfl
  name_withKey _ _ := rfl

instance : Labelled Group where
  name := Group.name
  key_withKey _ _ := rfl
  name_withKey _ _ := rfl

instance : Labelled Category where
  name := Category.name
  key_withKey _ _ := rfl
  name_withKey _ _ := rfl

instance : Labelled Entry where
  name := Entry.name
  key_withKey e _ := by cases e <;> rfl
  name_withKey e _ := by cases e <;> rfl

/-! ## Whole trees -/

/-- What a slot of a mapping tells, whatever kind of entry it holds. -/
structure Label where
  /-- The key the entry is stored under. -/
  stored : String
  /-- The key the entry carries. -/
  own : String
  /-- The name a reader is shown. -/
  name : String
deriving DecidableEq, Repr

/-- The labels of a mapping, in order. -/
def Keyed.labels {α : Type} [HasKey α] [Labelled α] (m : Keyed α) : List Label :=
  m.map fun slot => ⟨slot.1, HasKey.key slot.2, Labelled.name slot.2⟩

theorem Keyed.map_stored_labels {α : Type} [HasKey α] [Labelled α] (m : Keyed α) :
    m.labels.map Label.stored = m.keys := by
  simp [labels, keys, Function.comp_def]

/-- The groups of a tree, at every depth. -/
inductive HasGroup (m : Keyed Category) : Group → Prop where
  /-- A group directly in a category. -/
  | subgroup {k k' : String} {c : Category} {g : Group} (hc : (k, c) ∈ m)
      (hg : (k', g) ∈ c.subgroups) : HasGroup m g
  /-- A group in a group. -/
  | nested {k : String} {g g' : Group} (hg : HasGroup m g) (hg' : (k, Entry.group g') ∈ g.entries) :
      HasGroup m g'

/-- The shortcuts of a tree, at every depth. -/
inductive HasShortcut (m : Keyed Category) : Shortcut → Prop where
  /-- A shortcut directly in a category. -/
  | direct {k k' : String} {c : Category} {s : Shortcut} (hc : (k, c) ∈ m)
      (hs : (k', s) ∈ c.shortcuts) : HasShortcut m s
  /-- A shortcut in a group. -/
  | nested {k : String} {g : Group} {s : Shortcut} (hg : HasGroup m g)
      (hs : (k, Entry.shortcut s) ∈ g.entries) : HasShortcut m s

/-- The mappings of a tree, at every depth, each as the labels of its slots. -/
inductive HasMapping (m : Keyed Category) : List Label → Prop where
  /-- The categories. -/
  | categories : HasMapping m m.labels
  /-- The shortcuts directly in a category. -/
  | shortcuts {k : String} {c : Category} (hc : (k, c) ∈ m) : HasMapping m c.shortcuts.labels
  /-- The groups directly in a category. -/
  | subgroups {k : String} {c : Category} (hc : (k, c) ∈ m) : HasMapping m c.subgroups.labels
  /-- The entries of a group. -/
  | entries {g : Group} (hg : HasGroup m g) : HasMapping m (Keyed.labels g.entries)

end HotkeyTree
