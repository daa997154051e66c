import HotkeyTree.Proofs.Reports
import HotkeyTree.Proofs.Items
import HotkeyTree.Proofs.NaturalKeys
import Mathlib.Data.List.Perm.Subperm

/-!
# Proofs: no silent renaming

Every entry of a tree that is not stored under the key of its name has a warning of its own. The
warnings come from one walk over all nodes, in which a group is reported on before it is known
whether it will be kept, and in which shortcuts and groups of a category take turns; so the entries
are matched with a part of the events up to order, container by container.
-/

namespace HotkeyTree

open scoped List
open Keyed

/-- The report that an entry must have given rise to. -/
def Item.report? (i : Item) : Option Event := i.label.renaming?.map (.renamed i.scope)

/-- The entry is not stored under the key of its name. -/
def Item.IsRenamed (i : Item) : Prop := i.label.stored ≠ DisplayName.key i.label.name

instance (i : Item) : Decidable i.IsRenamed :=
  inferInstanceAs (Decidable (i.label.stored ≠ DisplayName.key i.label.name))

theorem Keyed.filterMap_report?_items {α : Type} [HasKey α] [Labelled α] (scope : Scope)
    (hotkeyId : α → Option Int64) (m : Keyed α) :
    (m.items scope hotkeyId).filterMap Item.report? =
      Build.renamed scope (m.labels.filterMap Label.renaming?) := by
  unfold items Build.renamed labels
  rw [List.filterMap_map, List.filterMap_map, List.map_filterMap]
  rfl

/-- What is listed below an entry does not depend on the key of the entry. -/
theorem Entry.items_withKey (e : Entry) (k : String) :
    Entry.items (HasKey.withKey e k) = Entry.items e := by
  cases e with
  | shortcut s => rfl
  | group g =>
    show Group.items { g with key := k } = g.items
    rw [Group.items_eq, Group.items_eq]
    rfl

theorem Group.items_withKey (g : Group) (k : String) : Group.items (HasKey.withKey g k) = g.items :=
  Entry.items_withKey (.group g) k

theorem Category.items_withKey (c : Category) (k : String) :
    Category.items (HasKey.withKey c k) = c.items := rfl

theorem Keyed.flatMap_insertAll {α : Type} [HasKey α] {below : α → List Item}
    (hkey : ∀ a k, below (HasKey.withKey a k) = below a) (hints : α → Hints) (as : List α) :
    ((insertAll hints [] as).flatMap fun slot => below slot.2) = as.flatMap below := by
  have hmap := map_insertAll hkey hints as
  rw [List.flatMap_def, List.flatMap_def, hmap]

namespace Build

/-! ## Reports are among the events -/

/-- If what is made of each node has its reports among the events of the node, so has all that is
made of some nodes. -/
theorem filterMap_flatMap_subperm {α : Type} {make : Node → Option α} {below : α → List Item}
    {events : Node → List Event} {ns : List Node}
    (h : ∀ n ∈ ns, ∀ a, make n = some a → (below a).filterMap Item.report? <+~ events n) :
    ((ns.filterMap make).flatMap below).filterMap Item.report? <+~ ns.flatMap events := by
  induction ns with
  | nil => exact List.nil_subperm
  | cons n ns ih =>
    have hrest := ih fun n' hn' => h n' (List.mem_cons_of_mem _ hn')
    cases hmake : make n with
    | none =>
      rw [List.filterMap_cons_none hmake, List.flatMap_cons]
      exact hrest.trans (List.sublist_append_right _ _).subperm
    | some a =>
      rw [List.filterMap_cons_some hmake, List.flatMap_cons, List.filterMap_append,
        List.flatMap_cons]
      exact (h n List.mem_cons_self a hmake).append hrest

theorem items_insertAll_subperm {α : Type} [HasKey α] [LawfulHasKey α] [Labelled α]
    {below : α → List Item} (hkey : ∀ a k, below (HasKey.withKey a k) = below a)
    {make : Node → Option α} (hmade : ∀ n a, make n = some a → FreshlyMade a)
    {events : Node → List Event} {ns : List Node}
    (h : ∀ n ∈ ns, ∀ a, make n = some a → (below a).filterMap Item.report? <+~ events n)
    (scope : Scope) (hints : α → Hints) (hotkeyId : α → Option Int64) :
    let m := insertAll hints [] (ns.filterMap make)
    (m.items scope hotkeyId ++ m.flatMap fun slot => below slot.2).filterMap Item.report? <+~
      ns.flatMap events ++ renamed scope (renamings hints [] (ns.filterMap make)) := by
  intro m
  have hfresh : ∀ a ∈ ns.filterMap make, FreshlyMade a :=
    List.forall_mem_filterMap.2 fun n _ a hmake => hmade n a hmake
  rw [List.filterMap_append, filterMap_report?_items, flatMap_insertAll hkey,
    ← renamings_eq hints hfresh]
  refine List.perm_append_comm.subperm.trans ?_
  exact (filterMap_flatMap_subperm h).append (List.Subperm.refl _)

/-- The entries of a group have their reports among the events of the node it is made of. -/
theorem report?_group_subperm (n : Node) : ∀ g, madeGroup n = some g →
    g.items.filterMap Item.report? <+~ (keyedOrDrop n (groupOf n)).2 := by
  induction n using Node.induction with
  | node n ih =>
    intro g hg
    obtain ⟨-, -, -, -, -, hentries, -⟩ := madeGroup_eq_some hg
    have hbelow : ∀ c ∈ n.childNodes, ∀ e, madeEntry c = some e →
        e.items.filterMap Item.report? <+~ entryEvents c := by
      intro c hc e he
      rw [madeEntry_eq] at he
      unfold entryEvents entryOf
      cases hv : c.verdict .groupChild with
      | shortcut =>
        rw [hv] at he
        obtain ⟨s, -, rfl⟩ := Option.map_eq_some_iff.1 he
        exact List.nil_subperm
      | container =>
        rw [hv] at he
        obtain ⟨g', hg', rfl⟩ := Option.map_eq_some_iff.1 he
        exact ih c hc g' hg'
      | dropped r =>
        rw [hv] at he
        exact nomatch he
    rw [keyedOrDrop_groupOf_snd hg, Group.items_eq, Group.entryItems, hentries]
    refine (items_insertAll_subperm Entry.items_withKey (fun _ _ => freshlyMade_entry) hbelow
      _ _ _).trans ?_
    exact (entriesOf_snd_perm _ _ _).symm.subperm

/-- The entries of a category have their reports among the events of the node it is made of. -/
theorem report?_category_subperm {n : Node} {c : Category} (hc : madeCategory n = some c) :
    c.items.filterMap Item.report? <+~ categoryEvents n := by
  have hevents := categoryEvents_perm hc
  obtain ⟨name, identifier, -, -, -, rfl⟩ := madeCategory_eq_some hc
  have hbelow : ∀ c ∈ n.childNodes, ∀ g, directGroup c = some g →
      g.items.filterMap Item.report? <+~ childEvents c := by
    intro c _ g hg
    unfold directGroup at hg
    split at hg
    · rename_i hv
      unfold childEvents
      rw [hv]
      exact report?_group_subperm c g hg
    · exact nomatch hg
  have hgroups := items_insertAll_subperm Group.items_withKey
    (fun _ _ h => freshlyMade_group (directGroup_eq_some h)) hbelow
    (.category (DisplayName.key (DisplayName.clean name))) groupHints fun _ => none
  have hfresh : ∀ s ∈ n.childNodes.filterMap directShortcut, FreshlyMade s :=
    List.forall_mem_filterMap.2 fun _ _ _ hmade =>
      freshlyMade_shortcut (directShortcut_eq_some hmade)
  unfold Category.items Category.shortcutItems Category.subgroupItems
  rw [List.append_assoc, List.filterMap_append, filterMap_report?_items,
    ← renamings_eq shortcutHints hfresh]
  refine ((List.subperm_append_left _).2 hgroups).trans ?_
  refine (List.perm_append_comm_assoc _ _ _).subperm.trans ?_
  rw [← renamed_append]
  exact hevents.symm.subperm

theorem report?_items_subperm (ns : List Node) :
    (ofNodes ns).items.filterMap Item.report? <+~ (ofNodes ns).events := by
  unfold items categoryItems
  rw [ofNodes_categories]
  refine (items_insertAll_subperm Category.items_withKey (fun _ _ => freshlyMade_category)
    (fun n _ c hc => report?_category_subperm hc) _ _ _).trans ?_
  exact (events_ofNodes_perm ns).symm.subperm

/-! ## One warning for every renamed entry -/

/-- The entries that are not stored under the key of their name. -/
def renamedItems (b : Build) : List Item := b.items.filter (·.IsRenamed)

end Build

/-- The warning that is due to a renamed entry. -/
def Item.warning (i : Item) : String :=
  i.scope.text ++ ": " ++ ("key '" ++ DisplayName.key i.label.name ++
    "' already taken, stored as '" ++ i.label.stored ++ "'")

namespace Build

theorem filterMap_warning?_report? (items : List Item) :
    (items.filterMap Item.report?).filterMap Event.warning? =
      (items.filter (·.IsRenamed)).map Item.warning := by
  induction items with
  | nil => rfl
  | cons i items ih =>
    by_cases h : i.label.stored = DisplayName.key i.label.name
    · have hreport : i.report? = none := by simp [Item.report?, Label.renaming?, h]
      have hsame : ¬ i.IsRenamed := fun hne => hne h
      rw [List.filterMap_cons_none hreport, List.filter_cons_of_neg (by simpa using hsame), ih]
    · have hreport : i.report? = some (.renamed i.scope
          ⟨DisplayName.key i.label.name, i.label.stored⟩) := by
        simp [Item.report?, Label.renaming?, h]
      have hother : i.IsRenamed := h
      rw [List.filterMap_cons_some hreport, List.filter_cons_of_pos (by simpa using hother),
        List.map_cons, ← ih]
      rfl

/-- Every renamed entry has a warning, and equal warnings of different entries are counted. -/
theorem warning_renamedItems_subperm (ns : List Node) :
    (ofNodes ns).renamedItems.map Item.warning <+~ (ofNodes ns).warnings := by
  obtain ⟨events, hperm, hsub⟩ := report?_items_subperm ns
  rw [renamedItems, ← filterMap_warning?_report?]
  exact ⟨events.filterMap Event.warning?, hperm.filterMap _, hsub.filterMap _⟩

/-- A renamed entry stands beside the one that has the key of its name. -/
theorem exists_taken_of_mem_items {α : Type} [HasKey α] [LawfulHasKey α] [Labelled α]
    (scope : Scope) (hints : α → Hints) (hotkeyId : α → Option Int64) (as : List α)
    (hmade : ∀ a ∈ as, FreshlyMade a) :
    ∀ i ∈ (insertAll hints [] as).items scope hotkeyId, i.IsRenamed →
      ∃ l ∈ i.mapping, l.stored = DisplayName.key i.label.name := by
  intro i hi hrenamed
  obtain ⟨k, a, hmem, rfl⟩ := Keyed.mem_items.1 hi
  exact (renamed_of_stored_ne hmade (List.mem_map.2 ⟨(k, a), hmem, rfl⟩) hrenamed).2

/-- What is part of a list up to order has places of its own in it. -/
theorem exists_injective_of_subperm {α : Type} {f : α → String} {as : List α} {ts : List String}
    (h : as.map f <+~ ts) :
    ∃ position : Fin as.length → Fin ts.length, Function.Injective position ∧
      ∀ j, ts[position j] = f as[j] := by
  have hlen : as.length = (as.map f).length := (List.length_map f).symm
  refine ⟨fun j => h.idxInj (j.cast hlen), ?_, ?_⟩
  · intro j j' hj
    have hval : (j.cast hlen).val = (j'.cast hlen).val := congrArg Fin.val (h.idxInj_injective hj)
    exact Fin.ext hval
  · intro j
    show ts[(h.idxInj (j.cast hlen) : Nat)] = f as[j]
    rw [h.getElem_idxInj_eq_getElem]
    simp

/-- **No silent renaming.** The entries of a tree that are not stored under the key of their name,
wherever they stand, have each a warning of their own, which says where they are and what they are
stored as; and the key of their name is in use beside them. -/
theorem warned_ofNodes (ns : List Node) :
    let b := ofNodes ns
    (∃ position : Fin b.renamedItems.length → Fin b.warnings.length,
      Function.Injective position ∧ ∀ j,
        b.warnings[position j] = b.renamedItems[j].warning ∧
        ∃ l ∈ b.renamedItems[j].mapping,
          l.stored = DisplayName.key b.renamedItems[j].label.name) ∧
    (b.warnings = [] → ∀ i ∈ b.items, i.label.stored = DisplayName.key i.label.name) := by
  intro b
  have hwarned := warning_renamedItems_subperm ns
  constructor
  · obtain ⟨position, hinj, hwarning⟩ := exists_injective_of_subperm hwarned
    refine ⟨position, hinj, fun j => ⟨hwarning j, ?_⟩⟩
    have hmem : b.renamedItems[j] ∈ b.renamedItems := List.getElem_mem j.isLt
    obtain ⟨hitem, hrenamed⟩ := List.mem_filter.1 hmem
    exact forall_items_ofNodes (motive := fun i => i.IsRenamed →
        ∃ l ∈ i.mapping, l.stored = DisplayName.key i.label.name) ns
      (fun scope hints hotkeyId as _ _ hmade =>
        exists_taken_of_mem_items scope hints hotkeyId as hmade)
      _ hitem (of_decide_eq_true hrenamed)
  · intro hnone i hi
    by_contra hrenamed
    have hmem : i ∈ b.renamedItems := List.mem_filter.2 ⟨hi, decide_eq_true hrenamed⟩
    have hempty : b.renamedItems.map Item.warning = [] := by
      rw [hnone] at hwarned
      exact List.subperm_nil.1 hwarned
    rw [List.map_eq_nil_iff.1 hempty] at hmem
    exact absurd hmem List.not_mem_nil

end Build

end HotkeyTree
