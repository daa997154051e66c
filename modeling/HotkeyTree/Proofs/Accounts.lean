import HotkeyTree.Proofs.Reasons
import HotkeyTree.Proofs.UpToOrder
import HotkeyTree.Proofs.Warnings

/-!
# Proofs: every node that is come to is accounted for

The builder goes through the children of a container one after the other and puts what it makes of
them into the mapping of the container. Not all nodes are come to: nothing is looked at below a
shortcut or below a node without a name. `Walk.ofForest` lists the walks over children, so the nodes
that are come to are those of the walks. Each of them is in the mapping of its walk, once, or it was
reported as dropped, once, and for a reason that it deserves. Nothing else is reported but the
entries that are renamed, in every mapping that was filled (`Walk.events_perm`), and in some that
are then dropped with their container.
-/

namespace HotkeyTree

open scoped List
open Build

/-! ## Walks -/

/-- A node that is come to, and where it stands. -/
inductive Visit where
  | top (n : Node)
  | below (p : Position) (n : Node)

namespace Visit

def node : Visit → Node
  | top n => n
  | below _ n => n

/-- The hotkey id that counts: a category has none. -/
def hotkeyId : Visit → Option Int64
  | top _ => none
  | below _ n => n.hotkeyId

def reason? : Visit → Option DropReason
  | top n => categoryReason? n
  | below p n => Build.reason? p n

/-- The report that the node was dropped, if it was. -/
def report (v : Visit) : List Event := dropReport v.node v.reason?

/-- The node as it is reported on, if it is dropped. -/
def drop? (v : Visit) : Option (Node.Attributes × DropReason) :=
  v.reason?.map fun r => (v.node.toAttributes, r)

/-- The node stands below a category or a group and can only be a container. -/
def IsContainer (v : Visit) : Prop :=
  (∃ p, v = .below p v.node) ∧ v.node.children ≠ none ∧ v.node.hotkeyId = none

/-- What a node must be like to be dropped for a reason. -/
def Deserves (v : Visit) : DropReason → Prop
  | .missingName => v.node.name = none ∨ v.node.name = some ""
  | .missingIdentifier => v = .top v.node ∧ v.node.nonEmptyName ≠ none ∧
      (v.node.identifier = none ∨ v.node.identifier = some "")
  | .displayOnly => v.node.nodeClass = some "DisplayOnlyNode"
  | .noHotkey => v.node.hotkeyId = none ∧ v.node.childNodes = []
  | .emptyContainer => v.IsContainer ∧ v.node.nonEmptyName ≠ none ∧
      ∀ c ∈ v.node.childNodes, (below .groupChild c).reason? ≠ none
  | .emptyKey => ∃ name, v.node.name = some name ∧ DisplayName.key name = ""

/-- The entry has been made of the node: it has the name of the node, a key that begins with the
one made from this name, and the node's hotkey id. -/
structure HeldBy (v : Visit) (i : Item) : Prop where
  name : v.node.nonEmptyName.map DisplayName.clean = some i.label.name
  stored : ∃ suffix, i.label.stored = DisplayName.key i.label.name ++ suffix
  hotkeyId : i.hotkeyId = v.hotkeyId

end Visit

/-- Nodes that are gone through one after the other, to be put into a mapping. -/
inductive Walk where
  /-- The nodes at the top. -/
  | forest (ns : List Node)
  /-- The children of a category. -/
  | category (n : Node)
  /-- The children of a group. -/
  | group (n : Node)

namespace Walk

def visits : Walk → List Visit
  | forest ns => ns.map .top
  | category n => n.childNodes.map (.below .categoryChild)
  | group n => n.childNodes.map (.below .groupChild)

/-- What is in the mapping after the walk; a category has two mappings. -/
def items : Walk → List Item
  | forest ns => (ofNodes ns).categoryItems
  | category n => ((categoryOf n).1.map fun c => c.shortcutItems ++ c.subgroupItems).getD []
  | group n => ((groupOf n).1.map Group.entryItems).getD []

/-- What is reported on the walk: the nodes that are dropped and the entries that are renamed. -/
def reports (w : Walk) : List Event :=
  w.visits.flatMap Visit.report ++ w.items.filterMap Item.report?

/-- The nodes that are dropped on the walk. -/
def drops (w : Walk) : List (Node.Attributes × DropReason) := w.visits.filterMap Visit.drop?

mutual

/-- The walks that begin at a container: there are none if it has no name or no children. -/
def ofContainer : Node → List Walk
  | ⟨_, none⟩ => []
  | ⟨a, some nodes⟩ =>
    if (a.name.filter (· ≠ "")).isNone || nodes.isEmpty then []
    else group ⟨a, some nodes⟩ :: ofChildren .groupChild nodes
termination_by structural n => n

/-- The walks that begin at those nodes of a list that are containers. -/
def ofChildren (p : Position) : List Node → List Walk
  | [] => []
  | n :: ns => (if n.verdict p = .container then ofContainer n else []) ++ ofChildren p ns
termination_by structural ns => ns

end

/-- The walks that begin at a node at the top: there are none if it has no name or identifier. -/
def ofTop (n : Node) : List Walk :=
  if n.nonEmptyName ≠ none ∧ n.nonEmptyIdentifier ≠ none then
    category n :: ofChildren .categoryChild n.childNodes
  else []

def ofForest (ns : List Node) : List Walk := forest ns :: ns.flatMap ofTop

end Walk

/-- The nodes that are come to. -/
def Visit.ofForest (ns : List Node) : List Visit := (Walk.ofForest ns).flatMap Walk.visits

/-- A node that was reported as dropped. -/
def Event.drop? : Event → Option (Node.Attributes × DropReason)
  | dropped a r => some (a, r)
  | renamed .. => none

/-- How nodes and reports match. -/
structure Accounted (ns : List Node) : Prop where
  /-- What is not dropped on a walk is in the mapping of the walk, and nothing else is. -/
  inserted : ∀ w ∈ Walk.ofForest ns,
    UpToOrder Visit.HeldBy (w.visits.filter (·.reason?.isNone)) w.items
  /-- What is dropped is reported, and nothing else is. -/
  dropped : (ofNodes ns).events.filterMap Event.drop? ~
    (Visit.ofForest ns).filterMap Visit.drop?
  count : ((Walk.ofForest ns).flatMap Walk.items).length +
    ((ofNodes ns).events.filterMap Event.drop?).length = (Visit.ofForest ns).length
  deserved : ∀ v ∈ Visit.ofForest ns, ∀ r, v.reason? = some r → v.Deserves r

namespace Walk

/-! ## Walks of containers -/

theorem ofChildren_eq (p : Position) (ns : List Node) :
    ofChildren p ns =
      ns.flatMap fun n => if n.verdict p = .container then ofContainer n else [] := by
  induction ns with
  | nil => rfl
  | cons n ns ih => rw [ofChildren, ih, List.flatMap_cons]

theorem ofContainer_eq (n : Node) :
    ofContainer n =
      if n.nonEmptyName = none ∨ n.childNodes = [] then []
      else group n :: ofChildren .groupChild n.childNodes := by
  obtain ⟨a, _ | nodes⟩ := n
  · simp [ofContainer, Node.childNodes]
  · rw [ofContainer]
    refine if_congr ?_ rfl rfl
    rw [Bool.or_eq_true, Option.isNone_iff_eq_none, List.isEmpty_iff]
    rfl

theorem items_group {n : Node} {name : String} (hname : n.nonEmptyName = some name) :
    (group n).items = Keyed.items (.group (DisplayName.key name)) Entry.hotkeyId
      (Keyed.insertAll entryHints [] (n.childNodes.filterMap madeEntry)) := by
  show ((groupOf n).1.map Group.entryItems).getD [] = _
  rw [groupOf_fst_of_named hname]
  by_cases hempty : Keyed.insertAll entryHints [] (n.childNodes.filterMap madeEntry) = []
  · rw [if_pos hempty, hempty]
    rfl
  · rw [if_neg hempty]
    show Keyed.items (.group (DisplayName.key (DisplayName.clean name))) _ _ = _
    rw [DisplayName.key_clean]

theorem items_category {n : Node} {name identifier : String} (hname : n.nonEmptyName = some name)
    (hident : n.nonEmptyIdentifier = some identifier) :
    (category n).items =
      Keyed.items (.category (DisplayName.key name)) (fun s => some s.id)
          (Keyed.insertAll shortcutHints [] (n.childNodes.filterMap directShortcut)) ++
        Keyed.items (.category (DisplayName.key name)) (fun _ => none)
          (Keyed.insertAll groupHints [] (n.childNodes.filterMap directGroup)) := by
  show ((categoryOf n).1.map _).getD [] = _
  rw [categoryOf_fst, hname, Option.bind_some, hident]
  show Keyed.items (.category (DisplayName.key (DisplayName.clean name))) _ _ ++
    Keyed.items (.category (DisplayName.key (DisplayName.clean name))) _ _ = _
  rw [DisplayName.key_clean]

/-! ## Reports on walks -/

/-- The renamings among entries that were just stored are those that the mapping tells of. -/
theorem renamed_insertAll {α : Type} [HasKey α] [LawfulHasKey α] [Labelled α]
    {make : Node → Option α} (hfresh : ∀ n a, make n = some a → FreshlyMade a) (scope : Scope)
    (hints : α → Keyed.Hints) (hotkeyId : α → Option Int64) (ns : List Node) :
    renamed scope (Keyed.renamings hints [] (ns.filterMap make)) =
      ((Keyed.insertAll hints [] (ns.filterMap make)).items scope hotkeyId).filterMap
        Item.report? := by
  have hmade : ∀ a ∈ ns.filterMap make, FreshlyMade a :=
    List.forall_mem_filterMap.2 fun n _ a hmake => hfresh n a hmake
  rw [Keyed.filterMap_report?_items, ← Keyed.renamings_eq hints hmade]

/-- The reports on children, if those below each of them are known. -/
theorem childReports_perm (p : Position) {ns : List Node}
    (h : ∀ n ∈ ns, groupWalk n ~ (ofContainer n).flatMap reports) :
    ns.flatMap (childReports p) ~
      (ns.map (Visit.below p)).flatMap Visit.report ++ (ofChildren p ns).flatMap reports := by
  have hbelow : ∀ n ∈ ns, walkBelow p n ~
      (if n.verdict p = .container then ofContainer n else []).flatMap reports := by
    intro n hn
    unfold walkBelow
    split
    · exact h n hn
    · exact List.Perm.refl _
  rw [List.flatMap_map, ofChildren_eq, List.flatMap_assoc]
  refine (List.flatMap_append_perm ns _ _).symm.trans (List.perm_append_comm.trans ?_)
  exact (List.Perm.flatMap_left ns hbelow).append_left _

theorem groupWalk_perm_reports (n : Node) :
    groupWalk n ~ (ofContainer n).flatMap reports := by
  induction n using Node.induction with
  | node n ih =>
    rw [ofContainer_eq]
    cases hname : n.nonEmptyName with
    | none => simp [groupWalk, hname]
    | some name =>
      by_cases hnil : n.childNodes = []
      · simp [groupWalk, hname, hnil, entriesOf]
      · have hwalk := groupWalk_perm hname
        rw [renamed_insertAll (fun _ _ => freshlyMade_entry) _ _ Entry.hotkeyId,
          ← items_group hname] at hwalk
        rw [if_neg (by simp [hnil]), List.flatMap_cons, reports, List.append_assoc]
        refine hwalk.trans (((childReports_perm .groupChild ih).append_right _).trans ?_)
        rw [List.append_assoc]
        exact List.perm_append_comm.append_left _

theorem categoryWalk_perm_reports (n : Node) :
    categoryWalk n ~ (ofTop n).flatMap reports := by
  unfold ofTop
  cases hname : n.nonEmptyName with
  | none => simp [categoryWalk, hname]
  | some name =>
    cases hident : n.nonEmptyIdentifier with
    | none => simp [categoryWalk, hname, hident]
    | some identifier =>
      have hwalk := categoryWalk_perm hname hident
      rw [renamed_append,
        renamed_insertAll (fun _ _ h => freshlyMade_shortcut (directShortcut_eq_some h)) _ _
          (fun s => some s.id),
        renamed_insertAll (fun _ _ h => freshlyMade_group (directGroup_eq_some h)) _ _
          (fun _ => none),
        ← List.filterMap_append, ← items_category hname hident] at hwalk
      have hchildren := childReports_perm .categoryChild fun c (_ : c ∈ n.childNodes) =>
        groupWalk_perm_reports c
      rw [if_pos (by simp), List.flatMap_cons, reports, List.append_assoc]
      refine hwalk.trans ((hchildren.append_right _).trans ?_)
      rw [List.append_assoc]
      exact List.perm_append_comm.append_left _

/-- **The log is what is reported on the walks**: every node that is dropped, and every entry that
is renamed in a mapping, be it that the mapping is dropped afterwards. -/
theorem events_perm (ns : List Node) : (ofNodes ns).events ~ (ofForest ns).flatMap reports := by
  have hevents := events_ofNodes_perm ns
  rw [renamed_insertAll (fun _ _ => freshlyMade_category) _ _ (fun _ => none),
    ← ofNodes_categories, List.flatMap_congr fun n _ => categoryEvents_eq n] at hevents
  have htop : (ns.flatMap fun n => categoryWalk n ++ dropReport n (categoryReason? n)) ~
      (ns.map Visit.top).flatMap Visit.report ++ (ns.flatMap ofTop).flatMap reports := by
    rw [List.flatMap_map, List.flatMap_assoc]
    refine (List.flatMap_append_perm ns _ _).symm.trans (List.perm_append_comm.trans ?_)
    exact (List.Perm.flatMap_left ns fun n _ => categoryWalk_perm_reports n).append_left _
  rw [ofForest, List.flatMap_cons, reports, List.append_assoc]
  refine hevents.trans ((htop.append_right _).trans ?_)
  rw [List.append_assoc]
  exact List.perm_append_comm.append_left _

theorem drop?_dropReport (n : Node) (r : Option DropReason) :
    (dropReport n r).filterMap Event.drop? = (r.map fun r => (n.toAttributes, r)).toList := by
  cases r <;> rfl

/-- An entry that is renamed is no node that is dropped. -/
theorem drop?_reports (w : Walk) : w.reports.filterMap Event.drop? = w.drops := by
  have hrenamed : (w.items.filterMap Item.report?).filterMap Event.drop? = [] := by
    rw [List.filterMap_filterMap, List.filterMap_eq_nil_iff]
    intro i _
    unfold Item.report?
    cases i.label.renaming? <;> rfl
  rw [reports, List.filterMap_append, hrenamed, List.append_nil, List.filterMap_flatMap]
  unfold drops
  rw [List.filterMap_eq_flatMap_toList]
  exact List.flatMap_congr fun v _ => drop?_dropReport v.node v.reason?

/-- The drops in the log are those of the walks. -/
theorem drop?_events_perm (ns : List Node) :
    (ofNodes ns).events.filterMap Event.drop? ~ (ofForest ns).flatMap drops := by
  have hevents := (events_perm ns).filterMap Event.drop?
  rw [List.filterMap_flatMap] at hevents
  exact hevents.trans (List.Perm.of_eq (List.flatMap_congr fun w _ => drop?_reports w))

/-! ## Entries after walks -/

/-- What is stored of nodes is held by the entries of the mapping, one by one. -/
theorem forall₂_heldBy {α : Type} [HasKey α] [Labelled α] {make : Node → Option α}
    (visit : Node → Visit) (hotkeyId : α → Option Int64)
    (hkeep : ∀ a k, hotkeyId (HasKey.withKey a k) = hotkeyId a)
    (hfresh : ∀ n a, make n = some a → FreshlyMade a)
    (hmade : ∀ n a, make n = some a →
      (visit n).node.nonEmptyName.map DisplayName.clean = some (Labelled.name a) ∧
        hotkeyId a = (visit n).hotkeyId)
    (scope : Scope) (hints : α → Keyed.Hints) (ns : List Node) :
    List.Forall₂ (fun n i => (visit n).HeldBy i) (ns.filter fun n => (make n).isSome)
      ((Keyed.insertAll hints [] (ns.filterMap make)).items scope hotkeyId) := by
  have hstores := Keyed.forall₂_insertAll hints (ns.filterMap make)
  unfold Keyed.items
  rw [List.forall₂_map_right_iff]
  -- from here on only the slots matter, not how they came about
  generalize Keyed.insertAll hints [] (ns.filterMap make) = m at hstores ⊢
  generalize Keyed.labels m = labels
  induction ns generalizing m with
  | nil =>
    cases hstores
    exact .nil
  | cons n ns ih =>
    cases hmake : make n with
    | none =>
      rw [List.filterMap_cons_none hmake] at hstores
      rw [List.filter_cons_of_neg (by simp [hmake])]
      exact ih m hstores
    | some a =>
      rw [List.filterMap_cons_some hmake] at hstores
      rw [List.filter_cons_of_pos (by simp [hmake])]
      cases hstores with
      | @cons _ slot _ m hslot hrest =>
        obtain ⟨hname, hid⟩ := hmade n a hmake
        have hsame := hslot.apply_eq (f := Labelled.name) Labelled.name_withKey
        refine .cons ⟨?_, ?_, ?_⟩ (ih m hrest)
        · rw [hsame]
          exact hname
        · rw [hsame, ← (hfresh n a hmake).key_eq]
          exact hslot.exists_suffix
        · rw [← hid]
          exact hslot.apply_eq hkeep

theorem madeShortcut_held {n : Node} {s : Shortcut} (h : madeShortcut n = some s) :
    n.nonEmptyName.map DisplayName.clean = some s.name ∧ some s.id = n.hotkeyId := by
  obtain ⟨name, id, hname, hid, -, hsid, hsname, -⟩ := madeShortcut_eq_some h
  exact ⟨by rw [hname, hsname, Option.map_some], by rw [hid, hsid]⟩

theorem madeGroup_held {p : Position} {n : Node} {g : Group} (hv : n.verdict p = .container)
    (h : madeGroup n = some g) :
    n.nonEmptyName.map DisplayName.clean = some g.name ∧ none = n.hotkeyId := by
  obtain ⟨name, hname, -, hgname, -⟩ := madeGroup_eq_some h
  exact ⟨by rw [hname, hgname, Option.map_some], (verdict_eq_container hv).2.symm⟩

theorem madeEntry_held {n : Node} {e : Entry} (h : madeEntry n = some e) :
    n.nonEmptyName.map DisplayName.clean = some e.name ∧ e.hotkeyId = n.hotkeyId := by
  rw [madeEntry_eq] at h
  cases hv : n.verdict .groupChild with
  | shortcut =>
    rw [hv] at h
    obtain ⟨s, hs, rfl⟩ := Option.map_eq_some_iff.1 h
    exact madeShortcut_held hs
  | container =>
    rw [hv] at h
    obtain ⟨g, hg, rfl⟩ := Option.map_eq_some_iff.1 h
    exact madeGroup_held hv hg
  | dropped r =>
    rw [hv] at h
    exact nomatch h

theorem directShortcut_held {n : Node} {s : Shortcut} (h : directShortcut n = some s) :
    n.nonEmptyName.map DisplayName.clean = some s.name ∧ some s.id = n.hotkeyId :=
  madeShortcut_held (directShortcut_eq_some h)

theorem directGroup_held {n : Node} {g : Group} (h : directGroup n = some g) :
    n.nonEmptyName.map DisplayName.clean = some g.name ∧ none = n.hotkeyId := by
  have hv : n.verdict .categoryChild = .container := by
    by_contra hv
    rw [directGroup, if_neg hv] at h
    exact nomatch h
  exact madeGroup_held hv (directGroup_eq_some h)

theorem madeCategory_held {n : Node} {c : Category} (h : madeCategory n = some c) :
    n.nonEmptyName.map DisplayName.clean = some c.name := by
  obtain ⟨name, identifier, hname, -, -, rfl⟩ := madeCategory_eq_some h
  rw [hname, Option.map_some]

/-- The nodes of a walk that are not dropped, given which of them something is made of. -/
theorem filter_visits (visit : Node → Visit) {made : Node → Bool} (ns : List Node)
    (h : ∀ n, made n = true ↔ (visit n).reason? = none) :
    (ns.map visit).filter (·.reason?.isNone) = (ns.filter made).map visit := by
  rw [List.filter_map]
  refine congrArg (List.map visit) (List.filter_congr fun n _ => ?_)
  rw [Bool.eq_iff_iff, h n]
  exact Option.isNone_iff_eq_none

theorem isSome_iff_of_eq_none_iff {α β : Type} {a : Option α} {b : Option β}
    (h : a = none ↔ b ≠ none) : a.isSome = true ↔ b = none := by
  rw [Option.isSome_iff_ne_none, Ne, h, not_not]

theorem inserted_forest (ns : List Node) :
    UpToOrder Visit.HeldBy ((forest ns).visits.filter (·.reason?.isNone)) (forest ns).items := by
  have hkept := filter_visits .top ns fun n =>
    isSome_iff_of_eq_none_iff (madeCategory_eq_none_iff n)
  have hheld := forall₂_heldBy .top (fun _ => none) (fun _ _ => rfl)
    (fun _ _ => freshlyMade_category) (fun _ _ h => ⟨madeCategory_held h, rfl⟩) .categories
    categoryHints ns
  show UpToOrder _ ((ns.map _).filter _) (ofNodes ns).categoryItems
  rw [hkept, categoryItems, ofNodes_categories]
  exact .of_forall₂ (List.forall₂_map_left_iff.2 hheld)

theorem inserted_group {n : Node} (hname : n.nonEmptyName ≠ none) :
    UpToOrder Visit.HeldBy ((group n).visits.filter (·.reason?.isNone)) (group n).items := by
  obtain ⟨name, hname⟩ := Option.ne_none_iff_exists'.1 hname
  have hkept := filter_visits (.below .groupChild) n.childNodes fun c =>
    isSome_iff_of_eq_none_iff (madeEntry_eq_none_iff c)
  have hheld := forall₂_heldBy (.below .groupChild) Entry.hotkeyId
    (fun e _ => by cases e <;> rfl) (fun _ _ => freshlyMade_entry) (fun _ _ h => madeEntry_held h)
    (.group (DisplayName.key name)) entryHints n.childNodes
  show UpToOrder _ ((n.childNodes.map _).filter _) _
  rw [hkept, items_group hname]
  exact .of_forall₂ (List.forall₂_map_left_iff.2 hheld)

/-- No child of a category becomes both a shortcut and a group. -/
theorem directGroup_of_directShortcut {n : Node} (h : (directShortcut n).isSome = true) :
    directGroup n = none := by
  unfold directShortcut at h
  unfold directGroup
  split at h
  · rename_i hv
    rw [hv]
    rfl
  · exact absurd h Bool.false_ne_true

theorem filter_direct_perm (ns : List Node) :
    (ns.filter fun n => (directShortcut n).isSome || (directGroup n).isSome) ~
      (ns.filter fun n => (directShortcut n).isSome) ++
        ns.filter fun n => (directGroup n).isSome := by
  have hsplit := List.filter_append_perm (fun n => (directShortcut n).isSome)
    (ns.filter fun n => (directShortcut n).isSome || (directGroup n).isSome)
  rw [List.filter_filter, List.filter_filter] at hsplit
  refine hsplit.symm.trans (List.Perm.of_eq (congrArg₂ _ ?_ ?_))
  · refine List.filter_congr fun n _ => ?_
    cases (directShortcut n).isSome <;> simp
  · refine List.filter_congr fun n _ => ?_
    cases hs : (directShortcut n).isSome with
    | true => simp [directGroup_of_directShortcut hs]
    | false => simp

theorem inserted_category {n : Node} (hname : n.nonEmptyName ≠ none)
    (hident : n.nonEmptyIdentifier ≠ none) :
    UpToOrder Visit.HeldBy ((category n).visits.filter (·.reason?.isNone)) (category n).items := by
  obtain ⟨name, hname⟩ := Option.ne_none_iff_exists'.1 hname
  obtain ⟨identifier, hident⟩ := Option.ne_none_iff_exists'.1 hident
  have hmade : ∀ c, ((directShortcut c).isSome || (directGroup c).isSome) = true ↔
      (Visit.below .categoryChild c).reason? = none := by
    intro c
    have hnone := not_congr (direct_eq_none_iff c)
    rw [not_not, not_and_or, ← Ne, ← Ne, ← Option.isSome_iff_ne_none,
      ← Option.isSome_iff_ne_none] at hnone
    exact Bool.or_eq_true_iff.trans hnone
  have hshortcuts := forall₂_heldBy (.below .categoryChild)
    (fun s : Shortcut => some s.id) (fun _ _ => rfl)
    (fun _ _ h => freshlyMade_shortcut (directShortcut_eq_some h))
    (fun _ _ h => directShortcut_held h) (.category (DisplayName.key name)) shortcutHints
    n.childNodes
  have hgroups := forall₂_heldBy (.below .categoryChild)
    (fun _ : Group => none) (fun _ _ => rfl)
    (fun _ _ h => freshlyMade_group (directGroup_eq_some h))
    (fun _ _ h => directGroup_held h) (.category (DisplayName.key name)) groupHints n.childNodes
  show UpToOrder _ ((n.childNodes.map _).filter _) _
  rw [filter_visits _ _ hmade, items_category hname hident]
  refine .perm_left ((filter_direct_perm n.childNodes).map _) ?_
  rw [List.map_append]
  exact .append (.of_forall₂ (List.forall₂_map_left_iff.2 hshortcuts))
    (.of_forall₂ (List.forall₂_map_left_iff.2 hgroups))

/-! ## All walks -/

theorem mem_ofContainer {w : Walk} (n : Node) :
    w ∈ ofContainer n → ∃ m, w = group m ∧ m.nonEmptyName ≠ none := by
  induction n using Node.induction with
  | node n ih =>
    intro hw
    rw [ofContainer_eq] at hw
    split at hw
    · exact absurd hw List.not_mem_nil
    · rename_i hne
      rcases List.mem_cons.1 hw with rfl | hw
      · exact ⟨n, rfl, (not_or.1 hne).1⟩
      · rw [ofChildren_eq] at hw
        obtain ⟨c, hc, hw⟩ := List.mem_flatMap.1 hw
        split at hw
        · exact ih c hc hw
        · exact absurd hw List.not_mem_nil

/-- A walk goes over all nodes at the top, over the children of a node with a name and an
identifier, or over those of a container with a name. -/
theorem mem_ofForest {w : Walk} {ns : List Node} (hw : w ∈ ofForest ns) :
    w = forest ns ∨ (∃ n, w = category n ∧ n.nonEmptyName ≠ none ∧ n.nonEmptyIdentifier ≠ none) ∨
      ∃ n, w = group n ∧ n.nonEmptyName ≠ none := by
  rcases List.mem_cons.1 hw with rfl | hw
  · exact Or.inl rfl
  · right
    obtain ⟨n, -, hw⟩ := List.mem_flatMap.1 hw
    unfold ofTop at hw
    split at hw
    · rename_i hne
      rcases List.mem_cons.1 hw with rfl | hw
      · exact Or.inl ⟨n, rfl, hne⟩
      · right
        rw [ofChildren_eq] at hw
        obtain ⟨c, -, hw⟩ := List.mem_flatMap.1 hw
        split at hw
        · exact mem_ofContainer c hw
        · exact absurd hw List.not_mem_nil
    · exact absurd hw List.not_mem_nil

theorem inserted {w : Walk} {ns : List Node} (hw : w ∈ ofForest ns) :
    UpToOrder Visit.HeldBy (w.visits.filter (·.reason?.isNone)) w.items := by
  rcases mem_ofForest hw with rfl | ⟨n, rfl, hname, hident⟩ | ⟨n, rfl, hname⟩
  · exact inserted_forest ns
  · exact inserted_category hname hident
  · exact inserted_group hname

end Walk

/-! ## Reasons are deserved -/

namespace Visit

theorem eq_none_or_empty {o : Option String} (h : o.filter (· ≠ "") = none) :
    o = none ∨ o = some "" := by
  cases o with
  | none => exact Or.inl rfl
  | some s =>
    right
    simpa [Option.filter] using h

theorem deserves_nameReason? {v : Visit} {r : DropReason} (h : nameReason? v.node = some r) :
    v.Deserves r := by
  unfold nameReason? at h
  split at h
  · rename_i hname
    obtain rfl := Option.some.inj h
    exact eq_none_or_empty hname
  · rename_i name hname
    split at h
    · rename_i hkey
      obtain rfl := Option.some.inj h
      exact ⟨name, (Option.filter_eq_some_iff.1 hname).1, hkey⟩
    · exact nomatch h

theorem deserves_categoryReason? {n : Node} {r : DropReason} (h : categoryReason? n = some r) :
    (top n).Deserves r := by
  unfold categoryReason? at h
  split at h
  · rename_i hident
    obtain rfl := Option.some.inj h
    exact ⟨rfl, hident.1, eq_none_or_empty hident.2⟩
  · exact deserves_nameReason? h

theorem deserves_groupReason? {p : Position} {n : Node} {r : DropReason}
    (hv : n.verdict p = .container) (h : groupReason? n = some r) : (below p n).Deserves r := by
  unfold groupReason? at h
  split at h
  · rename_i hempty
    obtain rfl := Option.some.inj h
    refine ⟨⟨⟨p, rfl⟩, verdict_eq_container hv⟩, hempty.1, ?_⟩
    intro c hc
    exact (madeEntry_eq_none_iff c).1 (hempty.2 c hc)
  · exact deserves_nameReason? h

theorem deserves_verdict {p : Position} {n : Node} {r : DropReason}
    (h : n.verdict p = .dropped r) : (below p n).Deserves r := by
  unfold Node.verdict at h
  split_ifs at h with hcontainer hname hlabel hid hchildren
  · obtain rfl := Verdict.dropped.inj h
    exact eq_none_or_empty (Option.isNone_iff_eq_none.1 hname)
  · obtain rfl := Verdict.dropped.inj h
    exact eq_of_beq hlabel
  · obtain rfl := Verdict.dropped.inj h
    refine ⟨?_, ?_⟩
    · show n.hotkeyId = none
      simpa using hid
    · show n.childNodes = []
      simpa using hchildren

theorem deserves_reason? {v : Visit} {r : DropReason} (h : v.reason? = some r) :
    v.Deserves r := by
  cases v with
  | top n => exact deserves_categoryReason? h
  | below p n =>
    have h : Build.reason? p n = some r := h
    unfold Build.reason? at h
    cases hv : n.verdict p with
    | shortcut =>
      rw [hv] at h
      exact deserves_nameReason? h
    | container =>
      rw [hv] at h
      exact deserves_groupReason? hv h
    | dropped r' =>
      rw [hv] at h
      obtain rfl := Option.some.inj h
      exact deserves_verdict hv

end Visit

/-! ## The account -/

namespace Walk

theorem length_kept_add_dropped (vs : List Visit) :
    (vs.filter (·.reason?.isNone)).length + (vs.filterMap Visit.drop?).length = vs.length := by
  induction vs with
  | nil => rfl
  | cons v vs ih =>
    cases hr : v.reason? with
    | none =>
      rw [List.filter_cons_of_pos (by simp [hr]),
        List.filterMap_cons_none (by simp [Visit.drop?, hr])]
      simp only [List.length_cons]
      omega
    | some r =>
      rw [List.filter_cons_of_neg (by simp [hr]),
        List.filterMap_cons_some (b := (v.node.toAttributes, r)) (by simp [Visit.drop?, hr])]
      simp only [List.length_cons]
      omega

theorem length_items {ns : List Node} {ws : List Walk} (h : ∀ w ∈ ws, w ∈ ofForest ns) :
    (ws.flatMap items).length = ((ws.flatMap visits).filter (·.reason?.isNone)).length := by
  induction ws with
  | nil => rfl
  | cons w ws ih =>
    have hw := (inserted (h w List.mem_cons_self)).length_eq
    have hws := ih fun w' hw' => h w' (List.mem_cons_of_mem _ hw')
    simp only [List.flatMap_cons, List.filter_append, List.length_append]
    omega

end Walk

/-- **Every node that is come to is accounted for, once.** -/
theorem Build.accounted_ofNodes (ns : List Node) : Accounted ns := by
  have hdrops : (ofNodes ns).events.filterMap Event.drop? ~
      (Visit.ofForest ns).filterMap Visit.drop? := by
    unfold Visit.ofForest
    rw [List.filterMap_flatMap]
    exact Walk.drop?_events_perm ns
  refine ⟨fun w hw => Walk.inserted hw, hdrops, ?_, fun v _ r hr => Visit.deserves_reason? hr⟩
  have hitems : ((Walk.ofForest ns).flatMap Walk.items).length =
      ((Visit.ofForest ns).filter (·.reason?.isNone)).length := Walk.length_items fun _ hw => hw
  rw [hdrops.length_eq, hitems]
  exact Walk.length_kept_add_dropped _

end HotkeyTree
