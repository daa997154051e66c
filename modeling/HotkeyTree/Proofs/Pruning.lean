import HotkeyTree.Proofs.Accounts
import HotkeyTree.Proofs.Survivors

/-!
# Proofs: what nodes that are dropped leave behind

Nodes that are dropped leave nothing in the tree. They may leave warnings: a container is filled,
and reports what is renamed in it, before its name is found to give no key, or before the container
around it is found to be empty. So if the nodes that are dropped are taken out of a forest, just the
warnings about what was stored in such containers, and in those inside them, go away. What is left
has one warning for every renamed entry of the tree.
-/

namespace HotkeyTree

open scoped List
open Build

namespace Build

open Keyed Node

/-! ## What is still reported -/

/-- If what is left of each node reports what is due below that which is made of the node, all that
is left reports what is due in the mapping and below it, once its renamings are added. -/
theorem reports_insertAll_perm {α : Type} [HasKey α] [LawfulHasKey α] [Labelled α]
    {below : α → List Item} (hkey : ∀ a k, below (HasKey.withKey a k) = below a)
    {make : Node → Option α} (hmade : ∀ n a, make n = some a → FreshlyMade a)
    {left : Node → Option Node} {events : Node → List Event} {ns : List Node}
    (h : ∀ n ∈ ns, (left n).toList.flatMap events ~
      ((make n).toList.flatMap below).filterMap Item.report?)
    (scope : Scope) (hints : α → Hints) (hotkeyId : α → Option Int64) :
    let m := insertAll hints [] (ns.filterMap make)
    (ns.filterMap left).flatMap events ++
        renamed scope (renamings hints [] (ns.filterMap make)) ~
      (m.items scope hotkeyId ++ m.flatMap fun slot => below slot.2).filterMap Item.report? := by
  intro m
  have hfresh : ∀ a ∈ ns.filterMap make, FreshlyMade a :=
    List.forall_mem_filterMap.2 fun n _ a hmake => hmade n a hmake
  have hbelow : (ns.filterMap left).flatMap events ~
      ((ns.filterMap make).flatMap below).filterMap Item.report? := by
    rw [List.filterMap_eq_flatMap_toList, List.flatMap_assoc, List.filterMap_eq_flatMap_toList make,
      List.flatMap_assoc, List.filterMap_flatMap]
    exact List.Perm.flatMap_left ns h
  rw [List.filterMap_append, filterMap_report?_items, flatMap_insertAll hkey,
    ← renamings_eq hints hfresh]
  exact List.perm_append_comm.trans (hbelow.append_left _)

/-- What is left of a container of which a group is made reports what is due to the entries of the
group. -/
def ReportsGroup (n : Node) : Prop :=
  ∀ g, madeGroup n = some g → groupWalk (n.pruned .groupChild) ~ g.items.filterMap Item.report?

/-- The group made of a child that stands at `p`, if there is one. -/
def groupAt (p : Position) (n : Node) : Option Group :=
  if n.verdict p = .container then madeGroup n else none

/-- The entries below those made of the children of a group are those of groups. -/
theorem flatMap_items_madeEntry (n : Node) :
    (madeEntry n).toList.flatMap Entry.items =
      (groupAt .groupChild n).toList.flatMap Group.items := by
  rw [madeEntry_eq, groupAt]
  cases n.verdict .groupChild with
  | shortcut => cases madeShortcut n <;> rfl
  | container => cases madeGroup n <;> rfl
  | dropped r => rfl

theorem reports_child {p : Position} {n : Node} (h : ReportsGroup n) :
    (survivingChild? p n).toList.flatMap (childReports p) ~
      ((groupAt p n).toList.flatMap Group.items).filterMap Item.report? := by
  unfold groupAt
  cases hleft : survivingChild? p n with
  | none =>
    have hreason := reason?_of_survivingChild?_eq_none hleft
    split
    · rename_i hv
      rw [Build.reason?, hv] at hreason
      rw [(madeGroup_eq_none_iff n).2 hreason]
      exact List.Perm.refl _
    · exact List.Perm.refl _
  | some n' =>
    have hown := (childReports_survivor hleft (sameGroup n)).1
    rw [Option.toList_some, List.flatMap_singleton, hown, walkBelow]
    obtain ⟨hreason, ⟨hv, rfl⟩ | ⟨hv, hv', rfl⟩⟩ := survivingChild?_eq_some hleft
    · -- nothing is reported of a shortcut
      rw [if_neg hv, if_neg hv]
      exact List.Perm.refl _
    · rw [if_pos hv', if_pos hv]
      cases hg : madeGroup n with
      | none =>
        have hdropped := (madeGroup_eq_none_iff n).1 hg
        rw [Build.reason?, hv] at hreason
        exact absurd hreason hdropped
      | some g =>
        rw [Option.toList_some, List.flatMap_singleton]
        exact h g hg

theorem reportsGroup (n : Node) : ReportsGroup n := by
  induction n using Node.induction with
  | node n ih =>
    intro g hg
    obtain ⟨name, hname, -, hgname, -, hentries, -⟩ := madeGroup_eq_some hg
    have hwalk := groupWalk_perm (n := n.pruned .groupChild)
      ((nonEmpty_pruned .groupChild n).1.trans hname)
    rw [childNodes_pruned, filterMap_madeEntry_survivors fun c _ => sameGroup c] at hwalk
    rw [Group.items_eq, Group.entryItems, hentries, hgname, DisplayName.key_clean]
    refine hwalk.trans (reports_insertAll_perm Entry.items_withKey (fun _ _ => freshlyMade_entry)
      (fun c hc => ?_) _ _ _)
    rw [flatMap_items_madeEntry]
    exact reports_child (ih c hc)

theorem reports_category (n : Node) :
    n.survivor?.toList.flatMap categoryEvents ~
      ((madeCategory n).toList.flatMap Category.items).filterMap Item.report? := by
  cases hleft : n.survivor? with
  | none =>
    rw [madeCategory_of_survivor?_eq_none hleft]
    exact List.Perm.refl _
  | some n' =>
    have hown := (categoryEvents_survivor hleft).1
    obtain ⟨hreason, rfl⟩ := survivor?_eq_some hleft
    rw [Option.toList_some, List.flatMap_singleton, hown]
    cases hmade : madeCategory n with
    | none => exact absurd hreason ((madeCategory_eq_none_iff n).1 hmade)
    | some c =>
      rw [Option.toList_some, List.flatMap_singleton]
      obtain ⟨name, identifier, hname, hident, -, rfl⟩ := madeCategory_eq_some hmade
      obtain ⟨hname', hident'⟩ := nonEmpty_pruned .categoryChild n
      obtain ⟨hshortcuts, hgroups⟩ := filterMap_direct_survivors n.childNodes
      have hwalk := categoryWalk_perm (n := n.pruned .categoryChild) (hname'.trans hname)
        (hident'.trans hident)
      rw [childNodes_pruned, hshortcuts, hgroups, renamed_append] at hwalk
      have hfresh : ∀ s ∈ n.childNodes.filterMap directShortcut, FreshlyMade s :=
        List.forall_mem_filterMap.2 fun _ _ _ hs => freshlyMade_shortcut (directShortcut_eq_some hs)
      have hbelow := reports_insertAll_perm Group.items_withKey
        (fun _ _ h => freshlyMade_group (directGroup_eq_some h))
        (fun c (_ : c ∈ n.childNodes) => reports_child (reportsGroup c))
        (.category (DisplayName.key name)) groupHints fun _ => none
      unfold Category.items Category.shortcutItems Category.subgroupItems
      rw [DisplayName.key_clean, List.append_assoc, List.filterMap_append, filterMap_report?_items,
        ← renamings_eq shortcutHints hfresh]
      refine hwalk.trans ((List.perm_append_comm_assoc _ _ _).trans ?_)
      exact hbelow.append_left _

/-- What is left of a forest reports what is due to the entries of the tree, and nothing else. -/
theorem reports_survivors (ns : List Node) :
    (ofNodes (survivors ns)).events ~ (ofNodes ns).items.filterMap Item.report? := by
  have hmade : (survivors ns).filterMap madeCategory = ns.filterMap madeCategory := by
    unfold survivors
    rw [List.filterMap_filterMap]
    refine List.filterMap_congr fun n _ => ?_
    cases hleft : n.survivor? with
    | none => exact (madeCategory_of_survivor?_eq_none hleft).symm
    | some n' =>
      obtain ⟨-, rfl⟩ := survivor?_eq_some hleft
      exact madeCategory_pruned n
  have hevents := events_ofNodes_perm (survivors ns)
  rw [hmade] at hevents
  unfold items categoryItems
  rw [ofNodes_categories]
  exact hevents.trans (reports_insertAll_perm Category.items_withKey
    (fun _ _ => freshlyMade_category) (fun n _ => reports_category n) _ _ _)

/-! ## What is no longer reported -/

end Build

namespace Walk

mutual

/-- The walks that begin below a container that is kept, at containers that are dropped or stand in
one that is. -/
def lostBelow : Node → List Walk
  | ⟨_, none⟩ => []
  | ⟨_, some nodes⟩ => lostAmong .groupChild nodes
termination_by structural n => n

/-- The walks that begin at nodes at `p`, or below them, at containers that are dropped or stand in
one that is. -/
def lostAmong (p : Position) : List Node → List Walk
  | [] => []
  | n :: ns =>
    (if n.verdict p = .container then
      if (Build.reason? p n).isSome then ofContainer n else lostBelow n
    else []) ++ lostAmong p ns
termination_by structural ns => ns

end

/-- The walks that begin at a node at the top, or below it, at nodes that are dropped or stand in
one that is. -/
def lostAtTop (n : Node) : List Walk :=
  if (categoryReason? n).isSome then ofTop n else lostAmong .categoryChild n.childNodes

/-- The walks that fill mappings which are not part of the tree: those of containers that are
dropped, and of all containers in these. -/
def lost (ns : List Node) : List Walk := ns.flatMap lostAtTop

theorem lostAmong_eq (p : Position) (ns : List Node) :
    lostAmong p ns = ns.flatMap fun n =>
      if n.verdict p = .container then
        if (Build.reason? p n).isSome then ofContainer n else lostBelow n
      else [] := by
  induction ns with
  | nil => rfl
  | cons n ns ih => rw [lostAmong, ih, List.flatMap_cons]

theorem lostBelow_eq (n : Node) : lostBelow n = lostAmong .groupChild n.childNodes := by
  obtain ⟨a, _ | nodes⟩ := n <;> rfl

theorem items_group_pruned (n : Node) : (group (n.pruned .groupChild)).items = (group n).items := by
  show ((groupOf (n.pruned .groupChild)).1.map Group.entryItems).getD [] = _
  rw [(sameGroup n).1]
  rfl

theorem items_category_pruned (n : Node) :
    (category (n.pruned .categoryChild)).items = (category n).items := by
  show ((categoryOf (n.pruned .categoryChild)).1.map _).getD [] = _
  rw [categoryOf_pruned]
  rfl

theorem nonEmptyName_of_groupReason?_eq_none {n : Node} (h : groupReason? n = none) :
    n.nonEmptyName ≠ none := by
  intro hname
  simp [groupReason?, nameReason?, hname] at h

theorem nonEmpty_of_categoryReason?_eq_none {n : Node} (h : categoryReason? n = none) :
    n.nonEmptyName ≠ none ∧ n.nonEmptyIdentifier ≠ none := by
  have hname : n.nonEmptyName ≠ none := by
    intro hname
    simp [categoryReason?, nameReason?, hname] at h
  refine ⟨hname, ?_⟩
  intro hident
  rw [categoryReason?, if_pos ⟨hname, hident⟩] at h
  cases h

/-- If what each one gives is given by what is left of it and by what is lost with it, so is what
all of them give. -/
theorem flatMap_perm_of_split {α β γ : Type} {all gone : α → List γ} {left : α → Option β}
    {still : β → List γ} {as : List α}
    (h : ∀ a ∈ as, all a ~ (left a).toList.flatMap still ++ gone a) :
    as.flatMap all ~ (as.filterMap left).flatMap still ++ as.flatMap gone := by
  rw [List.filterMap_eq_flatMap_toList, List.flatMap_assoc]
  exact (List.Perm.flatMap_left as h).trans (List.flatMap_append_perm as _ _).symm

/-- All that is stored on the walks below a container that is kept. -/
def Splits (n : Node) : Prop :=
  (ofContainer n).flatMap items ~
    (ofContainer (n.pruned .groupChild)).flatMap items ++ (lostBelow n).flatMap items

theorem splits_children (p : Position) {ns : List Node}
    (h : ∀ n ∈ ns, groupReason? n = none → Splits n) :
    (ofChildren p ns).flatMap items ~
      (ofChildren p (ns.filterMap (Node.survivingChild? p))).flatMap items ++
        (lostAmong p ns).flatMap items := by
  have hchild : ∀ n ∈ ns,
      (if n.verdict p = .container then ofContainer n else []).flatMap items ~
        ((Node.survivingChild? p n).toList.flatMap fun n' =>
          (if n'.verdict p = .container then ofContainer n' else []).flatMap items) ++
        (if n.verdict p = .container then
          if (Build.reason? p n).isSome then ofContainer n else lostBelow n
        else []).flatMap items := by
    intro n hn
    cases hleft : Node.survivingChild? p n with
    | none =>
      have hreason := reason?_of_survivingChild?_eq_none hleft
      rw [if_pos (Option.isSome_iff_ne_none.2 hreason)]
      exact List.Perm.refl _
    | some n' =>
      rw [Option.toList_some, List.flatMap_singleton]
      obtain ⟨hreason, ⟨hv, rfl⟩ | ⟨hv, hv', rfl⟩⟩ := survivingChild?_eq_some hleft
      · rw [if_neg hv, if_neg hv]
        exact List.Perm.refl _
      · have hkept : groupReason? n = none := by
          unfold Build.reason? at hreason
          rw [hv] at hreason
          exact hreason
        rw [if_pos hv, if_pos hv', if_pos hv, hreason]
        exact h n hn hkept
  rw [ofChildren_eq, ofChildren_eq, lostAmong_eq, List.flatMap_assoc, List.flatMap_assoc,
    List.flatMap_assoc]
  exact flatMap_perm_of_split hchild

theorem splits (n : Node) : groupReason? n = none → Splits n := by
  induction n using Node.induction with
  | node n ih =>
    intro hreason
    have hname := nonEmptyName_of_groupReason?_eq_none hreason
    have hpruned := childNodes_pruned_ne_nil hreason
    have hnodes : n.childNodes ≠ [] := by
      intro hnil
      rw [Node.childNodes_pruned, hnil] at hpruned
      exact hpruned rfl
    have hname' : (n.pruned .groupChild).nonEmptyName ≠ none := by
      rw [(nonEmpty_pruned .groupChild n).1]
      exact hname
    unfold Splits
    rw [ofContainer_eq, if_neg (not_or.2 ⟨hname, hnodes⟩), ofContainer_eq,
      if_neg (not_or.2 ⟨hname', hpruned⟩), lostBelow_eq, List.flatMap_cons, List.flatMap_cons,
      items_group_pruned, List.append_assoc, Node.childNodes_pruned]
    exact (splits_children .groupChild ih).append_left _

theorem splits_top (n : Node) :
    (ofTop n).flatMap items ~
      (n.survivor?.toList.flatMap fun n' => (ofTop n').flatMap items) ++
        (lostAtTop n).flatMap items := by
  unfold lostAtTop
  cases hleft : n.survivor? with
  | none =>
    have hreason : (categoryReason? n).isSome = true := by
      by_cases hkept : (categoryReason? n).isSome = true
      · exact hkept
      · rw [Node.survivor?, if_neg hkept] at hleft
        cases hleft
    rw [if_pos hreason]
    exact List.Perm.refl _
  | some n' =>
    obtain ⟨hreason, rfl⟩ := survivor?_eq_some hleft
    have hnames := nonEmpty_of_categoryReason?_eq_none hreason
    obtain ⟨hname, hident⟩ := nonEmpty_pruned .categoryChild n
    rw [hreason, Option.toList_some, List.flatMap_singleton, if_neg (by simp), ofTop, if_pos hnames,
      ofTop, hname, hident, if_pos hnames, List.flatMap_cons, List.flatMap_cons,
      items_category_pruned, List.append_assoc, Node.childNodes_pruned]
    exact (splits_children .categoryChild fun c _ => splits c).append_left _

/-- What was stored on the walks of a forest is stored on those of what is left of it, or on a walk
that is lost. -/
theorem splits_forest (ns : List Node) :
    (ofForest ns).flatMap items ~
      (ofForest (survivors ns)).flatMap items ++ (lost ns).flatMap items := by
  have htop : (forest (survivors ns)).items = (forest ns).items :=
    congrArg (fun m => Keyed.items .categories (fun _ => none) m) (ofNodes_survivors ns).1
  rw [ofForest, ofForest, lost, List.flatMap_cons, List.flatMap_cons, htop, List.append_assoc]
  refine List.Perm.append_left _ ?_
  unfold survivors
  rw [List.flatMap_assoc, List.flatMap_assoc, List.flatMap_assoc]
  exact flatMap_perm_of_split fun n _ => splits_top n

/-- A node that is dropped is no entry that is renamed. -/
theorem warning?_reports (w : Walk) :
    w.reports.filterMap Event.warning? = (w.items.filter (·.IsRenamed)).map Item.warning := by
  have hdropped : (w.visits.flatMap Visit.report).filterMap Event.warning? = [] := by
    rw [List.filterMap_flatMap, List.flatMap_eq_nil_iff]
    intro v _
    unfold Visit.report
    cases v.reason? <;> rfl
  rw [reports, List.filterMap_append, hdropped, List.nil_append, filterMap_warning?_report?]

end Walk

namespace Build

/-- The renamed entries that were stored in a container which was dropped afterwards, or in one
inside such a container. -/
def lostItems (ns : List Node) : List Item :=
  ((Walk.lost ns).flatMap Walk.items).filter (·.IsRenamed)

/-- There is one warning for every entry that was renamed in a mapping. -/
theorem warnings_perm (ns : List Node) :
    (ofNodes ns).warnings ~
      (((Walk.ofForest ns).flatMap Walk.items).filter (·.IsRenamed)).map Item.warning := by
  have hevents := (Walk.events_perm ns).filterMap Event.warning?
  rw [List.filterMap_flatMap, List.flatMap_congr fun w _ => Walk.warning?_reports w,
    ← List.map_flatMap, ← List.filter_flatMap] at hevents
  exact hevents

/-- The warnings that go away are those about entries which are not in the tree. -/
theorem warnings_survivors_perm (ns : List Node) :
    (ofNodes ns).warnings ~
      (ofNodes (survivors ns)).warnings ++ (lostItems ns).map Item.warning := by
  have hitems := ((Walk.splits_forest ns).filter (·.IsRenamed)).map Item.warning
  rw [List.filter_append, List.map_append] at hitems
  refine (warnings_perm ns).trans (hitems.trans ?_)
  exact (warnings_perm (survivors ns)).symm.append_right _

/-- What taking out the nodes that are dropped does to a forest. -/
structure Pruned (ns : List Node) : Prop where
  categories : (ofNodes (survivors ns)).categories = (ofNodes ns).categories
  /-- Nothing more is dropped. -/
  undropped : (ofNodes (survivors ns)).events.filterMap Event.drop? = []
  /-- The warnings that are left stand in their order. -/
  sublist : (ofNodes (survivors ns)).warnings <+ (ofNodes ns).warnings
  /-- The others are those about what was stored in a container that was dropped afterwards, or in
  one inside such a container. -/
  others : (ofNodes ns).warnings ~
    (ofNodes (survivors ns)).warnings ++ (lostItems ns).map Item.warning
  /-- There is one left for every renamed entry of the tree. -/
  warnings : (ofNodes (survivors ns)).warnings ~ (ofNodes ns).renamedItems.map Item.warning
  same_iff : (ofNodes (survivors ns)).warnings = (ofNodes ns).warnings ↔
    (ofNodes ns).warnings ~ (ofNodes ns).renamedItems.map Item.warning

/-- **Nodes that are dropped leave nothing in the tree**, and of the warnings only those about
entries that were stored in a container which was dropped. -/
theorem pruned_ofNodes (ns : List Node) : Pruned ns := by
  obtain ⟨hcategories, hevents⟩ := ofNodes_survivors ns
  have hreports := reports_survivors ns
  have hsublist : (ofNodes (survivors ns)).warnings <+ (ofNodes ns).warnings :=
    hevents.filterMap _
  have hwarnings : (ofNodes (survivors ns)).warnings ~
      (ofNodes ns).renamedItems.map Item.warning := by
    rw [renamedItems, ← filterMap_warning?_report?]
    exact hreports.filterMap _
  refine ⟨hcategories, ?_, hsublist, warnings_survivors_perm ns, hwarnings, ?_, ?_⟩
  · rw [List.filterMap_eq_nil_iff]
    intro e he
    obtain ⟨i, -, hi⟩ := List.mem_filterMap.1 (hreports.mem_iff.1 he)
    obtain ⟨r, -, rfl⟩ := Option.map_eq_some_iff.1 hi
    rfl
  · intro hsame
    rw [← hsame]
    exact hwarnings
  · intro hdue
    exact hsublist.eq_of_length (hwarnings.length_eq.trans hdue.length_eq.symm)

/-- A group whose name gives no key, with two shortcuts of one name. -/
def keylessForest : List Node :=
  [{ name := some "Windows"
     identifier := some "windows"
     children := some
      [{ name := some "***"
         children := some
          [{ name := some "Fill", hotkeyId := some 1 },
           { name := some "Fill", hotkeyId := some 2 }] }] }]

/-- The renaming in the group is reported although the group is dropped. -/
theorem warnings_keylessForest :
    ¬ ((ofNodes (survivors keylessForest)).categories = (ofNodes keylessForest).categories ∧
      (ofNodes (survivors keylessForest)).warnings = (ofNodes keylessForest).warnings) := by
  have hdiffer : (ofNodes (survivors keylessForest)).warnings ≠
      (ofNodes keylessForest).warnings := by
    decide +kernel
  exact fun hsame => hdiffer hsame.2

end Build

end HotkeyTree
