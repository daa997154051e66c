import HotkeyTree.Proofs.Reasons

/-!
# Proofs: forests without the nodes that are dropped

If the nodes that are dropped are taken out of a forest, the same tree is made of it. What is
reported need not be the same, but nothing is reported that was not reported before.
-/

namespace HotkeyTree

open scoped List
open Build

namespace Node

mutual

/-- A container whose children stand at `p`, without what is dropped below it. -/
def pruned (p : Position) : Node → Node
  | ⟨a, none⟩ => ⟨a, none⟩
  | ⟨a, some nodes⟩ => ⟨a, some (survivors p nodes)⟩
termination_by structural n => n

/-- The children at `p` that are not dropped, without what is dropped below them. What is below a
shortcut is not looked at. -/
def survivors (p : Position) : List Node → List Node
  | [] => []
  | n :: ns =>
    if (reason? p n).isSome then survivors p ns
    else (if n.verdict p = .container then pruned .groupChild n else n) :: survivors p ns
termination_by structural ns => ns

end

/-- What is left of a node at the top. -/
def survivor? (n : Node) : Option Node :=
  if (categoryReason? n).isSome then none else some (n.pruned .categoryChild)

def survivingChild? (p : Position) (n : Node) : Option Node :=
  if (reason? p n).isSome then none
  else some (if n.verdict p = .container then n.pruned .groupChild else n)

theorem survivors_eq (p : Position) (ns : List Node) :
    survivors p ns = ns.filterMap (survivingChild? p) := by
  induction ns with
  | nil => rfl
  | cons n ns ih =>
    rw [survivors, List.filterMap_cons, survivingChild?, ih]
    split <;> rfl

theorem childNodes_pruned (p : Position) (n : Node) :
    (n.pruned p).childNodes = n.childNodes.filterMap (survivingChild? p) := by
  obtain ⟨a, _ | nodes⟩ := n
  · rfl
  · exact survivors_eq p nodes

theorem toAttributes_pruned (p : Position) (n : Node) :
    (n.pruned p).toAttributes = n.toAttributes := by
  obtain ⟨a, _ | nodes⟩ := n <;> rfl

theorem isSome_children_pruned (p : Position) (n : Node) :
    (n.pruned p).children.isSome = n.children.isSome := by
  obtain ⟨a, _ | nodes⟩ := n <;> rfl

end Node

/-- The forest without the nodes that are dropped. -/
def survivors (ns : List Node) : List Node := ns.filterMap Node.survivor?

namespace Build

open Keyed Node

/-! ## The same tree -/

/-- A walk that leaves out nodes which change nothing, and takes others that do the same to the
state, ends in the same state; what it reports is part of what was reported. -/
theorem addEach_filterMap {σ : Type} {add : σ → Node → σ × List Event} {left : Node → Option Node}
    {ns : List Node} (hnone : ∀ n ∈ ns, left n = none → ∀ s, (add s n).1 = s)
    (hsome : ∀ n ∈ ns, ∀ n', left n = some n' → ∀ s,
      (add s n').1 = (add s n).1 ∧ (add s n').2 <+ (add s n).2) (s : σ) :
    (addEach add s (ns.filterMap left)).1 = (addEach add s ns).1 ∧
      (addEach add s (ns.filterMap left)).2 <+ (addEach add s ns).2 := by
  induction ns generalizing s with
  | nil => exact ⟨rfl, List.Sublist.refl _⟩
  | cons n ns ih =>
    have hrest := ih (fun m hm => hnone m (List.mem_cons_of_mem _ hm))
      (fun m hm => hsome m (List.mem_cons_of_mem _ hm))
    cases hleft : left n with
    | none =>
      have hstate := hnone n List.mem_cons_self hleft s
      rw [List.filterMap_cons_none hleft]
      show (addEach add s (ns.filterMap left)).1 = (addEach add (add s n).1 ns).1 ∧
        (addEach add s (ns.filterMap left)).2 <+ (add s n).2 ++ (addEach add (add s n).1 ns).2
      rw [hstate]
      exact ⟨(hrest s).1, (hrest s).2.trans (List.sublist_append_right _ _)⟩
    | some n' =>
      obtain ⟨hstate, hevents⟩ := hsome n List.mem_cons_self n' hleft s
      rw [List.filterMap_cons_some hleft]
      show (addEach add (add s n').1 (ns.filterMap left)).1 = (addEach add (add s n).1 ns).1 ∧
        (add s n').2 ++ (addEach add (add s n').1 (ns.filterMap left)).2 <+
          (add s n).2 ++ (addEach add (add s n).1 ns).2
      rw [hstate]
      exact ⟨(hrest _).1, hevents.append (hrest _).2⟩

theorem nonEmpty_pruned (p : Position) (n : Node) :
    (n.pruned p).nonEmptyName = n.nonEmptyName ∧
      (n.pruned p).nonEmptyIdentifier = n.nonEmptyIdentifier := by
  unfold nonEmptyName nonEmptyIdentifier
  rw [toAttributes_pruned]
  exact ⟨rfl, rfl⟩

theorem verdict_pruned {p : Position} {n : Node} (q : Position) (hv : n.verdict p = .container)
    (hne : (n.pruned q).childNodes ≠ []) : (n.pruned q).verdict p = .container := by
  have hattrs := toAttributes_pruned q n
  have hempty : (n.pruned q).childNodes.isEmpty = false := by simpa using hne
  have hempty' : n.childNodes.isEmpty = false := by
    rw [childNodes_pruned] at hne
    rw [List.isEmpty_eq_false_iff]
    rintro hnil
    rw [hnil] at hne
    exact hne rfl
  unfold verdict nonEmptyName isDisplayOnly at hv ⊢
  rw [hattrs, isSome_children_pruned, hempty]
  rw [hempty'] at hv
  exact hv

theorem reason?_of_survivingChild?_eq_none {p : Position} {n : Node}
    (h : survivingChild? p n = none) : reason? p n ≠ none := by
  intro hreason
  rw [survivingChild?, hreason] at h
  exact Option.some_ne_none _ h

/-- A container of which a group is made keeps a child. -/
theorem childNodes_pruned_ne_nil {n : Node} (h : groupReason? n = none) :
    (n.pruned .groupChild).childNodes ≠ [] := by
  intro hnil
  have hmade : ¬ ∀ c ∈ n.childNodes, madeEntry c = none := by
    intro hnone
    have hgroup := (groupOf_fst_eq_none_iff n).2 (Or.inr hnone)
    have hreason := mt (madeGroup_eq_none_iff n).1 (not_not.2 h)
    rw [madeGroup, keyedOrDrop_fst, hgroup] at hreason
    exact hreason rfl
  refine hmade fun c hc => (madeEntry_eq_none_iff c).2 fun hreason => ?_
  rw [childNodes_pruned, List.filterMap_eq_nil_iff] at hnil
  exact reason?_of_survivingChild?_eq_none (hnil c hc) hreason

/-- A child that is left is what it was, or a container without what is dropped below it. -/
theorem survivingChild?_eq_some {p : Position} {n n' : Node} (h : survivingChild? p n = some n') :
    reason? p n = none ∧ (n.verdict p ≠ .container ∧ n' = n ∨
      n.verdict p = .container ∧ n'.verdict p = .container ∧ n' = n.pruned .groupChild) := by
  unfold survivingChild? at h
  rw [Option.ite_none_left_eq_some] at h
  obtain ⟨hdropped, h⟩ := h
  have hreason : reason? p n = none := by simpa using hdropped
  refine ⟨hreason, ?_⟩
  by_cases hv : n.verdict p = .container
  · right
    have hgroup : groupReason? n = none := by
      unfold reason? at hreason
      rw [hv] at hreason
      exact hreason
    rw [if_pos hv] at h
    obtain rfl := Option.some.inj h
    exact ⟨hv, verdict_pruned _ hv (childNodes_pruned_ne_nil hgroup), rfl⟩
  · left
    rw [if_neg hv] at h
    exact ⟨hv, (Option.some.inj h).symm⟩

theorem filterMap_survivingChild? {α : Type} {make : Node → Option α} {p : Position}
    {ns : List Node} (hnone : ∀ n ∈ ns, survivingChild? p n = none → make n = none)
    (hsome : ∀ n ∈ ns, ∀ n', survivingChild? p n = some n' → make n' = make n) :
    (ns.filterMap (survivingChild? p)).filterMap make = ns.filterMap make := by
  rw [List.filterMap_filterMap]
  refine List.filterMap_congr fun n hn => ?_
  cases hleft : survivingChild? p n with
  | none => exact (hnone n hn hleft).symm
  | some n' => exact hsome n hn n' hleft

/-- A container and what is left of it: the same group is made of both, and the reports on the
second are part of those on the first. -/
def SameGroup (n : Node) : Prop :=
  (groupOf (n.pruned .groupChild)).1 = (groupOf n).1 ∧
    groupWalk (n.pruned .groupChild) <+ groupWalk n

theorem madeGroup_pruned {n : Node} (h : SameGroup n) :
    madeGroup (n.pruned .groupChild) = madeGroup n := by
  rw [madeGroup, keyedOrDrop_fst, h.1, madeGroup, keyedOrDrop_fst]

theorem walkBelow_survivor {p : Position} {n n' : Node} (hleft : survivingChild? p n = some n')
    (h : SameGroup n) : walkBelow p n' <+ walkBelow p n := by
  obtain ⟨-, ⟨-, rfl⟩ | ⟨hv, hv', rfl⟩⟩ := survivingChild?_eq_some hleft
  · exact List.Sublist.refl _
  · rw [walkBelow, if_pos hv', walkBelow, if_pos hv]
    exact h.2

theorem madeEntry_survivor {n n' : Node} (hleft : survivingChild? .groupChild n = some n')
    (h : SameGroup n) : madeEntry n' = madeEntry n := by
  obtain ⟨-, ⟨-, rfl⟩ | ⟨hv, hv', rfl⟩⟩ := survivingChild?_eq_some hleft
  · rfl
  · rw [madeEntry_eq, madeEntry_eq, hv, hv']
    exact congrArg (Option.map Entry.group) (madeGroup_pruned h)

theorem reason?_survivor {p : Position} {n n' : Node} (hleft : survivingChild? p n = some n')
    (h : SameGroup n) : reason? p n' = none := by
  obtain ⟨hreason, ⟨-, rfl⟩ | ⟨hv, hv', rfl⟩⟩ := survivingChild?_eq_some hleft
  · exact hreason
  · rw [reason?, hv] at hreason
    rw [reason?, hv']
    by_contra hdropped
    have hnone := (madeGroup_eq_none_iff _).2 hdropped
    rw [madeGroup_pruned h] at hnone
    exact (madeGroup_eq_none_iff n).1 hnone hreason

theorem childReports_survivor {p : Position} {n n' : Node} (hleft : survivingChild? p n = some n')
    (h : SameGroup n) :
    childReports p n' = walkBelow p n' ∧ childReports p n' <+ childReports p n := by
  have hown : childReports p n' = walkBelow p n' := by
    rw [childReports, reason?_survivor hleft h]
    exact List.append_nil _
  refine ⟨hown, ?_⟩
  rw [hown]
  exact (walkBelow_survivor hleft h).trans (List.sublist_append_left _ _)

theorem filterMap_madeEntry_survivors {ns : List Node} (h : ∀ n ∈ ns, SameGroup n) :
    (ns.filterMap (survivingChild? .groupChild)).filterMap madeEntry = ns.filterMap madeEntry :=
  filterMap_survivingChild?
    (fun n _ hleft => (madeEntry_eq_none_iff n).2 (reason?_of_survivingChild?_eq_none hleft))
    (fun n hn _ hleft => madeEntry_survivor hleft (h n hn))

theorem entriesOf_survivors {ns : List Node} (h : ∀ n ∈ ns, SameGroup n) (scope : Scope)
    (m : Keyed Entry) :
    (entriesOf scope m (ns.filterMap (survivingChild? .groupChild))).2 <+
      (entriesOf scope m ns).2 := by
  rw [entriesOf_eq_addEach, entriesOf_eq_addEach]
  refine (addEach_filterMap ?_ ?_ m).2
  · intro n hn hleft s
    have hnone := (madeEntry_eq_none_iff n).2 (reason?_of_survivingChild?_eq_none hleft)
    show (storeEntry scope s (madeEntry n)).1 = s
    rw [hnone]
    rfl
  · intro n hn n' hleft s
    have hmade := madeEntry_survivor hleft (h n hn)
    have hevents := (childReports_survivor hleft (h n hn)).2
    rw [← entryEvents_eq] at hevents
    show (storeEntry scope s (madeEntry n')).1 = (storeEntry scope s (madeEntry n)).1 ∧
      entryEvents n' ++ (storeEntry scope s (madeEntry n')).2 <+
        entryEvents n ++ (storeEntry scope s (madeEntry n)).2
    rw [hmade]
    exact ⟨rfl, hevents.append (List.Sublist.refl _)⟩

/-- The same group is made of a container without what is dropped below it. -/
theorem sameGroup (n : Node) : SameGroup n := by
  induction n using Node.induction with
  | node n ih =>
    constructor
    · obtain ⟨a, _ | nodes⟩ := n
      · rfl
      · have hmade := filterMap_madeEntry_survivors ih
        show (groupOf ⟨a, some (Node.survivors .groupChild nodes)⟩).1 = _
        rw [groupOf_fst, groupOf_fst]
        simp only [Option.bind_some, Node.survivors_eq]
        simp only [Node.childNodes, Option.getD_some] at hmade
        rw [hmade]
        rfl
    · unfold groupWalk
      rw [(nonEmpty_pruned .groupChild n).1, childNodes_pruned]
      cases n.nonEmptyName with
      | none => exact List.Sublist.refl _
      | some name => exact entriesOf_survivors ih _ _

/-! ## The same categories -/

theorem direct_survivor {n n' : Node} (hleft : survivingChild? .categoryChild n = some n') :
    directShortcut n' = directShortcut n ∧ directGroup n' = directGroup n := by
  obtain ⟨-, ⟨-, rfl⟩ | ⟨hv, hv', rfl⟩⟩ := survivingChild?_eq_some hleft
  · exact ⟨rfl, rfl⟩
  · unfold directShortcut directGroup
    rw [hv, hv', madeGroup_pruned (sameGroup n)]
    exact ⟨rfl, rfl⟩

theorem filterMap_direct_survivors (ns : List Node) :
    (ns.filterMap (survivingChild? .categoryChild)).filterMap directShortcut =
        ns.filterMap directShortcut ∧
      (ns.filterMap (survivingChild? .categoryChild)).filterMap directGroup =
        ns.filterMap directGroup := by
  have hnone : ∀ n, survivingChild? .categoryChild n = none →
      directShortcut n = none ∧ directGroup n = none := fun n hleft =>
    (direct_eq_none_iff n).2 (reason?_of_survivingChild?_eq_none hleft)
  constructor
  · exact filterMap_survivingChild? (fun n _ hleft => (hnone n hleft).1)
      (fun n _ _ hleft => (direct_survivor hleft).1)
  · exact filterMap_survivingChild? (fun n _ hleft => (hnone n hleft).2)
      (fun n _ _ hleft => (direct_survivor hleft).2)

theorem addToCategory_survivor {n n' : Node} (hleft : survivingChild? .categoryChild n = some n')
    (scope : Scope) (c : Category) :
    (addToCategory scope c n').1 = (addToCategory scope c n).1 ∧
      (addToCategory scope c n').2 <+ (addToCategory scope c n).2 := by
  obtain ⟨hshortcut, hgroup⟩ := direct_survivor hleft
  have hevents := (childReports_survivor hleft (sameGroup n)).2
  rw [← childEvents_eq] at hevents
  rw [addToCategory_fst, addToCategory_fst, addToCategory_snd, addToCategory_snd, hshortcut, hgroup]
  exact ⟨rfl, hevents.append (List.Sublist.refl _)⟩

theorem addToCategory_dropped {n : Node} (hleft : survivingChild? .categoryChild n = none)
    (scope : Scope) (c : Category) : (addToCategory scope c n).1 = c := by
  obtain ⟨hshortcut, hgroup⟩ :=
    (direct_eq_none_iff n).2 (reason?_of_survivingChild?_eq_none hleft)
  rw [addToCategory_fst, hshortcut, hgroup]
  rfl

/-- The same category is made of a node without what is dropped below it. -/
theorem categoryOf_pruned (n : Node) :
    (categoryOf (n.pruned .categoryChild)).1 = (categoryOf n).1 := by
  obtain ⟨hname, hident⟩ := nonEmpty_pruned .categoryChild n
  obtain ⟨hshortcuts, hgroups⟩ := filterMap_direct_survivors n.childNodes
  rw [categoryOf_fst, hname, hident, childNodes_pruned, hshortcuts, hgroups, categoryOf_fst]

theorem madeCategory_pruned (n : Node) :
    madeCategory (n.pruned .categoryChild) = madeCategory n := by
  rw [madeCategory, categoryOf_pruned, madeCategory]

theorem categoryWalk_pruned (n : Node) :
    categoryWalk (n.pruned .categoryChild) <+ categoryWalk n := by
  obtain ⟨hname, hident⟩ := nonEmpty_pruned .categoryChild n
  unfold categoryWalk
  rw [hname, hident, childNodes_pruned]
  split
  · exact (addEach_filterMap (fun m _ hleft => addToCategory_dropped hleft _)
      (fun m _ _ hleft => addToCategory_survivor hleft _) _).2
  · exact List.Sublist.refl _

theorem survivor?_eq_some {n n' : Node} (h : n.survivor? = some n') :
    categoryReason? n = none ∧ n' = n.pruned .categoryChild := by
  rw [survivor?, Option.ite_none_left_eq_some] at h
  obtain ⟨hdropped, h⟩ := h
  exact ⟨by simpa using hdropped, (Option.some.inj h).symm⟩

theorem madeCategory_of_survivor?_eq_none {n : Node} (h : n.survivor? = none) :
    madeCategory n = none := by
  refine (madeCategory_eq_none_iff n).2 fun hreason => ?_
  rw [survivor?, hreason] at h
  exact Option.some_ne_none _ h

theorem categoryEvents_survivor {n n' : Node} (hleft : n.survivor? = some n') :
    categoryEvents n' = categoryWalk n' ∧ categoryEvents n' <+ categoryEvents n := by
  obtain ⟨hreason, rfl⟩ := survivor?_eq_some hleft
  have hreason' : categoryReason? (n.pruned .categoryChild) = none := by
    by_contra hdropped
    have hnone := (madeCategory_eq_none_iff _).2 hdropped
    rw [madeCategory_pruned] at hnone
    exact (madeCategory_eq_none_iff n).1 hnone hreason
  have hown : categoryEvents (n.pruned .categoryChild) =
      categoryWalk (n.pruned .categoryChild) := by
    rw [categoryEvents_eq, hreason']
    exact List.append_nil _
  refine ⟨hown, ?_⟩
  rw [hown, categoryEvents_eq]
  exact (categoryWalk_pruned n).trans (List.sublist_append_left _ _)

theorem ofNodes_survivors (ns : List Node) :
    (ofNodes (survivors ns)).categories = (ofNodes ns).categories ∧
      (ofNodes (survivors ns)).events <+ (ofNodes ns).events := by
  refine addEach_filterMap ?_ ?_ []
  · intro n _ hleft m
    rw [addCategory_fst, madeCategory_of_survivor?_eq_none hleft]
    rfl
  · intro n _ n' hleft m
    have hevents := (categoryEvents_survivor hleft).2
    obtain ⟨-, rfl⟩ := survivor?_eq_some hleft
    rw [addCategory_fst, addCategory_fst, addCategory_snd, addCategory_snd, madeCategory_pruned]
    exact ⟨rfl, hevents.append (List.Sublist.refl _)⟩

end Build

end HotkeyTree
