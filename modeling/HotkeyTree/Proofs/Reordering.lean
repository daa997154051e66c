import HotkeyTree.Proofs.Reasons
import HotkeyTree.Proofs.UpToOrder

/-!
# Proofs: the order of siblings

Keys are given first come, first served, so the order of siblings decides which of two entries of
one name is renamed. In a forest without renamings, not even below containers that are dropped in
the end, it decides nothing but the order of the entries.
-/

namespace HotkeyTree

open scoped List

/-! ## The same but for the order -/

/-- The same node, but for the order of the nodes below it, at every depth. -/
inductive Node.Reordered : Node → Node → Prop where
  | leaf (a : Node.Attributes) : Node.Reordered ⟨a, none⟩ ⟨a, none⟩
  | inner (a : Node.Attributes) {ns ms : List Node} (below : UpToOrder Node.Reordered ns ms) :
    Node.Reordered ⟨a, some ns⟩ ⟨a, some ms⟩

/-- Slots under one key, with related entries. -/
inductive Keyed.SlotLike {α : Type} (R : α → α → Prop) : String × α → String × α → Prop where
  | mk (k : String) {a b : α} (h : R a b) : Keyed.SlotLike R (k, a) (k, b)

mutual

/-- The same entry, but for the order in which groups hold their entries. -/
inductive Entry.Reordered : Entry → Entry → Prop where
  | shortcut (s : Shortcut) : Entry.Reordered (.shortcut s) (.shortcut s)
  | group {g g' : Group} (h : Group.Reordered g g') : Entry.Reordered (.group g) (.group g')

/-- The same group, but for the order in which it and the groups in it hold their entries. -/
inductive Group.Reordered : Group → Group → Prop where
  | mk (name key sourceIdentifier : String) {entries entries' : List (String × Entry)}
    (h : UpToOrder (Keyed.SlotLike Entry.Reordered) entries entries') :
    Group.Reordered ⟨name, key, sourceIdentifier, entries⟩ ⟨name, key, sourceIdentifier, entries'⟩

end

/-- The same category, but for the order in which it and its groups hold their entries. -/
structure Category.Reordered (c c' : Category) : Prop where
  name : c.name = c'.name
  key : c.key = c'.key
  sourceIdentifier : c.sourceIdentifier = c'.sourceIdentifier
  shortcuts : c.shortcuts ~ c'.shortcuts
  subgroups : UpToOrder (Keyed.SlotLike Group.Reordered) c.subgroups c'.subgroups

theorem Group.Reordered.key_eq {g g' : Group} (h : g.Reordered g') : g.key = g'.key := by
  cases h
  rfl

theorem Entry.Reordered.key_eq {e e' : Entry} (h : e.Reordered e') : e.key = e'.key := by
  cases h with
  | shortcut s => rfl
  | group h => exact h.key_eq

namespace Node.Reordered

variable {n m : Node}

/-- Any node is a reordering of itself. -/
theorem refl (n : Node) : n.Reordered n := by
  induction n using Node.induction with
  | node n ih =>
    obtain ⟨a, _ | nodes⟩ := n
    · exact .leaf a
    · exact .inner a (.of_perm ih (List.Perm.refl nodes))

theorem toAttributes_eq (h : n.Reordered m) : n.toAttributes = m.toAttributes := by
  cases h <;> rfl

/-- The nodes below are the same, each up to the order below it, and come in some order. -/
theorem childNodes (h : n.Reordered m) : UpToOrder Node.Reordered n.childNodes m.childNodes := by
  cases h with
  | leaf a => exact .of_forall₂ .nil
  | inner a below => exact below

theorem nonEmptyName_eq (h : n.Reordered m) : n.nonEmptyName = m.nonEmptyName := by
  unfold nonEmptyName
  rw [h.toAttributes_eq]

theorem nonEmptyIdentifier_eq (h : n.Reordered m) :
    n.nonEmptyIdentifier = m.nonEmptyIdentifier := by
  unfold nonEmptyIdentifier
  rw [h.toAttributes_eq]

/-- A node is judged by its attributes and by whether there are nodes below it. -/
theorem verdict_eq (h : n.Reordered m) (p : Position) : n.verdict p = m.verdict p := by
  cases h with
  | leaf a => rfl
  | @inner a ns ms below =>
    have hempty : ns.isEmpty = ms.isEmpty := by
      rw [Bool.eq_iff_iff, List.isEmpty_iff_length_eq_zero, List.isEmpty_iff_length_eq_zero,
        below.length_eq]
    unfold verdict
    show (if _ then _ else if _ then _ else if _ then _ else if _ then _
      else if (!ns.isEmpty) = true then _ else _) = _
    rw [hempty]
    rfl

theorem madeShortcut_eq (h : n.Reordered m) : Build.madeShortcut n = Build.madeShortcut m := by
  cases h <;> rfl

end Node.Reordered

/-! ## Mappings without renamings -/

namespace Keyed

variable {α : Type} [HasKey α]

/-- A key that is free is taken as it is, at the end of the mapping. -/
theorem insertFresh_of_free {m : Keyed α} {a : α} (hfree : HasKey.key a ∉ m.keys) (h : Hints) :
    m.insertFresh a h = (m ++ [(HasKey.key a, a)], none) := by
  simp only [insertFresh, has_eq_false_iff.2 hfree, Bool.false_eq_true, if_false]

/-- Nothing is renamed exactly if no key is there twice, neither among the new entries nor with an
old one. The order of the entries does not matter for that. -/
theorem renamings_eq_nil_iff (hints : α → Hints) (m : Keyed α) (as : List α) :
    renamings hints m as = [] ↔
      (as.map HasKey.key).Nodup ∧ ∀ a ∈ as, HasKey.key a ∉ m.keys := by
  induction as generalizing m with
  | nil => simp [renamings]
  | cons a as ih =>
    by_cases hfree : HasKey.key a ∉ m.keys
    · have hkeys : (∀ b ∈ as, HasKey.key b ∉ keys (m ++ [(HasKey.key a, a)])) ↔
          HasKey.key a ∉ as.map HasKey.key ∧ ∀ b ∈ as, HasKey.key b ∉ m.keys := by
        simp only [keys_append, List.mem_append, not_or, List.mem_map, not_exists, not_and]
        constructor
        · intro h
          exact ⟨fun b hb heq => (h b hb).2 (by simp [keys, heq]), fun b hb => (h b hb).1⟩
        · rintro ⟨hother, hold⟩ b hb
          exact ⟨hold b hb, fun hmem => hother b hb (by simpa [keys] using hmem)⟩
      rw [renamings, insertFresh_of_free hfree, Option.toList_none, List.nil_append, ih, hkeys,
        List.map_cons, List.nodup_cons, List.forall_mem_cons]
      tauto
    · rw [renamings, insertFresh_snd, if_pos (has_iff.2 (not_not.1 hfree))]
      simp only [Option.toList_some, List.cons_append, reduceCtorEq, false_iff, not_and]
      exact fun _ hall => hfree (hall a List.mem_cons_self)

/-- If nothing is renamed, the new entries stand behind the old ones under their own keys. -/
theorem insertAll_of_renamings_eq_nil {hints : α → Hints} {m : Keyed α} {as : List α}
    (h : renamings hints m as = []) :
    m.insertAll hints as = m ++ as.map fun a => (HasKey.key a, a) := by
  induction as generalizing m with
  | nil => simp [insertAll]
  | cons a as ih =>
    have hfree := ((renamings_eq_nil_iff hints m (a :: as)).1 h).2 a List.mem_cons_self
    rw [renamings, insertFresh_of_free hfree, Option.toList_none, List.nil_append] at h
    rw [insertAll, insertFresh_of_free hfree, ih h, List.map_cons, List.append_assoc,
      List.singleton_append]

/-- Entries that bring no renamings may come in any order, and each may be replaced by another with
its key. -/
theorem insertAll_reordered (hints : α → Hints) {R : α → α → Prop} {as bs : List α}
    (hkey : ∀ a b, R a b → HasKey.key a = HasKey.key b) (h : UpToOrder R as bs)
    (hquiet : renamings hints [] as = []) :
    renamings hints [] bs = [] ∧
      UpToOrder (SlotLike R) (insertAll hints [] as) (insertAll hints [] bs) := by
  have hkeys : as.map HasKey.key ~ bs.map HasKey.key := h.map_perm hkey
  have hdistinct := ((renamings_eq_nil_iff hints [] as).1 hquiet).1
  have hquiet' : renamings hints [] bs = [] :=
    (renamings_eq_nil_iff hints [] bs).2 ⟨hkeys.nodup_iff.1 hdistinct, fun _ _ => List.not_mem_nil⟩
  refine ⟨hquiet', ?_⟩
  rw [insertAll_of_renamings_eq_nil hquiet, insertAll_of_renamings_eq_nil hquiet']
  exact h.map fun a b hab => hkey a b hab ▸ .mk _ hab

end Keyed

namespace Build

open Keyed

/-! ## Walks without warnings -/

/-- Nothing that happened calls for a warning. -/
def Quiet (es : List Event) : Prop := ∀ e ∈ es, e.warning? = none

/-- A build without warnings is one in which nothing that happened calls for one. -/
theorem warnings_eq_nil_iff (b : Build) : b.warnings = [] ↔ Quiet b.events :=
  List.filterMap_eq_nil_iff

theorem quiet_nil : Quiet [] := fun _ he => absurd he List.not_mem_nil

theorem quiet_append {es es' : List Event} : Quiet (es ++ es') ↔ Quiet es ∧ Quiet es' :=
  List.forall_mem_append

theorem quiet_perm {es es' : List Event} (h : es ~ es') : Quiet es ↔ Quiet es' :=
  forall_congr' fun _ => by rw [h.mem_iff]

theorem quiet_flatMap {ns : List Node} {brought : Node → List Event} :
    Quiet (ns.flatMap brought) ↔ ∀ n ∈ ns, Quiet (brought n) :=
  List.forall_mem_flatMap

theorem quiet_renamed {scope : Scope} {rs : List Renaming} :
    Quiet (renamed scope rs) ↔ rs = [] := by
  cases rs <;> simp [Quiet, renamed, Event.warning?]

theorem quiet_dropReport (n : Node) (r : Option DropReason) : Quiet (dropReport n r) := by
  cases r <;> simp [Quiet, dropReport, Event.warning?]

theorem quiet_childReports {p : Position} {n : Node} :
    Quiet (childReports p n) ↔ Quiet (walkBelow p n) := by
  rw [childReports, quiet_append, and_iff_left (quiet_dropReport _ _)]

theorem quiet_categoryEvents {n : Node} : Quiet (categoryEvents n) ↔ Quiet (categoryWalk n) := by
  rw [categoryEvents_eq, quiet_append, and_iff_left (quiet_dropReport _ _)]

/-- A walk through a group is quiet if those below it are and its entries have distinct keys. -/
theorem quiet_groupWalk {n : Node} {name : String} (hname : n.nonEmptyName = some name) :
    Quiet (groupWalk n) ↔ (∀ c ∈ n.childNodes, Quiet (walkBelow .groupChild c)) ∧
      renamings entryHints [] (n.childNodes.filterMap madeEntry) = [] := by
  simp only [quiet_perm (groupWalk_perm hname), quiet_append, quiet_flatMap,
    quiet_childReports, quiet_renamed]

/-- A walk through a category is quiet if those below it are, and if among its shortcuts, and among
its groups, no key occurs twice. -/
theorem quiet_categoryWalk {n : Node} {name identifier : String}
    (hname : n.nonEmptyName = some name) (hident : n.nonEmptyIdentifier = some identifier) :
    Quiet (categoryWalk n) ↔ (∀ c ∈ n.childNodes, Quiet (walkBelow .categoryChild c)) ∧
      renamings shortcutHints [] (n.childNodes.filterMap directShortcut) = [] ∧
      renamings groupHints [] (n.childNodes.filterMap directGroup) = [] := by
  simp only [quiet_perm (categoryWalk_perm hname hident), quiet_append, quiet_flatMap,
    quiet_childReports, quiet_renamed, List.append_eq_nil_iff]

/-! ## Groups -/

/-- Related options stay related if what is filtered out is the same on both sides. -/
theorem rel_filter {α β : Type} {R : α → β → Prop} {a : Option α} {b : Option β} {p : α → Bool}
    {q : β → Bool} (h : Option.Rel R a b) (hpq : ∀ x y, R x y → p x = q y) :
    Option.Rel R (a.filter p) (b.filter q) := by
  cases h with
  | none => exact .none
  | @some x y hxy =>
    rw [Option.filter_some, Option.filter_some, hpq x y hxy]
    split
    · exact .some hxy
    · exact .none

/-- If nothing is renamed below a container, nothing is if the nodes there come in another order,
and the groups made of both are the same but for the order of their entries. -/
def Steady (n : Node) : Prop :=
  ∀ m, n.Reordered m → Quiet (groupWalk n) →
    Quiet (groupWalk m) ∧ Option.Rel Group.Reordered (groupOf n).1 (groupOf m).1

section Children

variable {p : Position} {n m : Node} {ns ms : List Node}

/-- A reordered child brings no warnings either, whether it is walked through or not. -/
theorem Steady.quiet_walkBelow (h : Steady n) (hr : n.Reordered m) (hq : Quiet (walkBelow p n)) :
    Quiet (walkBelow p m) := by
  have hsame := hr.verdict_eq p
  by_cases hv : n.verdict p = .container
  · rw [walkBelow, if_pos hv] at hq
    rw [walkBelow, if_pos (hsame ▸ hv)]
    exact (h m hr hq).1
  · rw [walkBelow, if_neg (hsame ▸ hv)]
    exact quiet_nil

/-- What is made of a container among the children is the same group but for the order. -/
theorem Steady.madeGroup (h : Steady n) (hr : n.Reordered m) (hq : Quiet (walkBelow p n))
    (hv : n.verdict p = .container) :
    Option.Rel Group.Reordered (madeGroup n) (madeGroup m) := by
  rw [walkBelow, if_pos hv] at hq
  rw [Build.madeGroup, Build.madeGroup, keyedOrDrop_fst, keyedOrDrop_fst]
  refine rel_filter (h m hr hq).2 fun g g' hg => ?_
  rw [hg.key_eq]

/-- What is made of a child of a group is the same entry but for the order. -/
theorem Steady.madeEntry (h : Steady n) (hr : n.Reordered m)
    (hq : Quiet (walkBelow .groupChild n)) :
    Option.Rel Entry.Reordered (madeEntry n) (madeEntry m) := by
  rw [madeEntry_eq, madeEntry_eq, ← hr.verdict_eq, ← hr.madeShortcut_eq]
  cases hv : n.verdict .groupChild with
  | shortcut =>
    cases madeShortcut n with
    | none => exact .none
    | some s => exact .some (.shortcut s)
  | container =>
    have hmade := h.madeGroup hr hq hv
    show Option.Rel _ ((Build.madeGroup n).map Entry.group) ((Build.madeGroup m).map Entry.group)
    generalize Build.madeGroup n = g, Build.madeGroup m = g' at hmade
    cases hmade with
    | none => exact .none
    | some hg => exact .some (.group hg)
  | dropped r => exact .none

/-- Children that come in another order bring no warnings if they brought none before. -/
theorem quiet_children (h : ∀ n ∈ ns, Steady n) (hr : UpToOrder Node.Reordered ns ms)
    (hq : ∀ n ∈ ns, Quiet (walkBelow p n)) : ∀ m ∈ ms, Quiet (walkBelow p m) := by
  intro m hm
  obtain ⟨n, hn, hnm⟩ := hr.exists_of_mem hm
  exact (h n hn).quiet_walkBelow hnm (hq n hn)

end Children

/-- What is made of the children goes into a group of which the same holds. -/
theorem steady_of_children {n : Node} (ih : ∀ c ∈ n.childNodes, Steady c) : Steady n := by
  intro m hr hq
  have hname' := hr.nonEmptyName_eq
  cases hname : n.nonEmptyName with
  | none =>
    rw [hname] at hname'
    rw [groupOf_fst, groupOf_fst, hname, ← hname', groupWalk, ← hname']
    exact ⟨quiet_nil, .none⟩
  | some name =>
    rw [hname] at hname'
    obtain ⟨hbelow, hrenamings⟩ := (quiet_groupWalk hname).1 hq
    have hmade : UpToOrder Entry.Reordered (n.childNodes.filterMap madeEntry)
        (m.childNodes.filterMap madeEntry) :=
      hr.childNodes.filterMap fun c hc d hcd => (ih c hc).madeEntry hcd (hbelow c hc)
    obtain ⟨hrenamings', hentries⟩ :=
      insertAll_reordered entryHints (fun _ _ he => he.key_eq) hmade hrenamings
    constructor
    · exact (quiet_groupWalk hname'.symm).2
        ⟨quiet_children ih hr.childNodes hbelow, hrenamings'⟩
    · rw [groupOf_fst_of_named hname, groupOf_fst_of_named hname'.symm, ← hr.toAttributes_eq]
      by_cases hempty : insertAll entryHints [] (n.childNodes.filterMap madeEntry) = []
      · rw [if_pos hempty, if_pos (hentries.eq_nil_iff.1 hempty)]
        exact .none
      · rw [if_neg hempty, if_neg (mt hentries.eq_nil_iff.2 hempty)]
        exact .some (.mk _ _ _ hentries)

/-- Every node is steady, by induction on what is below it. -/
theorem steady (n : Node) : Steady n := by
  induction n using Node.induction with
  | node n ih => exact steady_of_children ih

/-! ## Categories -/

/-- A shortcut is made of a node alone, so what is below the node does not matter for it. -/
theorem directShortcut_reordered {n m : Node} (hr : n.Reordered m) :
    directShortcut n = directShortcut m := by
  rw [directShortcut, directShortcut, hr.verdict_eq, hr.madeShortcut_eq]

/-- The group that a child of a category becomes is the same but for the order. -/
theorem directGroup_reordered {n m : Node} (hr : n.Reordered m)
    (hq : Quiet (walkBelow .categoryChild n)) :
    Option.Rel Group.Reordered (directGroup n) (directGroup m) := by
  have hsame := hr.verdict_eq .categoryChild
  by_cases hv : n.verdict .categoryChild = .container
  · rw [directGroup, directGroup, if_pos hv, if_pos (hsame ▸ hv)]
    exact (steady n).madeGroup hr hq hv
  · rw [directGroup, directGroup, if_neg hv, if_neg (hsame ▸ hv)]
    exact .none

/-- What holds of a container holds of a node at the top: it is `Steady` too. -/
theorem category_reordered {n m : Node} (hr : n.Reordered m) (hq : Quiet (categoryWalk n)) :
    Quiet (categoryWalk m) ∧
      Option.Rel Category.Reordered (madeCategory n) (madeCategory m) := by
  have hname' := hr.nonEmptyName_eq
  have hident' := hr.nonEmptyIdentifier_eq
  unfold madeCategory
  rw [categoryOf_fst, categoryOf_fst, ← hname', ← hident']
  cases hname : n.nonEmptyName with
  | none =>
    rw [categoryWalk, ← hname', hname]
    exact ⟨quiet_nil, .none⟩
  | some name =>
    cases hident : n.nonEmptyIdentifier with
    | none =>
      rw [categoryWalk, ← hname', ← hident', hname, hident]
      exact ⟨quiet_nil, .none⟩
    | some identifier =>
      rw [hname] at hname'
      rw [hident] at hident'
      obtain ⟨hbelow, hshortcuts, hgroups⟩ := (quiet_categoryWalk hname hident).1 hq
      have hsame : UpToOrder Eq (n.childNodes.filterMap directShortcut)
          (m.childNodes.filterMap directShortcut) :=
        hr.childNodes.filterMap fun c _ d hcd => by
          rw [directShortcut_reordered hcd]
          cases directShortcut d with
          | none => exact .none
          | some s => exact .some rfl
      have hmade : UpToOrder Group.Reordered (n.childNodes.filterMap directGroup)
          (m.childNodes.filterMap directGroup) :=
        hr.childNodes.filterMap fun c hc d hcd => directGroup_reordered hcd (hbelow c hc)
      obtain ⟨hshortcuts', hslots⟩ :=
        insertAll_reordered shortcutHints (fun _ _ heq => congrArg _ heq) hsame hshortcuts
      obtain ⟨hgroups', hsubgroups⟩ :=
        insertAll_reordered groupHints (fun _ _ hg => hg.key_eq) hmade hgroups
      constructor
      · exact (quiet_categoryWalk hname'.symm hident'.symm).2
          ⟨quiet_children (fun c _ => steady c) hr.childNodes hbelow, hshortcuts', hgroups'⟩
      · have hshortcuts : insertAll shortcutHints [] (n.childNodes.filterMap directShortcut) ~
            insertAll shortcutHints [] (m.childNodes.filterMap directShortcut) :=
          hslots.perm fun slot slot' hslot => by
            obtain ⟨k, rfl⟩ := hslot
            rfl
        refine rel_filter (.some ⟨rfl, rfl, rfl, hshortcuts, hsubgroups⟩) fun c c' hc => ?_
        rw [hc.key]

/-- **Where nothing is renamed the order of siblings does not matter**: in any other order nothing
is renamed either, and the tree is the same but for the order of the entries. -/
theorem reordered_ofNodes {ns ms : List Node} (hquiet : (ofNodes ns).warnings = [])
    (h : UpToOrder Node.Reordered ns ms) :
    (ofNodes ms).warnings = [] ∧
      UpToOrder (SlotLike Category.Reordered) (ofNodes ns).categories (ofNodes ms).categories := by
  rw [warnings_eq_nil_iff, quiet_perm (events_ofNodes_perm _), quiet_append, quiet_flatMap,
    quiet_renamed] at hquiet ⊢
  obtain ⟨hbelow, hrenamings⟩ := hquiet
  have hcategory : ∀ n ∈ ns, ∀ m, n.Reordered m → Quiet (categoryWalk m) ∧
      Option.Rel Category.Reordered (madeCategory n) (madeCategory m) := fun n hn m hr =>
    category_reordered hr (quiet_categoryEvents.1 (hbelow n hn))
  have hmade : UpToOrder Category.Reordered (ns.filterMap madeCategory)
      (ms.filterMap madeCategory) := h.filterMap fun n hn m hr => (hcategory n hn m hr).2
  obtain ⟨hrenamings', hcategories⟩ :=
    insertAll_reordered categoryHints (fun _ _ hc => hc.key) hmade hrenamings
  refine ⟨⟨?_, hrenamings'⟩, ?_⟩
  · intro m hm
    obtain ⟨n, hn, hr⟩ := h.exists_of_mem hm
    exact quiet_categoryEvents.2 (hcategory n hn m hr).1
  · rw [ofNodes_categories, ofNodes_categories]
    exact hcategories

/-- Two categories; in one of them a group without a key holds a shortcut of the same name as one
outside. -/
def orderedForest : List Node :=
  [{ name := some "Edit"
     identifier := some "edit"
     children := some [{ name := some "Copy", hotkeyId := some 1 }] },
   { name := some "Windows"
     identifier := some "windows"
     children := some
      [{ name := some "Fill", hotkeyId := some 2 },
       { name := some "Tiles"
         children := some
          [{ name := some "Left", hotkeyId := some 3 },
           { name := some "Right", hotkeyId := some 4 }] },
       { name := some "***"
         children := some [{ name := some "Fill", hotkeyId := some 5 }] }] }]

/-- The same nodes in another order, at three levels. -/
def shuffledForest : List Node :=
  [{ name := some "Windows"
     identifier := some "windows"
     children := some
      [{ name := some "Tiles"
         children := some
          [{ name := some "Right", hotkeyId := some 4 },
           { name := some "Left", hotkeyId := some 3 }] },
       { name := some "Fill", hotkeyId := some 2 },
       { name := some "***"
         children := some [{ name := some "Fill", hotkeyId := some 5 }] }] },
   { name := some "Edit"
     identifier := some "edit"
     children := some [{ name := some "Copy", hotkeyId := some 1 }] }]

theorem orderedForest_upToOrder_shuffledForest :
    UpToOrder Node.Reordered orderedForest shuffledForest :=
  have hentries := UpToOrder.of_perm (fun _ _ => Node.Reordered.refl _) (List.Perm.swap _ _ [])
  have hchildren : UpToOrder Node.Reordered _ _ :=
    ⟨_, .cons (.refl _) (.cons (.inner _ hentries) (.cons (.refl _) .nil)), List.Perm.swap _ _ _⟩
  ⟨_, .cons (.refl _) (.cons (.inner _ hchildren) .nil), List.Perm.swap _ _ _⟩

theorem reordered_shuffledForest :
    (ofNodes orderedForest).warnings = [] ∧
      UpToOrder Node.Reordered orderedForest shuffledForest ∧
      (ofNodes shuffledForest).warnings = [] ∧
      UpToOrder (SlotLike Category.Reordered) (ofNodes orderedForest).categories
        (ofNodes shuffledForest).categories := by
  have hquiet : (ofNodes orderedForest).warnings = [] := by decide +kernel
  have hreordered := orderedForest_upToOrder_shuffledForest
  exact ⟨hquiet, hreordered, reordered_ofNodes hquiet hreordered⟩

end Build

end HotkeyTree
