import HotkeyTree.Proofs.Statistics

/-!
# Proofs: an outline determines the tree

An outline is flat. What is below a line can still be told from the depths alone: it goes on up to
the next line that does not stand deeper. So two trees with the same outline have the same entries
in the same places, and differ at most in what no line tells of a shortcut or a group.

The lists of an outline are all made alike: the lines of one thing after those of another. That
such a list can be taken apart again is shown once, for any tokens (`flatMap_append_inj`).
-/

namespace HotkeyTree

/-! ## Things spelled one after the other -/

section Spelling

variable {α τ γ : Type} {spell : α → List τ} {P Q : α → Prop}

/-- Things can be told from their spellings one after the other, if each can be told from its own
spelling with whatever may follow it, and if none begins like what follows them all. -/
theorem flatMap_append_inj (told : α → γ) (Follow Stop : List τ → Prop)
    (hstop : ∀ rest, Stop rest → Follow rest)
    (hmore : ∀ a rest, Follow (spell a ++ rest))
    (hbegin : ∀ a rest, ¬ Stop (spell a ++ rest))
    (hone : ∀ a a' rest rest', P a → Q a' → Follow rest → Follow rest' →
      spell a ++ rest = spell a' ++ rest' → told a = told a' ∧ rest = rest') :
    ∀ {as as' : List α} {rest rest' : List τ}, (∀ a ∈ as, P a) → (∀ a ∈ as', Q a) →
      Stop rest → Stop rest' → as.flatMap spell ++ rest = as'.flatMap spell ++ rest' →
      as.map told = as'.map told ∧ rest = rest' := by
  -- what follows a thing: further things, or the end
  have hfollow : ∀ (as : List α) (rest : List τ),
      Stop rest → Follow (as.flatMap spell ++ rest) := by
    intro as rest hrest
    cases as with
    | nil => exact hstop rest hrest
    | cons a as =>
      rw [List.flatMap_cons, List.append_assoc]
      exact hmore a _
  intro as
  induction as with
  | nil =>
    intro as' rest rest' _ _ hrest _ h
    cases as' with
    | nil => exact ⟨rfl, h⟩
    | cons a' as' =>
      rw [List.flatMap_cons, List.append_assoc, List.flatMap_nil, List.nil_append] at h
      exact absurd (h ▸ hrest) (hbegin a' _)
  | cons a as ih =>
    intro as' rest rest' has has' hrest hrest' h
    cases as' with
    | nil =>
      rw [List.flatMap_cons, List.append_assoc, List.flatMap_nil, List.nil_append] at h
      exact absurd (h ▸ hrest') (hbegin a _)
    | cons a' as' =>
      rw [List.flatMap_cons, List.flatMap_cons, List.append_assoc, List.append_assoc] at h
      obtain ⟨hhead, htail⟩ := hone a a' _ _ (has a List.mem_cons_self)
        (has' a' List.mem_cons_self) (hfollow as rest hrest) (hfollow as' rest' hrest') h
      obtain ⟨hmap, hend⟩ := ih (fun b hb => has b (List.mem_cons_of_mem _ hb))
        (fun b hb => has' b (List.mem_cons_of_mem _ hb)) hrest hrest' htail
      exact ⟨by rw [List.map_cons, List.map_cons, hhead, hmap], hend⟩

end Spelling

/-! ## What an outline tells of a tree -/

/-- A shortcut without what its line does not tell. -/
def Shortcut.told (s : Shortcut) : Shortcut where
  id := s.id
  name := s.name
  key := s.key
  dynamic := some s.isDynamic

mutual

/-- An entry without what its lines do not tell. -/
def Entry.told : Entry → Entry
  | .shortcut s => .shortcut s.told
  | .group g => .group (Group.told g)
termination_by structural e => e

/-- A group without what its lines do not tell. -/
def Group.told : Group → Group
  | ⟨name, key, _, entries⟩ => ⟨name, key, "", Entry.toldSlots entries⟩
termination_by structural g => g

/-- Slots with the entries in them without what their lines do not tell. -/
def Entry.toldSlots : List (String × Entry) → List (String × Entry)
  | [] => []
  | e :: es => Entry.toldSlot e :: Entry.toldSlots es
termination_by structural es => es

/-- A slot with the entry in it without what its lines do not tell. -/
def Entry.toldSlot : String × Entry → String × Entry
  | (k, e) => (k, Entry.told e)
termination_by structural e => e

end

/-- A category without what its lines do not tell. -/
def Category.told (c : Category) : Category where
  name := c.name
  key := c.key
  sourceIdentifier := ""
  shortcuts := c.shortcuts.map fun slot => (slot.1, slot.2.told)
  subgroups := c.subgroups.map fun slot => (slot.1, slot.2.told)

/-- A tree without what its lines do not tell. -/
def Keyed.told (m : Keyed Category) : Keyed Category := m.map fun slot => (slot.1, slot.2.told)

theorem Group.told_eq (g : Group) :
    g.told = ⟨g.name, g.key, "", g.entries.map fun slot => (slot.1, slot.2.told)⟩ := by
  have hslots : ∀ es : List (String × Entry),
      Entry.toldSlots es = es.map fun slot => (slot.1, slot.2.told) := by
    intro es
    induction es with
    | nil => rfl
    | cons e es ih => rw [Entry.toldSlots, ih, List.map_cons, Entry.toldSlot]
  obtain ⟨name, key, sourceIdentifier, entries⟩ := g
  rw [Group.told, hslots]

/-- Every entry of a tree carries the key it is stored under. No line tells the latter. -/
def OwnKeys (m : Keyed Category) : Prop := ∀ l, HasMapping m l → ∀ e ∈ l, e.own = e.stored

section OwnKeys

variable {m : Keyed Category}

theorem Keyed.own_eq_of_mem {α : Type} [HasKey α] [Labelled α] {mapping : Keyed α}
    (h : ∀ e ∈ mapping.labels, e.own = e.stored) {slot : String × α} (hslot : slot ∈ mapping) :
    HasKey.key slot.2 = slot.1 :=
  h _ (List.mem_map_of_mem hslot)

theorem OwnKeys.category (hm : OwnKeys m) {slot : String × Category} (h : slot ∈ m) :
    slot.2.key = slot.1 :=
  Keyed.own_eq_of_mem (hm _ .categories) h

theorem OwnKeys.shortcut (hm : OwnKeys m) {k : String} {c : Category} (hc : (k, c) ∈ m)
    {slot : String × Shortcut} (h : slot ∈ c.shortcuts) : slot.2.key = slot.1 :=
  Keyed.own_eq_of_mem (hm _ (.shortcuts hc)) h

theorem OwnKeys.subgroup (hm : OwnKeys m) {k : String} {c : Category} (hc : (k, c) ∈ m)
    {slot : String × Group} (h : slot ∈ c.subgroups) : slot.2.key = slot.1 :=
  Keyed.own_eq_of_mem (hm _ (.subgroups hc)) h

theorem OwnKeys.entry (hm : OwnKeys m) {g : Group} (hg : HasGroup m g) {slot : String × Entry}
    (h : slot ∈ g.entries) : slot.2.key = slot.1 :=
  Keyed.own_eq_of_mem (α := Entry) (hm _ (.entries hg)) h

end OwnKeys

namespace Outline

/-! ## Taking lines apart -/

/-- Lines that are over, or go on with one that stands higher than this depth. -/
def Ends (depth : Nat) (rest : List Line) : Prop := ∀ l ∈ rest.head?, l.depth < depth

theorem Ends.mono {depth depth' : Nat} (hle : depth ≤ depth') {rest : List Line}
    (h : Ends depth rest) : Ends depth' rest :=
  fun l hl => Nat.lt_of_lt_of_le (h l hl) hle

theorem ends_cons_iff {depth : Nat} {l : Line} {rest : List Line} :
    Ends depth (l :: rest) ↔ l.depth < depth := by
  simp [Ends]

theorem ofSlots_eq (depth : Nat) (es : List (String × Entry)) :
    ofSlots depth es = es.flatMap fun slot => ofEntry depth slot.2 := by
  induction es with
  | nil => rfl
  | cons e es ih => rw [ofSlots, ih, List.flatMap_cons, ofSlot]

theorem ofGroup_eq (depth : Nat) (g : Group) :
    ofGroup depth g = ⟨depth, g.key, g.name, .group⟩ ::
      g.entries.flatMap fun slot => ofEntry (depth + 1) slot.2 := by
  obtain ⟨name, key, sourceIdentifier, entries⟩ := g
  rw [ofGroup, ofSlots_eq]

/-- The first line of an entry stands at its depth. -/
theorem exists_ofEntry_eq_cons (depth : Nat) (e : Entry) :
    ∃ l ls, ofEntry depth e = l :: ls ∧ l.depth = depth := by
  cases e with
  | shortcut s => exact ⟨_, _, rfl, rfl⟩
  | group g =>
    rw [ofEntry, ofGroup_eq]
    exact ⟨_, _, rfl, rfl⟩

theorem ends_ofEntry_append (depth : Nat) (e : Entry) (rest : List Line) :
    Ends (depth + 1) (ofEntry depth e ++ rest) := by
  obtain ⟨l, ls, heq, hl⟩ := exists_ofEntry_eq_cons depth e
  rw [heq, List.cons_append, ends_cons_iff]
  omega

theorem not_ends_ofEntry_append (depth : Nat) (e : Entry) (rest : List Line) :
    ¬ Ends depth (ofEntry depth e ++ rest) := by
  obtain ⟨l, ls, heq, hl⟩ := exists_ofEntry_eq_cons depth e
  rw [heq, List.cons_append, ends_cons_iff]
  omega

theorem told_eq_of_ofShortcut_eq {s s' : Shortcut} {depth : Nat}
    (h : ofShortcut depth s = ofShortcut depth s') : s.told = s'.told := by
  simp only [ofShortcut, Line.mk.injEq, Kind.shortcut.injEq, true_and] at h
  obtain ⟨hkey, hname, hid, hdynamic⟩ := h
  rw [Shortcut.told, Shortcut.told, hkey, hname, hid, hdynamic]

/-- What is told of an entry, and what comes after it, can be told from the lines. -/
def Tells (e : Entry) : Prop :=
  ∀ m', OwnKeys m' → ∀ e' : Entry, (∀ g, e' = .group g → HasGroup m' g) →
    ∀ depth rest rest', Ends (depth + 1) rest → Ends (depth + 1) rest' →
      ofEntry depth e ++ rest = ofEntry depth e' ++ rest' → e.told = e'.told ∧ rest = rest'

/-- A slot as it is told: its key is that of the entry. -/
theorem toldSlot_eq {k k' : String} {e e' : Entry} (h : e.key = k) (h' : e'.key = k')
    (htold : e.told = e'.told) : (k, e.told) = (k', e'.told) := by
  have hkey : ∀ e : Entry, e.told.key = e.key := by
    intro e
    cases e with
    | shortcut s => rfl
    | group g => simp only [Entry.told, Group.told_eq, Entry.key]
  have hkeys : k = k' := by rw [← h, ← h', ← hkey, htold, hkey]
  rw [hkeys, htold]

theorem tells_shortcut (s : Shortcut) : Tells (.shortcut s) := by
  intro m' _ e' _ depth rest rest' _ _ h
  cases e' with
  | shortcut s' =>
    rw [ofEntry, ofEntry, List.singleton_append, List.singleton_append, List.cons.injEq] at h
    refine ⟨?_, h.2⟩
    rw [Entry.told, Entry.told, told_eq_of_ofShortcut_eq h.1]
  | group g' =>
    rw [ofEntry, ofEntry, ofGroup_eq, List.singleton_append, List.cons_append,
      List.cons.injEq] at h
    simp [ofShortcut] at h

section Trees

variable {m m' : Keyed Category}

theorem tells_group {g : Group} (hm : OwnKeys m) (hg : HasGroup m g)
    (ih : ∀ slot ∈ g.entries, Tells slot.2) : Tells (.group g) := by
  intro m' hm' e' he' depth rest rest' hrest hrest' h
  cases e' with
  | shortcut s' =>
    rw [ofEntry, ofEntry, ofGroup_eq, List.singleton_append, List.cons_append,
      List.cons.injEq] at h
    simp [ofShortcut] at h
  | group g' =>
    have hg' := he' g' rfl
    rw [ofEntry, ofEntry, ofGroup_eq, ofGroup_eq, List.cons_append, List.cons_append,
      List.cons.injEq, Line.mk.injEq] at h
    obtain ⟨⟨-, hkey, hname, -⟩, hlines⟩ := h
    obtain ⟨hentries, hend⟩ := flatMap_append_inj
      (P := fun slot => slot ∈ g.entries) (Q := fun slot => slot ∈ g'.entries)
      (fun slot => (slot.1, slot.2.told)) (Ends (depth + 1 + 1)) (Ends (depth + 1))
      (fun _ => Ends.mono (Nat.le_succ _))
      (fun slot rest => ends_ofEntry_append (depth + 1) slot.2 rest)
      (fun slot rest => not_ends_ofEntry_append (depth + 1) slot.2 rest)
      (fun slot slot' after after' hslot hslot' hafter hafter' heq => by
        obtain ⟨k', e'⟩ := slot'
        have hbelow : ∀ g'', e' = .group g'' → HasGroup m' g'' :=
          fun g'' he => .nested hg' (he ▸ hslot')
        obtain ⟨htold, hsame⟩ := ih slot hslot m' hm' e' hbelow _ _ _ hafter hafter' heq
        exact ⟨toldSlot_eq (hm.entry hg hslot) (hm'.entry hg' hslot') htold, hsame⟩)
      (fun _ h => h) (fun _ h => h) hrest hrest' hlines
    refine ⟨?_, hend⟩
    rw [Entry.told, Entry.told, Group.told_eq, Group.told_eq, hkey, hname, hentries]

/-- Every entry of a tree can be told from its lines. -/
theorem tells (hm : OwnKeys m) (e : Entry) : (∀ g, e = .group g → HasGroup m g) → Tells e := by
  induction e using Entry.induction with
  | shortcut s => exact fun _ => tells_shortcut s
  | group g ih =>
    intro he
    have hg := he g rfl
    refine tells_group hm hg fun slot hslot => ih slot hslot fun g' hg' => ?_
    obtain ⟨k, e⟩ := slot
    obtain rfl : e = .group g' := hg'
    exact .nested hg hslot

/-! ## Where lines come from -/

/-- A line stands for a category, a group or a shortcut of a tree, at a depth it can have. -/
inductive StandsFor (m : Keyed Category) : Line → Prop where
  | category {k : String} {c : Category} (hc : (k, c) ∈ m) : StandsFor m (categoryLine c)
  | group {g : Group} (hg : HasGroup m g) {depth : Nat} (hdepth : 1 ≤ depth) :
    StandsFor m ⟨depth, g.key, g.name, .group⟩
  | shortcut {s : Shortcut} (hs : HasShortcut m s) {depth : Nat} (hdepth : 1 ≤ depth) :
    StandsFor m (ofShortcut depth s)

theorem standsFor_of_mem_ofEntry (e : Entry) : (∀ g, e = .group g → HasGroup m g) →
    (∀ s, e = .shortcut s → HasShortcut m s) →
    ∀ depth, 1 ≤ depth → ∀ l ∈ ofEntry depth e, StandsFor m l := by
  induction e using Entry.induction with
  | shortcut s =>
    intro _ hs depth hdepth l hl
    rw [ofEntry, List.mem_singleton] at hl
    exact hl ▸ .shortcut (hs s rfl) hdepth
  | group g ih =>
    intro hg _ depth hdepth l hl
    rw [ofEntry, ofGroup_eq] at hl
    rcases List.mem_cons.1 hl with rfl | hl
    · exact .group (hg g rfl) hdepth
    · obtain ⟨⟨k, e⟩, hslot, hl⟩ := List.mem_flatMap.1 hl
      refine ih (k, e) hslot ?_ ?_ (depth + 1) (Nat.le_add_left 1 depth) l hl
      · rintro g' he
        obtain rfl : e = .group g' := he
        exact .nested (hg g rfl) hslot
      · rintro s he
        obtain rfl : e = .shortcut s := he
        exact .nested (hg g rfl) hslot

theorem standsFor_of_mem_ofCategories {l : Line} (hl : l ∈ ofCategories m) : StandsFor m l := by
  obtain ⟨⟨k, c⟩, hc, hl⟩ := List.mem_flatMap.1 hl
  rcases List.mem_cons.1 hl with rfl | hl
  · exact .category hc
  · rcases List.mem_append.1 hl with hl | hl
    · obtain ⟨⟨k', s⟩, hs, rfl⟩ := List.mem_map.1 hl
      exact .shortcut (.direct hc hs) (Nat.le_refl 1)
    · obtain ⟨⟨k', g⟩, hg, hl⟩ := List.mem_flatMap.1 hl
      refine standsFor_of_mem_ofEntry (.group g) (fun g' he => ?_) (fun _ => nofun) 1
        (Nat.le_refl 1) l hl
      exact Entry.group.inj he ▸ .subgroup hc hg

/-! ## Whole outlines -/

/-- Lines that are over, or go on with one of something else than a shortcut. -/
def NoShortcut (rest : List Line) : Prop := ∀ l ∈ rest.head?, l.isShortcut = false

theorem noShortcut_flatMap_append (gs : Keyed Group) {rest : List Line} (h : NoShortcut rest) :
    NoShortcut ((gs.flatMap fun slot => ofGroup 1 slot.2) ++ rest) := by
  cases gs with
  | nil => exact h
  | cons slot gs =>
    rw [List.flatMap_cons, ofGroup_eq]
    intro l hl
    obtain rfl := Option.mem_some_iff.1 hl
    rfl

/-- The shortcuts directly in a category can be told from their lines, and where they end. -/
theorem told_shortcuts_eq (hm : OwnKeys m) (hm' : OwnKeys m') {k k' : String} {c c' : Category}
    (hc : (k, c) ∈ m) (hc' : (k', c') ∈ m') {rest rest' : List Line} (hrest : NoShortcut rest)
    (hrest' : NoShortcut rest')
    (h : (c.shortcuts.map fun slot => ofShortcut 1 slot.2) ++ rest =
      (c'.shortcuts.map fun slot => ofShortcut 1 slot.2) ++ rest') :
    c.told.shortcuts = c'.told.shortcuts ∧ rest = rest' := by
  rw [List.map_eq_flatMap, List.map_eq_flatMap] at h
  refine flatMap_append_inj (P := fun slot => slot ∈ c.shortcuts)
    (Q := fun slot => slot ∈ c'.shortcuts) (fun slot => (slot.1, slot.2.told)) (fun _ => True)
    NoShortcut (fun _ _ => trivial) (fun _ _ => trivial) ?_ ?_
    (fun _ h => h) (fun _ h => h) hrest hrest' h
  · intro slot after hbegin
    have hline := hbegin (ofShortcut 1 slot.2) rfl
    exact absurd hline (by simp [ofShortcut, Line.isShortcut])
  · intro slot slot' after after' hslot hslot' _ _ heq
    rw [List.singleton_append, List.singleton_append, List.cons.injEq] at heq
    have htold := told_eq_of_ofShortcut_eq heq.1
    have hkey : slot.1 = slot'.1 := by
      rw [← hm.shortcut hc hslot, ← hm'.shortcut hc' hslot']
      show slot.2.told.key = slot'.2.told.key
      rw [htold]
    exact ⟨by rw [hkey, htold], heq.2⟩

/-- The groups of a category can be told from their lines, and where they end. -/
theorem told_subgroups_eq (hm : OwnKeys m) (hm' : OwnKeys m') {k k' : String} {c c' : Category}
    (hc : (k, c) ∈ m) (hc' : (k', c') ∈ m') {rest rest' : List Line} (hrest : Ends 1 rest)
    (hrest' : Ends 1 rest')
    (h : (c.subgroups.flatMap fun slot => ofGroup 1 slot.2) ++ rest =
      (c'.subgroups.flatMap fun slot => ofGroup 1 slot.2) ++ rest') :
    c.told.subgroups = c'.told.subgroups ∧ rest = rest' := by
  refine flatMap_append_inj (P := fun slot => slot ∈ c.subgroups)
    (Q := fun slot => slot ∈ c'.subgroups) (fun slot => (slot.1, slot.2.told)) (Ends 2) (Ends 1)
    (fun _ => Ends.mono (by decide))
    (fun slot after => ends_ofEntry_append 1 (.group slot.2) after)
    (fun slot after => not_ends_ofEntry_append 1 (.group slot.2) after) ?_
    (fun _ h => h) (fun _ h => h) hrest hrest' h
  rintro ⟨k, g⟩ ⟨k', g'⟩ after after' hslot hslot' hafter hafter' heq
  have hg : ∀ g₀, Entry.group g = .group g₀ → HasGroup m g₀ := fun g₀ h =>
    Entry.group.inj h ▸ .subgroup hc hslot
  have hg' : ∀ g₀, Entry.group g' = .group g₀ → HasGroup m' g₀ := fun g₀ h =>
    Entry.group.inj h ▸ .subgroup hc' hslot'
  obtain ⟨htold, hsame⟩ := tells hm (.group g) hg m' hm' (.group g') hg' 1 after after' hafter
    hafter' heq
  have hslots : (k, Entry.told (.group g)) = (k', Entry.told (.group g')) := toldSlot_eq
    (hm.subgroup hc hslot) (hm'.subgroup hc' hslot') htold
  rw [Prod.mk.injEq, Entry.told, Entry.told, Entry.group.injEq] at hslots
  exact ⟨by rw [hslots.1, hslots.2], hsame⟩

/-- A category can be told from its lines, and where it ends. -/
theorem told_category_eq (hm : OwnKeys m) (hm' : OwnKeys m') {slot slot' : String × Category}
    (hc : slot ∈ m) (hc' : slot' ∈ m') {rest rest' : List Line} (hrest : Ends 1 rest)
    (hrest' : Ends 1 rest') (hno : NoShortcut rest) (hno' : NoShortcut rest')
    (h : ofCategory slot.2 ++ rest = ofCategory slot'.2 ++ rest') :
    (slot.1, slot.2.told) = (slot'.1, slot'.2.told) ∧ rest = rest' := by
  obtain ⟨k, c⟩ := slot
  obtain ⟨k', c'⟩ := slot'
  change categoryLine c :: (below c ++ rest) = categoryLine c' :: (below c' ++ rest') at h
  rw [List.cons.injEq, below, below, List.append_assoc, List.append_assoc, categoryLine,
    categoryLine, Line.mk.injEq] at h
  obtain ⟨⟨-, hkey, hname, -⟩, hbelow⟩ := h
  obtain ⟨hshortcuts, hgroups⟩ := told_shortcuts_eq hm hm' hc hc'
    (noShortcut_flatMap_append _ hno) (noShortcut_flatMap_append _ hno') hbelow
  obtain ⟨hsubgroups, hend⟩ := told_subgroups_eq hm hm' hc hc' hrest hrest' hgroups
  have hk : k = k' :=
    calc k = c.key := (hm.category hc).symm
      _ = c'.key := hkey
      _ = k' := hm'.category hc'
  have htold : c.told = c'.told := by
    simp only [Category.told] at hshortcuts hsubgroups
    rw [Category.told, Category.told, hkey, hname, hshortcuts, hsubgroups]
  exact ⟨by rw [hk, htold], hend⟩

/-- **An outline determines the tree**, but for what no line tells. -/
theorem told_eq_of_ofCategories_eq (hm : OwnKeys m) (hm' : OwnKeys m')
    (h : ofCategories m = ofCategories m') : m.told = m'.told := by
  have hlines : (m.flatMap fun slot => ofCategory slot.2) ++ [] =
      (m'.flatMap fun slot => ofCategory slot.2) ++ [] := by
    rw [List.append_nil, List.append_nil]
    exact h
  refine (flatMap_append_inj (P := fun slot => slot ∈ m) (Q := fun slot => slot ∈ m')
    (fun slot => (slot.1, slot.2.told)) (fun rest => Ends 1 rest ∧ NoShortcut rest) (· = [])
    ?_ ?_ ?_ ?_
    (fun _ h => h) (fun _ h => h) rfl rfl hlines).1
  · rintro rest rfl
    exact ⟨by simp [Ends], by simp [NoShortcut]⟩
  · intro slot rest
    constructor
    · exact ends_cons_iff.2 Nat.one_pos
    · intro l hl
      obtain rfl := Option.mem_some_iff.1 hl
      rfl
  · exact fun _ _ => nofun
  · rintro slot slot' rest rest' hslot hslot' ⟨hends, hno⟩ ⟨hends', hno'⟩ heq
    exact told_category_eq hm hm' hslot hslot' hends hends' hno hno' heq

end Trees

end Outline

end HotkeyTree
