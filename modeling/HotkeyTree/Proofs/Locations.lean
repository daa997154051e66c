import HotkeyTree.Proofs.Reasons
import HotkeyTree.Proofs.Spelling

/-!
# Proofs: where the entries are that a warning is about

A warning names a container by the key of its display name, and it is given before the container is
stored itself. The container may then be renamed, so that it is found by its name but not by the key
in the warning; and if its name, or the name of a container above it, gives no key, it is dropped
with all that is in it. Nothing else can happen to it, since it holds entries.
-/

namespace HotkeyTree

open Keyed

/-! ## Warnings cut at their quotes -/

section Intercalate

variable {α : Type} [DecidableEq α] {x : α} {ps qs : List (List α)}

theorem count_intercalate (x : α) (ps : List (List α)) :
    ([x].intercalate ps).count x = ps.flatten.count x + (ps.length - 1) := by
  induction ps with
  | nil => simp
  | cons p ps ih =>
    cases ps with
    | nil => simp
    | cons q qs =>
      rw [List.intercalate_cons_cons, List.count_append, List.count_append, ih]
      simp only [List.flatten_cons, List.count_append, List.count_singleton_self, List.length_cons]
      omega

/-- If the parts of one side do not contain the separator, those of the other do not either. -/
theorem intercalate_inj (hlength : ps.length = qs.length) (hqs : ∀ q ∈ qs, x ∉ q)
    (h : [x].intercalate ps = [x].intercalate qs) : ps = qs := by
  by_cases hnil : qs = []
  · rw [hnil, List.length_nil, List.length_eq_zero_iff] at hlength
    rw [hlength, hnil]
  have hfree : ∀ {rs : List (List α)}, x ∉ rs.flatten ↔ ∀ r ∈ rs, x ∉ r := by
    intro rs
    simp only [List.mem_flatten, not_exists, not_and]
  have hcount : ps.flatten.count x = qs.flatten.count x := by
    have hall := congrArg (List.count x) h
    rwa [count_intercalate, count_intercalate, hlength, Nat.add_right_cancel_iff] at hall
  have hps : ∀ p ∈ ps, x ∉ p := by
    rw [← hfree, ← List.count_eq_zero, hcount, List.count_eq_zero, hfree]
    exact hqs
  have hnil' : ps ≠ [] := by
    rintro rfl
    exact hnil (List.length_eq_zero_iff.1 hlength.symm)
  rw [← List.splitOn_intercalate x hps hnil', h, List.splitOn_intercalate x hqs hnil]

end Intercalate

/-- The parts of a warning between its quotes. -/
def Scope.quoted (scope : Scope) (r : Renaming) : List String :=
  let change := [r.taken, " already taken, stored as ", r.stored, ""]
  match scope with
  | .categories => "categories: key " :: change
  | .category key => "category " :: key :: ": key " :: change
  | .group key => "group " :: key :: ": key " :: change

theorem Scope.toList_warning (scope : Scope) (r : Renaming) :
    (scope.text ++ ": " ++ r.message).toList =
      ['\''].intercalate ((scope.quoted r).map String.toList) := by
  cases scope <;> simp [Scope.text, Renaming.message, Scope.quoted, List.intercalate]

/-- No part of a warning has a quote in it. -/
def Unquoted (scope : Scope) (r : Renaming) : Prop := ∀ part ∈ scope.quoted r, '\'' ∉ part.toList

/-- A warning can be read in one way only, if there are no quotes in the keys. -/
theorem warning_inj {scope scope' : Scope} {r r' : Renaming} (hunquoted : Unquoted scope' r')
    (h : scope.text ++ ": " ++ r.message = scope'.text ++ ": " ++ r'.message) :
    scope = scope' ∧ r = r' := by
  have hchars := congrArg String.toList h
  have hparts : (scope.quoted r).length = (scope'.quoted r').length →
      scope.quoted r = scope'.quoted r' := by
    intro hlength
    rw [Scope.toList_warning, Scope.toList_warning] at hchars
    have hmap := intercalate_inj (by simpa using hlength)
      (by simpa [Unquoted] using hunquoted) hchars
    exact List.map_injective_iff.2 (fun _ _ => String.toList_injective) hmap
  obtain ⟨taken, stored⟩ := r
  obtain ⟨taken', stored'⟩ := r'
  -- the kinds of mappings differ in the first characters of their texts
  cases scope with
  | categories =>
    cases scope' with
    | categories => simpa [Scope.quoted] using hparts rfl
    | category key' => simp [Scope.text] at hchars
    | group key' => simp [Scope.text] at hchars
  | category key =>
    cases scope' with
    | categories => simp [Scope.text] at hchars
    | category key' => simpa [Scope.quoted] using hparts rfl
    | group key' => simp [Scope.text] at hchars
  | group key =>
    cases scope' with
    | categories => simp [Scope.text] at hchars
    | category key' => simp [Scope.text] at hchars
    | group key' => simpa [Scope.quoted] using hparts rfl

/-! ## Both keys of a renaming -/

namespace Keyed

variable {α : Type}

/-- Both keys of a renaming are in use. -/
def Uses (m : Keyed α) (r : Renaming) : Prop := r.taken ∈ m.keys ∧ r.stored ∈ m.keys

instance (m : Keyed α) (r : Renaming) : Decidable (m.Uses r) :=
  inferInstanceAs (Decidable (r.taken ∈ m.keys ∧ r.stored ∈ m.keys))

variable [HasKey α]

theorem keys_subset_insertAll (hints : α → Hints) (m : Keyed α) (as : List α) :
    m.keys ⊆ (m.insertAll hints as).keys := by
  obtain ⟨slots, hslots, -⟩ := insertAll_eq_append hints m as
  rw [hslots, keys_append]
  exact List.subset_append_left _ _

variable [LawfulHasKey α] {hints : α → Hints}

theorem uses_of_mem_renamings {m : Keyed α} {as : List α} {r : Renaming}
    (h : r ∈ renamings hints m as) : (m.insertAll hints as).Uses r := by
  induction as generalizing m with
  | nil => exact absurd h List.not_mem_nil
  | cons a as ih =>
    rcases List.mem_append.1 h with h | h
    · rw [insertFresh_snd, Option.mem_toList, Option.ite_none_right_eq_some] at h
      obtain ⟨htaken, hr⟩ := h
      obtain rfl := Option.some.inj hr
      have hlater := keys_subset_insertAll hints (m.insertFresh a (hints a)).1 as
      rw [insertFresh_fst_eq, keys_append] at hlater
      rw [insertAll, insertFresh_fst_eq]
      constructor
      · exact hlater (List.mem_append_left _ (has_iff.1 htaken))
      · exact hlater (List.mem_append_right _ (List.mem_singleton_self _))
    · exact ih h

/-- No quote gets into the keys of made entries. -/
theorem Uses.quote_notMem [Labelled α] {make : Node → Option α} {ns : List Node}
    (hmade : ∀ n a, make n = some a → FreshlyMade a) {r : Renaming}
    (h : (insertAll hints [] (ns.filterMap make)).Uses r) :
    '\'' ∉ r.taken.toList ∧ '\'' ∉ r.stored.toList := by
  have hkeys : ∀ k ∈ (insertAll hints [] (ns.filterMap make)).keys, '\'' ∉ k.toList := by
    intro k hk hc
    obtain ⟨slot, hslot, rfl⟩ := List.mem_map.1 hk
    obtain ⟨a, ha, m, rfl, -⟩ := exists_slotOf_of_mem hslot
    obtain ⟨n, -, hmake⟩ := List.mem_filterMap.1 ha
    exact absurd (eq_or_isKeyChar_of_mem_storedKey (hmade n a hmake) hc) (by decide)
  exact ⟨hkeys _ h.1, hkeys _ h.2⟩

end Keyed

namespace Build

/-! ## Containers -/

/-- The key of a node's name, empty if it has no name. -/
def nameKey (n : Node) : String := (n.nonEmptyName.map DisplayName.key).getD ""

def shortcutsMade (n : Node) : Keyed Shortcut :=
  insertAll shortcutHints [] (n.childNodes.filterMap directShortcut)

def subgroupsMade (n : Node) : Keyed Group :=
  insertAll groupHints [] (n.childNodes.filterMap directGroup)

def entriesMade (n : Node) : Keyed Entry :=
  insertAll entryHints [] (n.childNodes.filterMap madeEntry)

/-- A container that is filled as a group, and the nodes it stands in, the innermost first. -/
inductive Filled (ns : List Node) : Node → List Node → Prop where
  /-- A group directly in a category. -/
  | subgroup {n c : Node} (hn : n ∈ ns) (hident : n.nonEmptyIdentifier ≠ none)
      (hc : c ∈ n.childNodes) (hv : c.verdict .categoryChild = .container) : Filled ns c [n]
  /-- A group in a group. -/
  | nested {n c : Node} {above : List Node} (hn : Filled ns n above) (hc : c ∈ n.childNodes)
      (hv : c.verdict .groupChild = .container) : Filled ns c (n :: above)

/-- A container with this name and stored key can be found by the key of its name. -/
def Bears (key name stored : String) : Prop :=
  DisplayName.key name = key ∧ ∃ suffix, stored = key ++ suffix

/-- Where both keys of a renaming are in use. -/
def Located (ns : List Node) (r : Renaming) : Scope → Prop
  | .categories => (ofNodes ns).categories.Uses r
  | .category key => ∃ n ∈ ns, nameKey n = key ∧
      ((shortcutsMade n).Uses r ∨ (subgroupsMade n).Uses r) ∧
      (key ≠ "" → ∃ slot ∈ (ofNodes ns).categories, Bears key slot.2.name slot.1 ∧
        (slot.2.shortcuts.Uses r ∨ slot.2.subgroups.Uses r))
  | .group key => ∃ c above, Filled ns c above ∧ nameKey c = key ∧ (entriesMade c).Uses r ∧
      ((∀ n ∈ c :: above, nameKey n ≠ "") → ∃ g, HasGroup (ofNodes ns).categories g ∧
        Bears key g.name g.key ∧ Uses g.entries r)

theorem nameKey_of_named {n : Node} {name : String} (h : n.nonEmptyName = some name) :
    nameKey n = DisplayName.key name := by
  simp [nameKey, h]

theorem exists_name_of_nameKey_ne {n : Node} (h : nameKey n ≠ "") :
    ∃ name, n.nonEmptyName = some name ∧ nameKey n = DisplayName.key name := by
  cases hname : n.nonEmptyName with
  | none => simp [nameKey, hname] at h
  | some name => exact ⟨name, rfl, nameKey_of_named hname⟩

/-! ## Containers that are kept -/

theorem exists_category {ns : List Node} {n : Node} (hn : n ∈ ns)
    (hident : n.nonEmptyIdentifier ≠ none) (hkey : nameKey n ≠ "") :
    ∃ slot ∈ (ofNodes ns).categories, Bears (nameKey n) slot.2.name slot.1 ∧
      slot.2.shortcuts = shortcutsMade n ∧ slot.2.subgroups = subgroupsMade n := by
  obtain ⟨name, hname, heq⟩ := exists_name_of_nameKey_ne hkey
  obtain ⟨identifier, hident⟩ := Option.ne_none_iff_exists'.1 hident
  have hmade : madeCategory n = some
      { name := DisplayName.clean name
        key := DisplayName.key name
        sourceIdentifier := identifier
        shortcuts := shortcutsMade n
        subgroups := subgroupsMade n } := by
    rw [heq] at hkey
    rw [madeCategory, categoryOf_fst, hname, hident]
    simp [Option.filter, hkey, shortcutsMade, subgroupsMade]
  obtain ⟨slot, hslot, hstores⟩ := exists_slot categoryHints (List.mem_filterMap.2 ⟨n, hn, hmade⟩)
  refine ⟨slot, by rwa [ofNodes_categories], ⟨?_, ?_⟩, ?_, ?_⟩
  · rw [hstores.apply_eq (f := Category.name) (fun _ _ => rfl), heq]
    exact DisplayName.key_clean name
  · rw [heq]
    exact hstores.exists_suffix
  · exact hstores.apply_eq (f := Category.shortcuts) (fun _ _ => rfl)
  · exact hstores.apply_eq (f := Category.subgroups) (fun _ _ => rfl)

/-- A group is made of a container with a key and entries, and is found with these entries wherever
it is stored. -/
theorem exists_group_of_entries {n : Node} (hkey : nameKey n ≠ "") (hne : entriesMade n ≠ []) :
    ∃ g₀, madeGroup n = some g₀ ∧ ∀ k g, Stores g₀ (k, g) →
      Bears (nameKey n) g.name g.key ∧ g.entries = entriesMade n := by
  obtain ⟨name, hname, heq⟩ := exists_name_of_nameKey_ne hkey
  rw [heq] at hkey
  refine ⟨⟨DisplayName.clean name, DisplayName.key name, n.identifier.getD "", entriesMade n⟩,
    ?_, ?_⟩
  · rw [madeGroup, keyedOrDrop_fst, groupOf_fst_of_named hname]
    rw [entriesMade] at hne
    simp [hne, Option.filter, hkey, entriesMade]
  · intro k g hstores
    refine ⟨⟨?_, ?_⟩, hstores.apply_eq (f := Group.entries) (fun _ _ => rfl)⟩
    · rw [hstores.apply_eq (f := Group.name) (fun _ _ => rfl), heq]
      exact DisplayName.key_clean name
    · have hown : g.key = k := hstores.key_eq
      rw [hown, heq]
      exact hstores.exists_suffix

theorem exists_group_of_filled {ns : List Node} {c : Node} {above : List Node}
    (h : Filled ns c above) (hkeys : ∀ n ∈ c :: above, nameKey n ≠ "") (hne : entriesMade c ≠ []) :
    ∃ g, HasGroup (ofNodes ns).categories g ∧ Bears (nameKey c) g.name g.key ∧
      g.entries = entriesMade c := by
  -- from the top: what the container stands in is kept since something is made of the container
  induction h with
  | @subgroup n c hn hident hc hv =>
    obtain ⟨hkey, hkey'⟩ := List.forall_mem_cons.1 hkeys
    obtain ⟨g₀, hmade, hfound⟩ := exists_group_of_entries hkey hne
    obtain ⟨⟨k, category⟩, hcategory, -, -, hsubgroups⟩ :=
      exists_category hn hident (hkey' _ List.mem_cons_self)
    have hdirect : directGroup c = some g₀ := by rw [directGroup, if_pos hv, hmade]
    obtain ⟨⟨k', g⟩, hslot, hstores⟩ :=
      exists_slot groupHints (List.mem_filterMap.2 ⟨c, hc, hdirect⟩)
    have hg : (k', g) ∈ category.subgroups := by
      rw [hsubgroups]
      exact hslot
    exact ⟨g, .subgroup hcategory hg, hfound k' g hstores⟩
  | @nested n c above hn hc hv ih =>
    obtain ⟨hkey, hkeys'⟩ := List.forall_mem_cons.1 hkeys
    obtain ⟨g₀, hmade, hfound⟩ := exists_group_of_entries hkey hne
    have hentry : madeEntry c = some (.group g₀) := by
      rw [madeEntry_eq, hv]
      exact congrArg (Option.map Entry.group) hmade
    obtain ⟨⟨k, e⟩, hslot, hstores⟩ :=
      exists_slot entryHints (List.mem_filterMap.2 ⟨c, hc, hentry⟩)
    obtain ⟨g, hgroup, -, hentries⟩ := ih hkeys' (List.ne_nil_of_mem hslot)
    obtain ⟨g', rfl, hstores'⟩ := hstores.group
    have hg' : (k, Entry.group g') ∈ g.entries := by
      rw [hentries]
      exact hslot
    exact ⟨g', .nested hgroup hg', hfound k g' hstores'⟩

/-! ## Where renamings are reported -/

theorem mem_renamed {scope scope' : Scope} {r : Renaming} {rs : List Renaming} :
    .renamed scope r ∈ renamed scope' rs ↔ scope = scope' ∧ r ∈ rs := by
  simp only [renamed, List.mem_map, Event.renamed.injEq]
  constructor
  · rintro ⟨r', hr', rfl, rfl⟩
    exact ⟨rfl, hr'⟩
  · rintro ⟨rfl, hr⟩
    exact ⟨r, hr, rfl, rfl⟩

theorem renamed_notMem_dropReport {n : Node} {reason : Option DropReason} {scope : Scope}
    {r : Renaming} : .renamed scope r ∉ dropReport n reason := by
  cases reason <;> simp [dropReport]

theorem mem_groupWalk_of_mem_childReports {p : Position} {n : Node} {scope : Scope} {r : Renaming}
    (h : .renamed scope r ∈ childReports p n) :
    n.verdict p = .container ∧ .renamed scope r ∈ groupWalk n := by
  have hbelow := (List.mem_append.1 h).resolve_right renamed_notMem_dropReport
  rw [walkBelow, List.mem_ite_nil_right] at hbelow
  exact hbelow

theorem exists_filled_of_mem_groupWalk {ns : List Node} {scope : Scope} {r : Renaming} (n : Node) :
    ∀ above, Filled ns n above → .renamed scope r ∈ groupWalk n →
      ∃ c above, Filled ns c above ∧ scope = .group (nameKey c) ∧ (entriesMade c).Uses r := by
  induction n using Node.induction with
  | node n ih =>
    intro above hfilled hr
    cases hname : n.nonEmptyName with
    | none => simp [groupWalk, hname] at hr
    | some name =>
      rw [(groupWalk_perm hname).mem_iff, List.mem_append, mem_renamed] at hr
      rcases hr with hr | ⟨rfl, hr⟩
      · obtain ⟨c, hc, hr⟩ := List.mem_flatMap.1 hr
        obtain ⟨hv, hr⟩ := mem_groupWalk_of_mem_childReports hr
        exact ih c hc (n :: above) (.nested hfilled hc hv) hr
      · refine ⟨n, above, hfilled, ?_, uses_of_mem_renamings hr⟩
        rw [nameKey_of_named hname]

theorem located_of_mem_groupWalk {ns : List Node} {scope : Scope} {r : Renaming} {n : Node}
    {above : List Node} (hfilled : Filled ns n above) (hr : .renamed scope r ∈ groupWalk n) :
    Located ns r scope := by
  obtain ⟨c, above, hfilled, rfl, huses⟩ := exists_filled_of_mem_groupWalk n above hfilled hr
  refine ⟨c, above, hfilled, rfl, huses, ?_⟩
  intro hkeys
  have hne : entriesMade c ≠ [] := by
    intro hnil
    rw [hnil] at huses
    exact absurd huses.1 List.not_mem_nil
  obtain ⟨g, hgroup, hbears, hentries⟩ := exists_group_of_filled hfilled hkeys hne
  exact ⟨g, hgroup, hbears, hentries ▸ huses⟩

theorem located_of_mem_categoryEvents {ns : List Node} {scope : Scope} {r : Renaming} {n : Node}
    (hn : n ∈ ns) (hr : .renamed scope r ∈ categoryEvents n) : Located ns r scope := by
  rw [categoryEvents_eq] at hr
  have hwalk := (List.mem_append.1 hr).resolve_right renamed_notMem_dropReport
  cases hname : n.nonEmptyName with
  | none => simp [categoryWalk, hname] at hwalk
  | some name =>
    cases hident : n.nonEmptyIdentifier with
    | none => simp [categoryWalk, hname, hident] at hwalk
    | some identifier =>
      have hident' : n.nonEmptyIdentifier ≠ none := Option.ne_none_iff_exists'.2 ⟨_, hident⟩
      rw [(categoryWalk_perm hname hident).mem_iff, List.mem_append, mem_renamed,
        List.mem_append] at hwalk
      rcases hwalk with hbelow | ⟨rfl, hown⟩
      · obtain ⟨c, hc, hr⟩ := List.mem_flatMap.1 hbelow
        obtain ⟨hv, hr⟩ := mem_groupWalk_of_mem_childReports hr
        exact located_of_mem_groupWalk (.subgroup hn hident' hc hv) hr
      · have huses : (shortcutsMade n).Uses r ∨ (subgroupsMade n).Uses r :=
          hown.imp uses_of_mem_renamings uses_of_mem_renamings
        have hkey := nameKey_of_named hname
        refine ⟨n, hn, hkey, huses, ?_⟩
        intro hne
        obtain ⟨slot, hslot, hbears, hshortcuts, hsubgroups⟩ :=
          exists_category hn hident' (hkey ▸ hne)
        rw [← hshortcuts, ← hsubgroups] at huses
        exact ⟨slot, hslot, hkey ▸ hbears, huses⟩

theorem located_of_mem_events {ns : List Node} {scope : Scope} {r : Renaming}
    (hr : .renamed scope r ∈ (ofNodes ns).events) : Located ns r scope := by
  rw [(events_ofNodes_perm ns).mem_iff, List.mem_append, mem_renamed] at hr
  rcases hr with hr | ⟨rfl, hr⟩
  · obtain ⟨n, hn, hr⟩ := List.mem_flatMap.1 hr
    exact located_of_mem_categoryEvents hn hr
  · show (ofNodes ns).categories.Uses r
    rw [ofNodes_categories]
    exact uses_of_mem_renamings hr

/-! ## Where warnings point -/

theorem quote_notMem_nameKey (n : Node) : '\'' ∉ (nameKey n).toList := by
  unfold nameKey
  cases n.nonEmptyName with
  | none => simp
  | some name =>
    intro hc
    exact absurd (plainKey_key name _ hc) (by decide)

theorem unquoted_of_located {ns : List Node} {scope : Scope} {r : Renaming}
    (h : Located ns r scope) : Unquoted scope r := by
  cases scope with
  | categories =>
    have huses : (ofNodes ns).categories.Uses r := h
    rw [ofNodes_categories] at huses
    have hkeys := huses.quote_notMem fun _ _ => freshlyMade_category
    simpa [Unquoted, Scope.quoted] using hkeys
  | category key =>
    obtain ⟨n, -, rfl, huses, -⟩ := h
    have hkeys : '\'' ∉ r.taken.toList ∧ '\'' ∉ r.stored.toList := by
      rcases huses with huses | huses
      · exact huses.quote_notMem fun _ _ hmade =>
          freshlyMade_shortcut (directShortcut_eq_some hmade)
      · exact huses.quote_notMem fun _ _ hmade => freshlyMade_group (directGroup_eq_some hmade)
    simpa [Unquoted, Scope.quoted, quote_notMem_nameKey n] using hkeys
  | group key =>
    obtain ⟨c, above, -, rfl, huses, -⟩ := h
    have hkeys := huses.quote_notMem fun _ _ => freshlyMade_entry
    simpa [Unquoted, Scope.quoted, quote_notMem_nameKey c] using hkeys

/-- **Every warning points to where both of its keys are**, unless it is about a container without
a key of its own or in one without. -/
theorem located_of_mem_warnings {ns : List Node} {scope : Scope} {r : Renaming}
    (h : scope.text ++ ": " ++ r.message ∈ (ofNodes ns).warnings) : Located ns r scope := by
  obtain ⟨event, hevent, hwarning⟩ := List.mem_filterMap.1 h
  cases event with
  | dropped a reason => exact nomatch hwarning
  | renamed scope' r' =>
    have hlocated := located_of_mem_events hevent
    obtain ⟨rfl, rfl⟩ := warning_inj (unquoted_of_located hlocated) (Option.some.inj hwarning).symm
    exact hlocated

/-- The second category is renamed, and so is the second group in it; the third group and the third
category have no key. -/
def warnedForest : List Node :=
  [{ name := some "Windows", identifier := some "a" },
   { name := some "Windows"
     identifier := some "b"
     children := some
      [{ name := some "Fill", hotkeyId := some 1 },
       { name := some "Fill", hotkeyId := some 2 },
       { name := some "Move", children := some [{ name := some "Left", hotkeyId := some 3 }] },
       { name := some "Move"
         children := some
          [{ name := some "Right", hotkeyId := some 4 },
           { name := some "Right", hotkeyId := some 5 }] },
       { name := some "***"
         children := some
          [{ name := some "Up", hotkeyId := some 6 },
           { name := some "Up", hotkeyId := some 7 }] }] },
   { name := some "***"
     identifier := some "c"
     children := some
      [{ name := some "Down", hotkeyId := some 8 },
       { name := some "Down", hotkeyId := some 9 }] }]

/-- What the warnings of `warnedForest` say. -/
def warnedPlaces : List (Scope × Renaming) :=
  [(.category "windows", ⟨"fill", "fill2"⟩), (.group "move", ⟨"right", "right5"⟩),
   (.category "windows", ⟨"move", "move2"⟩), (.group "", ⟨"up", "up7"⟩),
   (.categories, ⟨"windows", "windowsB"⟩), (.category "", ⟨"down", "down9"⟩)]

theorem warnings_warnedForest : (ofNodes warnedForest).warnings =
    warnedPlaces.map fun place => place.1.text ++ ": " ++ place.2.message := by
  decide +kernel

theorem located_warnedForest :
    (∀ place ∈ warnedPlaces,
      place.1.text ++ ": " ++ place.2.message ∈ (ofNodes warnedForest).warnings) ∧
      ∀ place ∈ warnedPlaces, Located warnedForest place.2 place.1 := by
  have hmem : ∀ place ∈ warnedPlaces,
      place.1.text ++ ": " ++ place.2.message ∈ (ofNodes warnedForest).warnings := by
    intro place hplace
    rw [warnings_warnedForest]
    exact List.mem_map.2 ⟨place, hplace, rfl⟩
  exact ⟨hmem, fun place hplace => located_of_mem_warnings (hmem place hplace)⟩

/-- Where both keys of a renaming are in use, if the key in the warning is taken for the one that
the container is stored under. -/
def LocatedByKey (ns : List Node) (r : Renaming) : Scope → Prop
  | .categories => (ofNodes ns).categories.Uses r
  | .category key => ∃ slot ∈ (ofNodes ns).categories, slot.1 = key ∧
      (slot.2.shortcuts.Uses r ∨ slot.2.subgroups.Uses r)
  | .group key => ∃ g, HasGroup (ofNodes ns).categories g ∧ g.key = key ∧ Uses g.entries r

/-- Neither under the key of a renamed container nor under that of a dropped one is there what the
warning is about. -/
theorem not_locatedByKey_warnedForest :
    (ofNodes warnedForest).warnings =
        warnedPlaces.map (fun place => place.1.text ++ ": " ++ place.2.message) ∧
      ∀ place ∈ warnedPlaces, place.1 ≠ .categories →
        ¬ LocatedByKey warnedForest place.2 place.1 := by
  have hcategory : ∀ place ∈ warnedPlaces, ∀ slot ∈ (ofNodes warnedForest).categories,
      place.1 = .category slot.1 →
        ¬ (slot.2.shortcuts.Uses place.2 ∨ slot.2.subgroups.Uses place.2) := by
    decide +kernel
  have hsubgroups : ∀ slot ∈ (ofNodes warnedForest).categories, ∀ slot' ∈ slot.2.subgroups,
      (∀ place ∈ warnedPlaces, place.1 = .group slot'.2.key → ¬ Uses slot'.2.entries place.2) ∧
        ∀ e ∈ slot'.2.entries, e.2.hotkeyId ≠ none := by
    decide +kernel
  have hgroup : ∀ g, HasGroup (ofNodes warnedForest).categories g →
      (∀ place ∈ warnedPlaces, place.1 = .group g.key → ¬ Uses g.entries place.2) ∧
        ∀ e ∈ g.entries, e.2.hotkeyId ≠ none := by
    intro g hg
    induction hg with
    | subgroup hc hg => exact hsubgroups _ hc _ hg
    -- there are only shortcuts in these groups
    | nested _ hg' ih => exact absurd rfl (ih.2 _ hg')
  refine ⟨warnings_warnedForest, ?_⟩
  rintro ⟨scope, r⟩ hplace hne
  cases scope with
  | categories => exact absurd rfl hne
  | category key =>
    rintro ⟨slot, hslot, rfl, huses⟩
    exact hcategory _ hplace slot hslot rfl huses
  | group key =>
    rintro ⟨g, hg, rfl, huses⟩
    exact (hgroup g hg).1 _ hplace rfl huses

end Build

end HotkeyTree
