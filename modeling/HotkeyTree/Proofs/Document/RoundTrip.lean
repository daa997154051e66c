import HotkeyTree.Program
import HotkeyTree.Proofs.Json.Record
import HotkeyTree.Proofs.Tree

/-!
# Proofs: a document is read back from the text that is written for it

Each record is read back from its members; what is left is how deep a document may nest. Only the
entries of groups are checked for it, and the limit on the levels of entries never comes into play
before the limit on open brackets does. So a document is read back exactly if its text nests at most
`Document.maxDepth` arrays and objects.
-/

namespace HotkeyTree

open Json

/-! ## Shortcuts -/

namespace Shortcut

theorem under_members (s : Shortcut) : Under fieldNames s.members := by
  have h := (under_member "id" (ofInt64 s.id)).append (under_member "name" (ofText s.name))
    |>.append (under_member "key" (ofText s.key))
    |>.append (under_present "defaultKey" ofText s.defaultKey)
    |>.append (under_present "defaultModifier" ofInt64 s.defaultModifier)
    |>.append (under_present "defaultCharKey" ofText s.defaultCharKey)
    |>.append (under_present "defaultEnabled" .bool s.defaultEnabled)
    |>.append (under_present "slowId" ofInt64 s.slowId)
    |>.append (under_present "sourceIdentifier" ofText s.sourceIdentifier)
    |>.append (under_present "dynamic" .bool s.dynamic)
  exact h

/-- Every field is found under its name among the members. -/
theorem lookup_members (s : Shortcut) :
    (texts s.members).lookup "id" = some (ofInt64 s.id) ∧
    (texts s.members).lookup "name" = some (ofText s.name) ∧
    (texts s.members).lookup "key" = some (ofText s.key) ∧
    (texts s.members).lookup "defaultKey" = s.defaultKey.map ofText ∧
    (texts s.members).lookup "defaultModifier" = s.defaultModifier.map ofInt64 ∧
    (texts s.members).lookup "defaultCharKey" = s.defaultCharKey.map ofText ∧
    (texts s.members).lookup "defaultEnabled" = s.defaultEnabled.map .bool ∧
    (texts s.members).lookup "slowId" = s.slowId.map ofInt64 ∧
    (texts s.members).lookup "sourceIdentifier" = s.sourceIdentifier.map ofText ∧
    (texts s.members).lookup "dynamic" = s.dynamic.map .bool := by
  simp only [members, texts_append, List.lookup_append, lookup_member, lookup_present]
  simp

/-- A shortcut is read back. -/
theorem ofJson?_toJson (s : Shortcut) : ofJson? s.toJson = some s := by
  obtain ⟨hid, hname, hkey, hdefaultKey, hmodifier, hcharKey, henabled, hslow, hident, hdynamic⟩ :=
    s.lookup_members
  have hfields := record?_object (by decide : fieldNames.Nodup) s.under_members
  have htext : ∀ s, ofText s ≠ .null := fun _ => nofun
  have hint : ∀ i, ofInt64 i ≠ .null := fun _ => nofun
  have hbool : ∀ b, Json.bool b ≠ .null := fun _ => nofun
  simp only [ofJson?, toJson, hfields, Option.bind_eq_bind, Option.bind_some,
    required_of_lookup hid, required_of_lookup hname, required_of_lookup hkey,
    optional_of_lookup hdefaultKey text?_ofText htext,
    optional_of_lookup hmodifier int64?_ofInt64 hint,
    optional_of_lookup hcharKey text?_ofText htext,
    optional_of_lookup henabled bool?_bool hbool,
    optional_of_lookup hslow int64?_ofInt64 hint,
    optional_of_lookup hident text?_ofText htext,
    optional_of_lookup hdynamic bool?_bool hbool, int64?_ofInt64, text?_ofText]

end Shortcut

/-! ## Groups and their entries -/

theorem Entry.slots_eq (es : List (String × Entry)) :
    Entry.slots es = es.map fun e => (some e.1, Entry.toJson e.2) := by
  induction es with
  | nil => rfl
  | cons e es ih =>
    obtain ⟨k, e⟩ := e
    rw [Entry.slots, Entry.slot, ih, List.map_cons]

namespace Group

theorem members_eq (g : Group) :
    g.members = member "name" (ofText g.name) ++ member "key" (ofText g.key)
      ++ member "sourceIdentifier" (ofText g.sourceIdentifier)
      ++ member "shortcuts" (.object (g.entries.map fun e => (some e.1, Entry.toJson e.2))) := by
  obtain ⟨name, key, ident, entries⟩ := g
  rw [members, Entry.slots_eq]

theorem under_members (g : Group) : Under fieldNames g.members := by
  rw [members_eq]
  have h := (under_member "name" (ofText g.name)).append (under_member "key" (ofText g.key))
    |>.append (under_member "sourceIdentifier" (ofText g.sourceIdentifier))
    |>.append (under_member "shortcuts"
      (.object (g.entries.map fun e => (some e.1, Entry.toJson e.2))))
  exact h

/-- A group is read back exactly if its entries are. -/
theorem ofJsonWith?_toJson {g : Group} (hg : Keyed.Distinct g.entries)
    {entryOf? : Json → Option Entry} (readable : Entry → Prop) [DecidablePred readable]
    (h : ∀ e ∈ g.entries, entryOf? (Entry.toJson e.2) = if readable e.2 then some e.2 else none) :
    ofJsonWith? entryOf? g.toJson =
      if ∀ e ∈ g.entries, readable e.2 then some g else none := by
  have hfields := record?_object (by decide : fieldNames.Nodup) g.under_members
  have hlookup : (texts g.members).lookup "name" = some (ofText g.name) ∧
      (texts g.members).lookup "key" = some (ofText g.key) ∧
      (texts g.members).lookup "sourceIdentifier" = some (ofText g.sourceIdentifier) ∧
      (texts g.members).lookup "shortcuts" =
        some (.object (g.entries.map fun e => (some e.1, Entry.toJson e.2))) := by
    simp only [members_eq, texts_append, List.lookup_append, lookup_member]
    simp
  obtain ⟨hname, hkey, hident, hentries⟩ := hlookup
  simp only [ofJsonWith?, toJson, hfields, Option.bind_eq_bind, Option.bind_some,
    required_of_lookup hname, required_of_lookup hkey,
    withDefault_of_lookup hident, required_of_lookup hentries, text?_ofText,
    mapping?_object hg readable h]
  split
  · cases g
    rfl
  · rfl

end Group

namespace Entry

theorem tagged?_kindMember {names : List String} {ms : List (Literal × Json)} (h : Under names ms)
    (hkind : kindField ∉ names) (kind : Kind) :
    tagged? (.object (kindMember kind ++ ms)) =
      some (ofText kind.text, .object (kindMember kind ++ ms)) := by
  have hnone : (texts ms).filter (fun m => [kindField].contains m.1) = [] := by
    rw [List.filter_eq_nil_iff]
    intro m hm heq
    have hname : m.1 = kindField := by simpa using heq
    exact hkind (hname ▸ h.sublist.subset (List.mem_map_of_mem hm))
  have hfields : record? [kindField] (.object (kindMember kind ++ ms)) =
      some [(kindField, ofText kind.text)] := by
    simp only [record?, kindMember, named?_member_append, named?_eq h.named, Option.map_some,
      Option.bind_eq_bind, Option.bind_some]
    rw [List.filter_cons_of_pos (by simp), hnone]
    simp
  simp only [tagged?, hfields, Option.bind_eq_bind, Option.bind_some]
  simp

theorem readWithin?_shortcut (inside : Bool) (levels : Nat) (s : Shortcut) :
    readWithin? inside (levels + 1) (toJson (.shortcut s)) = some (.shortcut s) := by
  have htagged := tagged?_kindMember s.under_members (by decide) .shortcut
  have hbody : Shortcut.ofJson? (.object (kindMember .shortcut ++ s.members)) = some s := by
    have hrecord : record? Shortcut.fieldNames (.object (kindMember .shortcut ++ s.members)) =
        record? Shortcut.fieldNames (.object s.members) := record?_member_append (by decide) _ _
    have hread := s.ofJson?_toJson
    rw [Shortcut.ofJson?, Shortcut.toJson, ← hrecord] at hread
    exact hread
  simp only [readWithin?, toJson, htagged, Option.bind_eq_bind, Option.bind_some, hbody]
  rfl

theorem readWithin?_group (inside : Bool) (levels : Nat) (g : Group) :
    readWithin? inside (levels + 1) (toJson (.group g)) =
      (Group.ofJsonWith? (readWithin? true levels) g.toJson).map .group := by
  have htagged := tagged?_kindMember g.under_members (by decide) .group
  have hbody : Group.ofJsonWith? (readWithin? true levels)
      (.object (kindMember .group ++ g.members)) =
        Group.ofJsonWith? (readWithin? true levels) g.toJson := by
    have hrecord : record? Group.fieldNames (.object (kindMember .group ++ g.members)) =
        record? Group.fieldNames (.object g.members) := record?_member_append (by decide) _ _
    simp only [Group.ofJsonWith?, Group.toJson, hrecord]
  simp only [readWithin?, toJson, htagged, Option.bind_eq_bind, Option.bind_some, hbody]
  rfl

theorem depth_kindMember_append (kind : Kind) (ms : List (Literal × Json)) :
    depth (.object (kindMember kind ++ ms)) = depth (.object ms) := by
  simp [kindMember, member, ofText, depth, depthOfMembers, depthOfMember]

theorem depth_shortcut (s : Shortcut) : (toJson (.shortcut s)).depth = s.toJson.depth := by
  rw [toJson, depth_kindMember_append, Shortcut.toJson]

theorem depth_group (g : Group) : (toJson (.group g)).depth = g.toJson.depth := by
  rw [toJson, depth_kindMember_append, Group.toJson]

theorem one_le_depth (e : Entry) : 1 ≤ (toJson e).depth := by
  cases e <;> simp [toJson, depth]

end Entry

/-- How deep a group nests is decided by its entries. -/
theorem Group.depth_le {g : Group} {n : Nat} :
    g.toJson.depth ≤ n + 2 ↔ ∀ e ∈ g.entries, (Entry.toJson e.2).depth ≤ n := by
  simp only [toJson, members_eq, depth_object_le, values_append, values_member, values_map,
    depth_ofText]
  simp

theorem Group.two_le_depth (g : Group) : 2 ≤ g.toJson.depth := by
  have hnot : ¬ g.toJson.depth ≤ 0 + 1 := by
    intro hle
    rw [toJson, members_eq, depth_object_le, values_append] at hle
    have hentries := values_member.1 hle.2
    simp [depth] at hentries
  omega

theorem Shortcut.depth_toJson (s : Shortcut) : s.toJson.depth ≤ 1 := by
  have hbool : ∀ b, (Json.bool b).depth = 0 := fun _ => rfl
  simp only [toJson, members, depth_object_le, values_append, values_member, values_present,
    depth_ofText, depth_ofInt64, hbool]
  simp

/-! ## Whole documents -/

/-- In no mapping of a document a key is used twice. -/
def Document.Proper (d : Document) : Prop :=
  ∀ l, HasMapping d.categories l → (l.map Label.stored).Nodup

section Proper

variable {m : Keyed Category}

/-- The levels of entries suffice for every entry that does not nest deeper than they do. -/
theorem Entry.readWithin?_toJson (hm : ∀ g, HasGroup m g → Keyed.Distinct g.entries) (e : Entry) :
    (∀ g, e = .group g → HasGroup m g) → ∀ inside levels, (toJson e).depth ≤ levels →
      readWithin? inside levels (toJson e) = some e := by
  induction e using Entry.induction with
  | shortcut s =>
    intro _ inside levels hdepth
    have hpos := one_le_depth (.shortcut s)
    obtain ⟨levels, rfl⟩ := Nat.exists_eq_succ_of_ne_zero (n := levels) (by omega)
    exact readWithin?_shortcut inside levels s
  | group g ih =>
    intro hgroup inside levels hdepth
    have hg := hgroup g rfl
    have hpos := one_le_depth (.group g)
    obtain ⟨levels, rfl⟩ := Nat.exists_eq_succ_of_ne_zero (n := levels) (by omega)
    -- a group uses up two brackets but one level, so its entries have levels to spare
    have hle : g.toJson.depth ≤ levels + 2 := by
      rw [depth_group] at hdepth
      omega
    rw [Group.depth_le] at hle
    have hentries : ∀ e ∈ g.entries, readWithin? true levels (toJson e.2) =
        if True then some e.2 else none := by
      rintro ⟨k, e⟩ he
      rw [if_pos trivial]
      refine ih (k, e) he (fun g' hg' => ?_) true levels (hle (k, e) he)
      obtain rfl : e = .group g' := hg'
      exact .nested hg he
    rw [readWithin?_group, Group.ofJsonWith?_toJson (hm g hg) (fun _ => True) hentries]
    simp

end Proper

/-! Documents hold only texts, truth values and integers of 64 bits. -/

theorem plain_bool (b : Bool) : (Json.bool b).Plain := .bool b

theorem Shortcut.values_plain (s : Shortcut) : Values Plain s.members := by
  simp only [members, values_append, values_member, values_present]
  simp [Plain.ofText, Plain.ofInt64, plain_bool]

theorem Group.values_plain {g : Group} (h : ∀ e ∈ g.entries, (Entry.toJson e.2).Plain) :
    Values Plain g.members := by
  have hentries := Plain.object (under_map Entry.toJson g.entries) (values_map.2 h)
  simp only [members_eq, values_append, values_member]
  simp [Plain.ofText, hentries]

theorem Entry.plain (e : Entry) : (toJson e).Plain := by
  have hkind : ∀ kind, Values Plain (kindMember kind) := fun kind =>
    values_member.2 (Plain.ofText kind.text)
  induction e using Entry.induction with
  | shortcut s =>
    exact Plain.object ((under_member kindField _).append s.under_members)
      (values_append.2 ⟨hkind .shortcut, s.values_plain⟩)
  | group g ih =>
    exact Plain.object ((under_member kindField _).append g.under_members)
      (values_append.2 ⟨hkind .group, Group.values_plain ih⟩)

theorem Group.plain (g : Group) : g.toJson.Plain :=
  Plain.object g.under_members (Group.values_plain fun e _ => e.2.plain)

theorem Shortcut.plain (s : Shortcut) : s.toJson.Plain :=
  Plain.object s.under_members s.values_plain

/-! ## Categories and documents -/

namespace Category

theorem under_nonEmptyMember {α : Type} (name : String) (write : α → Json) (m : Keyed α) :
    Under [name] (Keyed.nonEmptyMember name write m) := by
  unfold Keyed.nonEmptyMember
  split
  · exact ⟨by simp, List.nil_sublist _⟩
  · exact under_member name _

theorem lookup_nonEmptyMember {α : Type} (name name' : String) (write : α → Json) (m : Keyed α) :
    (texts (Keyed.nonEmptyMember name' write m)).lookup name =
      if name = name' ∧ m ≠ [] then some (m.toJson write) else none := by
  unfold Keyed.nonEmptyMember
  cases m with
  | nil => simp [texts]
  | cons e m =>
    rw [if_neg (by simp), lookup_member]
    simp

/-- A mapping that was left out because it is empty is read as an empty one. -/
theorem withDefault_nonEmpty {α : Type} {fields : List (String × Json)} {name : String}
    {write : α → Json} {m : Keyed α} (h : fields.lookup name = if m ≠ [] then some (m.toJson write)
      else none) (read : Json → Option α) :
    withDefault fields name [] (mapping? read) = mapping? read (m.toJson write) := by
  cases m with
  | nil =>
    have hempty : mapping? read (Keyed.toJson write []) = some [] := rfl
    simp [withDefault, h, hempty]
  | cons e m => simp [withDefault, h]

theorem depth_nonEmptyMember_le {α : Type} {name : String} {write : α → Json} {m : Keyed α}
    {n : Nat} :
    Values (fun v => v.depth ≤ n + 1) (Keyed.nonEmptyMember name write m) ↔
      ∀ e ∈ m, (write e.2).depth ≤ n := by
  cases m with
  | nil => simp [Keyed.nonEmptyMember, Values]
  | cons e m =>
    rw [Keyed.nonEmptyMember, if_neg (by simp), values_member, Keyed.toJson, depth_object_le,
      values_map]

/-- The fields of a category as members. -/
def members (c : Category) : List (Literal × Json) :=
  member "name" (ofText c.name) ++ member "key" (ofText c.key)
    ++ member "sourceIdentifier" (ofText c.sourceIdentifier)
    ++ Keyed.nonEmptyMember "shortcuts" Shortcut.toJson c.shortcuts
    ++ Keyed.nonEmptyMember "subgroups" Group.toJson c.subgroups

theorem toJson_eq (c : Category) : c.toJson = .object c.members := rfl

theorem under_members (c : Category) : Under fieldNames c.members := by
  have h := (under_member "name" (ofText c.name)).append (under_member "key" (ofText c.key))
    |>.append (under_member "sourceIdentifier" (ofText c.sourceIdentifier))
    |>.append (under_nonEmptyMember "shortcuts" Shortcut.toJson c.shortcuts)
    |>.append (under_nonEmptyMember "subgroups" Group.toJson c.subgroups)
  exact h

/-- A category is read back exactly if its groups are. -/
theorem ofJson?_toJson {c : Category} (hshortcuts : c.shortcuts.Distinct)
    (hsubgroups : c.subgroups.Distinct) (readable : Group → Prop) [DecidablePred readable]
    (h : ∀ e ∈ c.subgroups, Group.ofJsonWith? Document.entryOf? e.2.toJson =
      if readable e.2 then some e.2 else none) :
    ofJson? c.toJson = if ∀ e ∈ c.subgroups, readable e.2 then some c else none := by
  have hfields := record?_object (by decide : fieldNames.Nodup) c.under_members
  have hlookup : (texts c.members).lookup "name" = some (ofText c.name) ∧
      (texts c.members).lookup "key" = some (ofText c.key) ∧
      (texts c.members).lookup "sourceIdentifier" = some (ofText c.sourceIdentifier) ∧
      (texts c.members).lookup "shortcuts" =
        (if c.shortcuts ≠ [] then some (c.shortcuts.toJson Shortcut.toJson) else none) ∧
      (texts c.members).lookup "subgroups" =
        (if c.subgroups ≠ [] then some (c.subgroups.toJson Group.toJson) else none) := by
    simp only [members, texts_append, List.lookup_append, lookup_member, lookup_nonEmptyMember]
    simp
  obtain ⟨hname, hkey, hident, hshort, hsub⟩ := hlookup
  have hreadShort : mapping? Shortcut.ofJson? (c.shortcuts.toJson Shortcut.toJson) =
      some c.shortcuts := mapping?_of_forall hshortcuts fun e _ => e.2.ofJson?_toJson
  have hreadSub : mapping? (Group.ofJsonWith? Document.entryOf?) (c.subgroups.toJson Group.toJson) =
      if ∀ e ∈ c.subgroups, readable e.2 then some c.subgroups else none :=
    mapping?_object hsubgroups readable h
  simp only [toJson_eq, ofJson?, hfields, Option.bind_eq_bind, Option.bind_some,
    required_of_lookup hname, required_of_lookup hkey, required_of_lookup hident, text?_ofText,
    withDefault_nonEmpty hshort, withDefault_nonEmpty hsub, hreadShort, hreadSub]
  split <;> rfl

theorem depth_le {c : Category} {n : Nat} :
    c.toJson.depth ≤ n + 4 ↔ ∀ e ∈ c.subgroups, e.2.toJson.depth ≤ n + 2 := by
  have hshortcuts : ∀ e ∈ c.shortcuts, e.2.toJson.depth ≤ n + 2 := fun e _ =>
    Nat.le_trans e.2.depth_toJson (by omega)
  simp only [toJson_eq, members, depth_object_le, values_append, values_member, depth_ofText,
    depth_nonEmptyMember_le]
  simpa using fun _ => hshortcuts

theorem values_nonEmptyMember {α : Type} (name : String) {write : α → Json} {m : Keyed α}
    (h : ∀ e ∈ m, (write e.2).Plain) : Values Plain (Keyed.nonEmptyMember name write m) := by
  unfold Keyed.nonEmptyMember
  split
  · simp [Values]
  · exact values_member.2 (Plain.object (under_map write m) (values_map.2 h))

theorem plain (c : Category) : c.toJson.Plain := by
  have hshortcuts := values_nonEmptyMember "shortcuts" fun e (_ : e ∈ c.shortcuts) => e.2.plain
  have hsubgroups := values_nonEmptyMember "subgroups" fun e (_ : e ∈ c.subgroups) => e.2.plain
  have htexts := Plain.ofText
  refine Plain.object c.under_members ?_
  simp only [values_append, values_member]
  simp [htexts, hshortcuts, hsubgroups]

end Category

namespace Document

/-- The fields of a document as members. -/
def members (d : Document) : List (Literal × Json) :=
  member "version" (ofText d.version) ++ member "generatedFrom" (ofText d.generatedFrom)
    ++ member "note" (ofText d.note)
    ++ member "categories" (Keyed.toJson Category.toJson d.categories)

theorem toJson_eq (d : Document) : d.toJson = .object d.members := rfl

theorem under_members (d : Document) : Under fieldNames d.members := by
  have h := (under_member "version" (ofText d.version))
    |>.append (under_member "generatedFrom" (ofText d.generatedFrom))
    |>.append (under_member "note" (ofText d.note))
    |>.append (under_member "categories" (Keyed.toJson Category.toJson d.categories))
  exact h

/-- A document is read back exactly if its categories are. -/
theorem ofJson?_toJson {d : Document} (hd : d.categories.Distinct) (readable : Category → Prop)
    [DecidablePred readable] (h : ∀ e ∈ d.categories, Category.ofJson? e.2.toJson =
      if readable e.2 then some e.2 else none) :
    ofJson? d.toJson = if ∀ e ∈ d.categories, readable e.2 then some d else none := by
  have hfields := record?_object (by decide : fieldNames.Nodup) d.under_members
  have hlookup : (texts d.members).lookup "version" = some (ofText d.version) ∧
      (texts d.members).lookup "generatedFrom" = some (ofText d.generatedFrom) ∧
      (texts d.members).lookup "note" = some (ofText d.note) ∧
      (texts d.members).lookup "categories" =
        some (Keyed.toJson Category.toJson d.categories) := by
    simp only [members, texts_append, List.lookup_append, lookup_member]
    simp
  obtain ⟨hversion, hfrom, hnote, hcategories⟩ := hlookup
  have hread : mapping? Category.ofJson? (Keyed.toJson Category.toJson d.categories) =
      if ∀ e ∈ d.categories, readable e.2 then some d.categories else none :=
    mapping?_object hd readable h
  simp only [toJson_eq, ofJson?, hfields, Option.bind_eq_bind, Option.bind_some,
    required_of_lookup hversion, required_of_lookup hfrom, required_of_lookup hnote,
    required_of_lookup hcategories, text?_ofText, hread]
  split <;> rfl

theorem depth_le {d : Document} {n : Nat} :
    d.toJson.depth ≤ n + 2 ↔ ∀ e ∈ d.categories, e.2.toJson.depth ≤ n := by
  simp only [toJson_eq, members, depth_object_le, values_append, values_member, depth_ofText,
    Keyed.toJson, values_map]
  simp

theorem plain (d : Document) : d.toJson.Plain := by
  have hcategories := Plain.object (under_map Category.toJson d.categories)
    (values_map.2 fun e _ => e.2.plain)
  refine Plain.object d.under_members ?_
  simp only [values_append, values_member]
  simp [Plain.ofText, Keyed.toJson, hcategories]

/-! ## The depth of what can be read -/

/-- An entry is read exactly if it fits into the depth that is left for it. -/
theorem entryOf?_toJson {m : Keyed Category} (hm : ∀ g, HasGroup m g → Keyed.Distinct g.entries)
    {e : Entry} (he : ∀ g, e = .group g → HasGroup m g) :
    entryOf? e.toJson = if e.toJson.depth ≤ 121 then some e else none := by
  -- 121 brackets are left below the 6 around an entry
  have hstrict : e.toJson.isStrict (maxDepth - depthOfEntries) = decide (e.toJson.depth ≤ 121) :=
    Plain.strictByDepth e.plain _
  rw [entryOf?, hstrict]
  by_cases hdepth : e.toJson.depth ≤ 121
  · have hread := Entry.readWithin?_toJson hm e he false maxDepth (Nat.le_trans hdepth (by decide))
    rw [if_pos (decide_eq_true hdepth), if_pos hdepth, hread]
  · rw [if_neg (by simpa using hdepth), if_neg hdepth]

theorem group?_toJson {m : Keyed Category} (hm : ∀ g, HasGroup m g → Keyed.Distinct g.entries)
    {g : Group} (hg : HasGroup m g) :
    Group.ofJsonWith? entryOf? g.toJson = if g.toJson.depth ≤ 123 then some g else none := by
  have hentries : ∀ e ∈ g.entries, entryOf? (Entry.toJson e.2) =
      if (Entry.toJson e.2).depth ≤ 121 then some e.2 else none := by
    rintro ⟨k, e⟩ he
    refine entryOf?_toJson hm fun g' hg' => ?_
    obtain rfl : e = .group g' := hg'
    exact .nested hg he
  rw [Group.ofJsonWith?_toJson (hm g hg) (fun e => (Entry.toJson e).depth ≤ 121) hentries]
  exact if_congr Group.depth_le.symm rfl rfl

variable {d : Document}

theorem Proper.categories (hd : d.Proper) : d.categories.Distinct := by
  have h := hd _ .categories
  rwa [Keyed.map_stored_labels] at h

theorem Proper.shortcuts (hd : d.Proper) {k : String} {c : Category} (hc : (k, c) ∈ d.categories) :
    c.shortcuts.Distinct := by
  have h := hd _ (.shortcuts hc)
  rwa [Keyed.map_stored_labels] at h

theorem Proper.subgroups (hd : d.Proper) {k : String} {c : Category} (hc : (k, c) ∈ d.categories) :
    c.subgroups.Distinct := by
  have h := hd _ (.subgroups hc)
  rwa [Keyed.map_stored_labels] at h

theorem Proper.entries (hd : d.Proper) (g : Group) (hg : HasGroup d.categories g) :
    Keyed.Distinct g.entries := by
  have h := hd _ (.entries hg)
  rwa [Keyed.map_stored_labels] at h

/-- A document is read back from its value exactly if the value does not nest too deep. -/
theorem ofJson?_toJson_eq (hd : d.Proper) :
    ofJson? d.toJson = if d.toJson.depth ≤ maxDepth then some d else none := by
  have hcategories : ∀ e ∈ d.categories, Category.ofJson? e.2.toJson =
      if e.2.toJson.depth ≤ 125 then some e.2 else none := by
    rintro ⟨k, c⟩ hc
    -- two brackets go to the document, two to the category
    have hgroups : ∀ e ∈ c.subgroups, Group.ofJsonWith? entryOf? e.2.toJson =
        if e.2.toJson.depth ≤ 123 then some e.2 else none := by
      rintro ⟨k', g⟩ hg
      exact group?_toJson hd.entries (.subgroup hc hg)
    rw [Category.ofJson?_toJson (hd.shortcuts hc) (hd.subgroups hc)
      (fun g => g.toJson.depth ≤ 123) hgroups]
    exact if_congr Category.depth_le.symm rfl rfl
  rw [ofJson?_toJson hd.categories (fun c => c.toJson.depth ≤ 125) hcategories]
  exact if_congr depth_le.symm rfl rfl

theorem nesting_write_append (d : Document) {blanks : String}
    (hblanks : ∀ c ∈ blanks.toList, isBlank c) :
    Json.nesting (d.write ++ blanks) = d.toJson.depth :=
  nesting_pretty d.plain.wellFormed hblanks

theorem nesting_write (d : Document) : Json.nesting d.write = d.toJson.depth := by
  have h := nesting_write_append d (String.toList_empty ▸ List.forall_mem_nil _)
  rwa [String.append_empty] at h

theorem nesting_documentText (d : Document) :
    Json.nesting (Program.documentText d) = d.toJson.depth :=
  nesting_write_append d (by simp [isBlank])

theorem read?_write_append (hd : d.Proper) {blanks : String}
    (hblanks : ∀ c ∈ blanks.toList, isBlank c) :
    read? (d.write ++ blanks) = if d.toJson.depth ≤ maxDepth then some d else none := by
  rw [read?, write, parse?_pretty d.plain.wellFormed hblanks, Option.bind_some]
  exact ofJson?_toJson_eq hd

/-- **A document is read back from its text exactly if the text does not nest too deep**, with and
without the line feed that ends it in a file. -/
theorem read?_write (hd : d.Proper) :
    read? d.write = (if Json.nesting d.write ≤ maxDepth then some d else none) ∧
    read? (Program.documentText d) =
      (if Json.nesting (Program.documentText d) ≤ maxDepth then some d else none) := by
  rw [nesting_write, nesting_documentText]
  constructor
  · have hbare := read?_write_append hd (String.toList_empty ▸ List.forall_mem_nil _)
    rwa [String.append_empty] at hbare
  · exact read?_write_append hd (by simp [isBlank])

/-! A document with characters that are escaped, the smallest id, keys that are not those of the
entries, an empty mapping and a group in a group is read back. -/

/-- A group without entries. -/
def sampleInner : Group where
  name := "\x01\n"
  key := "\x22"
  sourceIdentifier := ""
  entries := []

/-- A group that holds a shortcut and the one without entries. -/
def sampleOuter : Group where
  name := "a\x5cb"
  key := ""
  sourceIdentifier := "\t"
  entries :=
    [("z", .shortcut
        { id := Int64.minValue, name := "", key := "é", defaultEnabled := some false }),
     ("", .group sampleInner)]

/-- A document of two categories, one of them empty. -/
def sample : Document where
  version := "\x22"
  generatedFrom := "\x5c"
  note := "\x1f"
  categories :=
    [("b", { name := "B", key := "x", sourceIdentifier := "i", subgroups := [("g", sampleOuter)] }),
     ("a", { name := "A", key := "x", sourceIdentifier := "" })]

theorem hasGroup_sample {g : Group} (hg : HasGroup sample.categories g) :
    g = sampleOuter ∨ g = sampleInner := by
  induction hg with
  | subgroup hc hg =>
    simp only [sample, List.mem_cons, Prod.mk.injEq, List.not_mem_nil, or_false] at hc
    rcases hc with ⟨-, rfl⟩ | ⟨-, rfl⟩
    · simp at hg
      exact Or.inl hg.2
    · simp at hg
  | nested _ hg ih =>
    rcases ih with rfl | rfl
    · simp [sampleOuter] at hg
      exact Or.inr hg.2
    · simp [sampleInner] at hg

theorem sample_proper : sample.Proper := by
  intro l hl
  cases hl with
  | categories => decide
  | shortcuts hc =>
    simp only [sample, List.mem_cons, Prod.mk.injEq, List.not_mem_nil, or_false] at hc
    rcases hc with ⟨-, rfl⟩ | ⟨-, rfl⟩ <;> decide
  | subgroups hc =>
    simp only [sample, List.mem_cons, Prod.mk.injEq, List.not_mem_nil, or_false] at hc
    rcases hc with ⟨-, rfl⟩ | ⟨-, rfl⟩ <;> decide
  | entries hg =>
    rcases hasGroup_sample hg with rfl | rfl <;> decide

theorem read?_write_sample : sample.Proper ∧ read? sample.write = some sample ∧
    read? (Program.documentText sample) = some sample := by
  have hdepth : sample.toJson.depth ≤ maxDepth := by decide
  obtain ⟨hbare, hfile⟩ := read?_write sample_proper
  rw [nesting_write, if_pos hdepth] at hbare
  rw [nesting_documentText, if_pos hdepth] at hfile
  exact ⟨sample_proper, hbare, hfile⟩

end Document

end HotkeyTree
