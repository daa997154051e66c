import HotkeyTree.Document.Json
import HotkeyTree.Proofs.Json.Record
import HotkeyTree.Proofs.Keyed
import Mathlib.Data.List.Forall2

/-!
# Proofs: what a document is read from

Backwards, reading is a relation between a value and what is read of it. `ReadFrom` says it for each
kind of record without the bound on the levels of entries that reading carries along: which fields
are there, and how the members of an object make up a mapping.
-/

namespace HotkeyTree

open Json

/-! ## Members that make up a mapping -/

/-- The last of the members with a name has this value. -/
def Json.LastOf (members : List (Literal × Json)) (name : String) (v : Json) : Prop :=
  ∃ before after, members = before ++ (some name, v) :: after ∧ some name ∉ after.map Prod.fst

/-- How members make up a mapping. -/
structure Keyed.Collects {α : Type} (R : Json → α → Prop) (members : List (Literal × Json))
    (m : Keyed α) : Prop where
  /-- Every name is a key once, in the order in which the names stand first. -/
  first : m.keys.map some = (members.map Prod.fst).eraseDups
  /-- Under a key is what is made of the last member with that name. -/
  last : ∀ {k v a}, LastOf members k v → (k, a) ∈ m → R v a

namespace Keyed

variable {α : Type}

namespace Collects

variable {R : Json → α → Prop} {members : List (Literal × Json)} {m : Keyed α}

theorem mono {S : Json → α → Prop} (h : Collects R members m) (hRS : ∀ v a, R v a → S v a) :
    Collects S members m := by
  exact ⟨h.first, fun hv ha => hRS _ _ (h.last hv ha)⟩

theorem distinct (h : Collects R members m) : m.Distinct := by
  have hnodup : (m.keys.map some).Nodup := h.first ▸ nodup_eraseDups _
  exact hnodup.of_map

/-- Every slot comes from a member. -/
theorem exists_of_mem (h : Collects R members m) {k : String} {a : α} (ha : (k, a) ∈ m) :
    ∃ v, (some k, v) ∈ members ∧ R v a := by
  have hk : some k ∈ (members.map Prod.fst).reverse := by
    rw [List.mem_reverse, ← List.mem_eraseDups, ← h.first]
    exact List.mem_map_of_mem (List.mem_map_of_mem ha)
  -- the first of the names backwards is the last of them
  obtain ⟨after, before, hsplit, hnot⟩ := List.eq_append_cons_of_mem hk
  have hnames : members.map Prod.fst = before.reverse ++ some k :: after.reverse := by
    rw [← List.reverse_reverse (members.map Prod.fst), hsplit]
    simp
  obtain ⟨ms, ms', rfl, -, hrest⟩ := List.map_eq_append_iff.1 hnames
  obtain ⟨⟨k', v⟩, ms', rfl, rfl, hafter⟩ := List.map_eq_cons_iff.1 hrest
  have hlast : some k ∉ ms'.map Prod.fst := by
    rw [hafter]
    simpa using hnot
  exact ⟨v, by simp, h.last ⟨ms, ms', rfl, hlast⟩ ha⟩

end Collects

end Keyed

/-! ## Mappings -/

namespace Json

theorem mapM_eq_some {α β : Type} {f : α → Option β} {as : List α} {bs : List β}
    (h : as.mapM f = some bs) : List.Forall₂ (fun a b => f a = some b) as bs := by
  induction as generalizing bs with
  | nil =>
    obtain rfl : bs = [] := by simpa using h.symm
    exact .nil
  | cons a as ih =>
    simp only [List.mapM_cons, Option.bind_eq_bind, Option.bind_eq_some_iff, Option.pure_def,
      Option.some.injEq] at h
    obtain ⟨b, hb, bs, hbs, rfl⟩ := h
    exact .cons hb (ih hbs)

theorem named?_eq_some {members : List (Literal × Json)} {fields : List (String × Json)}
    (h : named? members = some fields) : members = fields.map fun m => (some m.1, m.2) := by
  have hall := mapM_eq_some h
  clear h
  induction hall with
  | nil => rfl
  | @cons m m' _ _ hm _ ih =>
    obtain ⟨k, v⟩ := m
    obtain ⟨name, hname, rfl⟩ := Option.map_eq_some_iff.1 hm
    obtain rfl : k = some name := hname
    rw [List.map_cons, ih]

variable {α : Type}

/-- A mapping is made of what is read of the members, one after the other. -/
theorem mapping?_eq_some {read : Json → Option α} {v : Json} {m : Keyed α}
    (h : mapping? read v = some m) :
    ∃ members ps, v = .object members ∧ m = Keyed.ofPairs ps ∧
      List.Forall₂ (fun m p => m.1 = some p.1 ∧ read m.2 = some p.2) members ps := by
  cases v with
  | object members =>
    simp only [mapping?, Option.bind_eq_bind, Option.bind_eq_some_iff, Option.some.injEq] at h
    obtain ⟨fields, hfields, ps, hps, rfl⟩ := h
    obtain rfl := named?_eq_some hfields
    refine ⟨_, ps, rfl, rfl, ?_⟩
    rw [List.forall₂_map_left_iff]
    refine (mapM_eq_some hps).imp fun m p hp => ?_
    obtain ⟨a, ha, rfl⟩ := Option.map_eq_some_iff.1 hp
    exact ⟨rfl, ha⟩
  | _ => simp [mapping?] at h

theorem exists_of_forall₂_append {β γ : Type} {R : β → γ → Prop} {bs bs' : List β} {cs : List γ}
    (h : List.Forall₂ R (bs ++ bs') cs) :
    ∃ cs₁ cs₂, List.Forall₂ R bs cs₁ ∧ List.Forall₂ R bs' cs₂ ∧ cs = cs₁ ++ cs₂ := by
  induction bs generalizing cs with
  | nil => exact ⟨[], cs, .nil, h, rfl⟩
  | cons b bs ih =>
    obtain ⟨c, cs, hc, hcs, rfl⟩ := List.forall₂_cons_left_iff.1 h
    obtain ⟨cs₁, cs₂, h₁, h₂, rfl⟩ := ih hcs
    exact ⟨c :: cs₁, cs₂, .cons hc h₁, h₂, rfl⟩

theorem collects_of_mapping? {read : Json → Option α} {v : Json} {m : Keyed α}
    (h : mapping? read v = some m) :
    ∃ members, v = .object members ∧
      Keyed.Collects (fun v a => read v = some a) members m := by
  obtain ⟨members, ps, rfl, rfl, hall⟩ := mapping?_eq_some h
  have hnames : ∀ {ms : List (Literal × Json)} {ps : List (String × α)},
      List.Forall₂ (fun m p => m.1 = some p.1 ∧ read m.2 = some p.2) ms ps →
        ms.map Prod.fst = ps.map fun p => some p.1 := by
    intro ms ps hall
    induction hall with
    | nil => rfl
    | cons hm _ ih => rw [List.map_cons, List.map_cons, ih, hm.1]
  refine ⟨members, rfl, ?_, ?_⟩
  · rw [Keyed.keys_ofPairs, hnames hall]
  · rintro k v a ⟨before, after, rfl, hk⟩ ha
    obtain ⟨ps, ps', -, hrest, rfl⟩ := exists_of_forall₂_append hall
    obtain ⟨⟨k', a'⟩, ps', ⟨hkey, hread⟩, hafter, rfl⟩ := List.forall₂_cons_left_iff.1 hrest
    obtain rfl : k = k' := Option.some.inj hkey
    have hlast : k ∉ ps'.map Prod.fst := by
      rw [hnames hafter] at hk
      simpa using hk
    rw [Keyed.eq_of_mem_ofPairs hlast ha]
    exact hread

end Json

/-! ## Records -/

/-- The fields of a group, its entries as the members of an object. -/
structure Group.HeadFrom (fields : List (String × Json)) (members : List (Literal × Json))
    (g : Group) : Prop where
  name : required fields "name" text? = some g.name
  key : required fields "key" text? = some g.key
  sourceIdentifier : withDefault fields "sourceIdentifier" "" text? = some g.sourceIdentifier
  entries : fields.lookup "shortcuts" = some (.object members)

/-- What a group is read from, given what its entries are read from. -/
def Group.ReadWith (R : Json → Entry → Prop) (v : Json) (g : Group) : Prop :=
  ∃ fields members, record? fieldNames v = some fields ∧ g.HeadFrom fields members ∧
    Keyed.Collects R members g.entries

/-- What an entry is read from. -/
inductive Entry.ReadFrom : Json → Entry → Prop where
  | shortcut {inside : Bool} {v kind body : Json} {s : Shortcut}
      (hv : tagged? v = some (kind, body)) (hkind : Kind.ofJson? inside kind = some .shortcut)
      (hs : Shortcut.ofJson? body = some s) : ReadFrom v (.shortcut s)
  -- the entries of the group as in `Keyed.Collects`, in which the relation cannot nest
  | group {inside : Bool} {v kind body : Json} {fields : List (String × Json)}
      {members : List (Literal × Json)} {g : Group} (hv : tagged? v = some (kind, body))
      (hkind : Kind.ofJson? inside kind = some .group)
      (hfields : record? Group.fieldNames body = some fields) (hg : g.HeadFrom fields members)
      (first : (Keyed.keys g.entries).map some = (members.map Prod.fst).eraseDups)
      (last : ∀ {k w e}, LastOf members k w → (k, e) ∈ g.entries → ReadFrom w e) :
      ReadFrom v (.group g)

/-- What a group that is directly in a category is read from. An entry of it has to be readable in
full. -/
def Group.ReadFrom : Json → Group → Prop :=
  Group.ReadWith fun v e =>
    v.isStrict (Document.maxDepth - Document.depthOfEntries) ∧ Entry.ReadFrom v e

/-- How a field makes up a mapping; if it is missing, the mapping is empty. -/
def Keyed.CollectsField {α : Type} (R : Json → α → Prop) (field : Option Json) (m : Keyed α) :
    Prop :=
  ∃ members, field.getD (.object []) = .object members ∧ Keyed.Collects R members m

/-- What a category is read from. -/
inductive Category.ReadFrom : Json → Category → Prop where
  | intro {v : Json} {fields : List (String × Json)} {c : Category}
      (hfields : record? fieldNames v = some fields)
      (hname : required fields "name" text? = some c.name)
      (hkey : required fields "key" text? = some c.key)
      (hident : required fields "sourceIdentifier" text? = some c.sourceIdentifier)
      (hshortcuts : Keyed.CollectsField (fun v s => Shortcut.ofJson? v = some s)
        (fields.lookup "shortcuts") c.shortcuts)
      (hsubgroups : Keyed.CollectsField Group.ReadFrom (fields.lookup "subgroups") c.subgroups) :
      ReadFrom v c

/-- What a document is read from. -/
inductive Document.ReadFrom : Json → Document → Prop where
  | intro {v : Json} {fields : List (String × Json)} {members : List (Literal × Json)}
      {d : Document} (hfields : record? fieldNames v = some fields)
      (hversion : required fields "version" text? = some d.version)
      (hfrom : required fields "generatedFrom" text? = some d.generatedFrom)
      (hnote : required fields "note" text? = some d.note)
      (hcategories : fields.lookup "categories" = some (.object members))
      (h : Keyed.Collects Category.ReadFrom members d.categories) : ReadFrom v d

theorem Json.collects_of_required {α : Type} {fields : List (String × Json)} {name : String}
    {read : Json → Option α} {m : Keyed α}
    (h : required fields name (mapping? read) = some m) :
    ∃ members, fields.lookup name = some (.object members) ∧
      Keyed.Collects (fun v a => read v = some a) members m := by
  obtain ⟨v, hv, hm⟩ := Option.bind_eq_some_iff.1 h
  obtain ⟨members, rfl, hcollects⟩ := collects_of_mapping? hm
  exact ⟨members, hv, hcollects⟩

theorem Json.collectsField_of_withDefault {α : Type} {fields : List (String × Json)}
    {name : String} {read : Json → Option α} {m : Keyed α}
    (h : withDefault fields name [] (mapping? read) = some m) :
    Keyed.CollectsField (fun v a => read v = some a) (fields.lookup name) m := by
  rw [withDefault] at h
  split at h
  case h_1 v hv =>
    obtain ⟨members, rfl, hcollects⟩ := collects_of_mapping? h
    exact ⟨members, by rw [hv, Option.getD_some], hcollects⟩
  case h_2 hnone =>
    obtain rfl : m = [] := (Option.some.inj h).symm
    exact ⟨[], by rw [hnone, Option.getD_none], rfl, fun _ ha => absurd ha List.not_mem_nil⟩

theorem Keyed.CollectsField.mono {α : Type} {R S : Json → α → Prop} {field : Option Json}
    {m : Keyed α} (h : Keyed.CollectsField R field m) (hRS : ∀ v a, R v a → S v a) :
    Keyed.CollectsField S field m := by
  obtain ⟨members, hmembers, hcollects⟩ := h
  exact ⟨members, hmembers, hcollects.mono hRS⟩

/-! ## Reading is that relation -/

theorem Group.readWith_of_ofJsonWith? {read : Json → Option Entry} {R : Json → Entry → Prop}
    (hread : ∀ v e, read v = some e → R v e) {v : Json} {g : Group}
    (h : ofJsonWith? read v = some g) : ReadWith R v g := by
  simp only [ofJsonWith?, Option.bind_eq_bind, Option.bind_eq_some_iff, Option.some.injEq] at h
  obtain ⟨fields, hfields, name, hname, key, hkey, ident, hident, entries, hentries, rfl⟩ := h
  obtain ⟨members, hmembers, hcollects⟩ := collects_of_required hentries
  exact ⟨fields, members, hfields, ⟨hname, hkey, hident, hmembers⟩, hcollects.mono hread⟩

theorem Entry.readFrom_of_readWithin? {levels : Nat} {inside : Bool} {v : Json} {e : Entry}
    (h : readWithin? inside levels v = some e) : ReadFrom v e := by
  induction levels generalizing inside v e with
  | zero => simp [readWithin?] at h
  | succ levels ih =>
    simp only [readWithin?, Option.bind_eq_bind, Option.bind_eq_some_iff] at h
    obtain ⟨⟨kind, body⟩, hv, k, hkind, h⟩ := h
    cases k with
    | shortcut =>
      obtain ⟨s, hs, rfl⟩ := Option.map_eq_some_iff.1 h
      exact .shortcut hv hkind hs
    | group =>
      obtain ⟨g, hg, rfl⟩ := Option.map_eq_some_iff.1 h
      obtain ⟨fields, members, hfields, hhead, hentries⟩ :=
        Group.readWith_of_ofJsonWith? (R := ReadFrom) (fun _ _ => ih) hg
      exact .group hv hkind hfields hhead hentries.first hentries.last

theorem Group.readFrom_of_ofJsonWith? {v : Json} {g : Group}
    (h : ofJsonWith? Document.entryOf? v = some g) : ReadFrom v g := by
  refine Group.readWith_of_ofJsonWith? (fun v e he => ?_) h
  rw [Document.entryOf?] at he
  split at he
  case isTrue hstrict => exact ⟨hstrict, Entry.readFrom_of_readWithin? he⟩
  case isFalse => cases he

theorem Category.readFrom_of_ofJson? {v : Json} {c : Category} (h : ofJson? v = some c) :
    ReadFrom v c := by
  simp only [ofJson?, Option.bind_eq_bind, Option.bind_eq_some_iff, Option.some.injEq] at h
  obtain ⟨fields, hfields, name, hname, key, hkey, ident, hident, shortcuts, hshortcuts, subgroups,
    hsubgroups, rfl⟩ := h
  have hgroups := collectsField_of_withDefault hsubgroups
  exact ⟨hfields, hname, hkey, hident, collectsField_of_withDefault hshortcuts,
    hgroups.mono fun _ _ => Group.readFrom_of_ofJsonWith?⟩

/-- **What is read as a document was written for it**: every field it has, and every mapping with
its repeated keys. -/
theorem Document.readFrom_of_ofJson? {v : Json} {d : Document} (h : ofJson? v = some d) :
    ReadFrom v d := by
  simp only [ofJson?, Option.bind_eq_bind, Option.bind_eq_some_iff, Option.some.injEq] at h
  obtain ⟨fields, hfields, version, hversion, source, hfrom, note, hnote, categories, hcategories,
    rfl⟩ := h
  obtain ⟨members, hmembers, hcollects⟩ := collects_of_required hcategories
  exact ⟨hfields, hversion, hfrom, hnote, hmembers,
    hcollects.mono fun _ _ => Category.readFrom_of_ofJson?⟩

end HotkeyTree
