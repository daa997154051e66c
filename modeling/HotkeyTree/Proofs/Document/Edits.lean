import HotkeyTree.Proofs.Document.Shapes
import Mathlib.Logic.Relation

/-!
# Proofs: what an edit of a text does to the document in it

An edit changes the members of one record, wherever it stands. The order of members does not matter,
nor do members that are none of the fields. A field that is repeated, a field that has to be there
and is not, and `null` in a field that cannot lack its value are faults, at every depth.
-/

namespace HotkeyTree.Document

open Json

namespace Shape

/-! ## Edits -/

/-- The fields of a record with these members. An entry has the one that tells its kind, and those
of its kind. -/
def fieldsIn (s : Shape) (members : List (Literal × Json)) : List Field :=
  match s with
  | entry inside =>
    ⟨Entry.kindField, text, .required⟩ ::
      ((kindOf? inside members).map fun kind => (ofKind kind).fields).getD []
  | s => s.fields

/-- A change of the members of one record in a value that stands in a place of this shape, with so
many arrays and objects open around it. -/
inductive Within (change : Nat → Shape → List (Literal × Json) → List (Literal × Json) → Prop) :
    Nat → Shape → Json → Json → Prop where
  /-- The value is that record. -/
  | here {opened : Nat} {s : Shape} {members members' : List (Literal × Json)}
      (hs : s.fieldsIn members ≠ []) (h : change opened s members members') :
      Within change opened s (.object members) (.object members')
  /-- The record is in the value of a field. -/
  | field {opened : Nat} {s : Shape} {f : Field} {before after : List (Literal × Json)}
      {v v' : Json} (hf : f ∈ s.fieldsIn (before ++ (some f.name, v) :: after))
      (h : Within change (opened + 1) f.shape v v') :
      Within change opened s (.object (before ++ (some f.name, v) :: after))
        (.object (before ++ (some f.name, v') :: after))
  /-- The record is in a value of a mapping. -/
  | value {opened : Nat} {s : Shape} {k : Literal} {before after : List (Literal × Json)}
      {v v' : Json} (h : Within change (opened + 1) s v v') :
      Within change opened (.mapping s) (.object (before ++ (k, v) :: after))
        (.object (before ++ (k, v') :: after))

/-- The members in any order, with further ones among them that are none of the fields and have
values that can be read in full where they stand. -/
def Harmless (opened : Nat) (s : Shape) (members members' : List (Literal × Json)) : Prop :=
  ∃ added, members'.Perm (added ++ members) ∧ ∀ m ∈ added, ∃ name v,
    m = (some name, v) ∧ name ∉ (s.fieldsIn members).map Field.name ∧ v.Plain ∧
      opened + 1 + v.depth ≤ maxDepth

/-- What is wrong with a field among the members of a record. -/
inductive Field.Fault (f : Field) (members : List (Literal × Json)) : Prop where
  | repeated (h : 2 ≤ (members.map Prod.fst).count (some f.name))
  | dropped (hf : f.presence = .required) (h : some f.name ∉ members.map Prod.fst)
  | null (hf : f.presence ≠ .nullable) (h : (some f.name, .null) ∈ members)

/-- The members without those of this name. -/
def others (name : String) (members : List (Literal × Json)) : List (Literal × Json) :=
  members.filter fun m => m.1 ≠ some name

/-- One of the fields has become a fault; the other members are as they were. -/
def Spoiled (_opened : Nat) (s : Shape) (members members' : List (Literal × Json)) : Prop :=
  ∃ f ∈ s.fieldsIn members, others f.name members' = others f.name members ∧ f.Fault members'

/-! ## Where edits are -/

variable {change : Nat → Shape → List (Literal × Json) → List (Literal × Json) → Prop}
  {opened levels : Nat} {s : Shape} {f : Field} {inside : Bool} {v v' : Json}
  {members members' : List (Literal × Json)}

theorem Within.exists_object (h : Within change opened s v v') :
    (∃ ms, v = .object ms) ∧ ∃ ms, v' = .object ms := by
  cases h with
  | here => exact ⟨⟨_, rfl⟩, ⟨_, rfl⟩⟩
  | field => exact ⟨⟨_, rfl⟩, ⟨_, rfl⟩⟩
  | value => exact ⟨⟨_, rfl⟩, ⟨_, rfl⟩⟩

/-- No record stands directly in a field. -/
theorem shape_of_mem_fields (s : Shape) : ∀ f ∈ s.fields,
    f.shape ∈ [text, integer, truth] ∨ ∃ s', f.shape = .mapping s' := by
  cases s <;> simp [Shape.fields]

theorem not_within_scalar (hs : s ∈ [text, integer, truth]) : ¬ Within change opened s v v' := by
  have hnone : ∀ ms, s.fieldsIn ms = [] := by
    intro ms
    simp only [List.mem_cons, List.not_mem_nil, or_false] at hs
    rcases hs with rfl | rfl | rfl <;> rfl
  intro h
  cases h with
  | here hne => exact hne (hnone _)
  | field hf => exact absurd (hnone _ ▸ hf) List.not_mem_nil
  | value => simp at hs

theorem Within.exists_eq_mapping (hf : f ∈ s.fields) (h : Within change opened f.shape v v') :
    ∃ s', f.shape = .mapping s' :=
  (shape_of_mem_fields s f hf).resolve_left fun hscalar => not_within_scalar hscalar h

theorem mem_fieldsIn_entry (hf : f ∈ (entry inside).fieldsIn members) :
    f = ⟨Entry.kindField, text, .required⟩ ∨
      ∃ kind, kindOf? inside members = some kind ∧ f ∈ (ofKind kind).fields := by
  rcases List.mem_cons.1 hf with rfl | hf
  · exact Or.inl rfl
  · cases hkind : kindOf? inside members with
    | none => simp [hkind] at hf
    | some kind =>
      rw [hkind] at hf
      exact Or.inr ⟨kind, rfl, hf⟩

theorem kindField_ne_name {kind : Entry.Kind} (hf : f ∈ (ofKind kind).fields) :
    some Entry.kindField ≠ some f.name := by
  intro hname
  exact kindField_not_mem kind (Option.some.inj hname ▸ List.mem_map_of_mem hf)

/-- Where the same kind is told, the entry is of the same kind. -/
theorem kind_eq_of_lookup {kind kind' : Entry.Kind}
    (hlookup : members'.lookup (some Entry.kindField) = members.lookup (some Entry.kindField))
    (h : kindOf? inside members = some kind) (h' : kindIn? inside members' = some kind') :
    kind = kind' := by
  have hkind := kindOf?_of_kindIn? h'
  rw [kindOf?, hlookup] at hkind
  exact Option.some.inj (h.symm.trans hkind)

/-- The fields of a record are always the same, unless it is an entry. -/
theorem eq_entry_or_fieldsIn_eq (s : Shape) :
    (∃ inside, s = entry inside) ∨ ∀ members, s.fieldsIn members = s.fields := by
  cases s with
  | entry inside => exact Or.inl ⟨inside, rfl⟩
  | _ => exact Or.inr fun _ => rfl

/-! ## Edits that do not matter -/

/-- How many arrays and objects are open around a place. For what stands inside an entry this is
not told by its shape. -/
def Stands : Shape → Nat → Prop
  | document, opened => opened = 0
  | category, opened => opened = 2
  | group false, opened => opened = 4
  | entry false, opened => opened = depthOfEntries
  | mapping s, opened => Stands s (opened + 1)
  | _, _ => True

theorem Stands.field (h : s.Stands opened) (hf : f ∈ s.fields) : f.shape.Stands (opened + 1) := by
  revert f
  cases s with
  | group inside => cases inside <;> simp_all [Shape.fields, Stands, depthOfEntries]
  | _ => simp_all [Shape.fields, Stands]

theorem stands_ofKind (kind : Entry.Kind) (opened : Nat) : (ofKind kind).Stands opened := by
  cases kind <;> trivial

theorem Harmless.alike {names : List String} (h : Harmless opened s members members')
    (hnames : ∀ name ∈ names, name ∈ (s.fieldsIn members).map Field.name) :
    Alike names members members' := by
  obtain ⟨added, hperm, hadded⟩ := h
  refine alike_of_perm hperm fun m hm => ?_
  obtain ⟨name, v, rfl, hname, -⟩ := hadded m hm
  exact ⟨name, v, rfl, fun hmem => hname (hnames name hmem)⟩

/-- What is added to a record can be read in full there. -/
theorem Within.isStrict_eq (h : Within Harmless opened s v v') :
    ∀ levels, opened + levels = maxDepth → v'.isStrict levels = v.isStrict levels := by
  induction h with
  | here _ hchange =>
    intro levels hlevels
    obtain ⟨added, hperm, hadded⟩ := hchange
    have hall : (added.all fun m => memberIsStrict (levels - 1) m) = true := by
      rw [List.all_eq_true]
      intro m hm
      obtain ⟨name, w, rfl, -, hplain, hdepth⟩ := hadded m hm
      have hle : w.depth ≤ levels - 1 := by omega
      rw [memberIsStrict, Plain.strictByDepth hplain]
      simpa using hle
    rw [isStrict_object, isStrict_object, hperm.all_eq, List.all_append, hall, Bool.true_and]
  | field _ _ ih =>
    intro levels hlevels
    exact isStrict_replace fun hpos => ih (levels - 1) (by omega)
  | value _ ih =>
    intro levels hlevels
    exact isStrict_replace fun hpos => ih (levels - 1) (by omega)

/-- An entry is read alike if its kind and the record of that kind are. -/
theorem read?_entry_eq (hkind : Alike [Entry.kindField] members members')
    (hbody : ∀ kind, kindOf? inside members = some kind → ∀ levels,
      (ofKind kind).read? levels (.object members') = (ofKind kind).read? levels (.object members))
    (hstrict : inside = false → isStrict (maxDepth - depthOfEntries) (.object members') =
      isStrict (maxDepth - depthOfEntries) (.object members)) (levels : Nat) :
    (entry inside).read? levels (.object members') =
      (entry inside).read? levels (.object members) := by
  have hwithin : ∀ levels, Entry.readWithin? inside levels (.object members') =
      Entry.readWithin? inside levels (.object members) := by
    intro levels
    cases levels with
    | zero => rfl
    | succ levels =>
      rw [readWithin?_object, readWithin?_object, kindIn?_eq_of_alike hkind]
      refine Option.bind_congr fun kind hk => ?_
      rw [hbody kind (kindOf?_of_kindIn? hk)]
  cases inside with
  | false =>
    show entryOf? _ = entryOf? _
    rw [entryOf?, entryOf?, hstrict rfl, hwithin]
  | true => exact hwithin levels

/-- In a field of a record a value may be replaced by one that is read alike. -/
theorem read?_replace_eq {before after : List (Literal × Json)} (hf : f ∈ s.fields)
    (hwithin : Within change opened f.shape v v')
    (hread : f.shape.read? levels v' = f.shape.read? levels v) :
    s.read? levels (.object (before ++ (some f.name, v') :: after)) =
      s.read? levels (.object (before ++ (some f.name, v) :: after)) := by
  have hs : s.fields ≠ [] := List.ne_nil_of_mem hf
  have hname : f.name ∈ s.names := List.mem_map_of_mem hf
  have hiff : Single s.names (before ++ (some f.name, v') :: after) ↔
      Single s.names (before ++ (some f.name, v) :: after) := single_replace _ v v'
  by_cases hsingle : Single s.names (before ++ (some f.name, v) :: after)
  · obtain ⟨s', hs'⟩ := hwithin.exists_eq_mapping hf
    refine read?_eq_of_field hf hs' (record?_of_single hsingle)
      (record?_of_single (hiff.2 hsingle)) (fun name hne => ?_) ?_ ?_ hread
    · have hne' : some name ≠ some f.name := by simpa using hne
      rw [lookup_fieldsAmong, lookup_fieldsAmong, lookup_replace_of_ne hne' v v']
    · rw [lookup_fieldsAmong, if_pos hname, lookup_of_single hsingle hname]
    · rw [lookup_fieldsAmong, if_pos hname, lookup_of_single (hiff.2 hsingle) hname]
  · rw [read?_eq_none_of_record? hs (record?_of_not_single hsingle),
      read?_eq_none_of_record? hs (record?_of_not_single fun h => hsingle (hiff.1 h))]

/-- **One harmless edit of one record, at any depth, does not change what is read.** -/
theorem Within.read?_eq (h : Within Harmless opened s v v') (hs : s.Stands opened) (levels : Nat) :
    s.read? levels v' = s.read? levels v := by
  -- the induction is on where the record is; that an entry can be taken in as a whole is a matter
  -- of the whole entry, so it is settled before
  have hstrict := h.isStrict_eq
  induction h generalizing levels with
  | @here opened s members members' hne hchange =>
    rcases s.eq_entry_or_fieldsIn_eq with ⟨inside, rfl⟩ | hfields
    · refine read?_entry_eq (hchange.alike (by simp [fieldsIn])) (fun kind hkind levels => ?_)
        (fun hinside => ?_) levels
      · refine read?_eq_of_alike (fields_ofKind_ne_nil kind) (hchange.alike fun name hname => ?_)
        rw [fieldsIn, hkind]
        exact List.mem_cons_of_mem _ hname
      · subst hinside
        exact hstrict _ (by rw [hs]; rfl)
    · rw [hfields] at hne
      refine read?_eq_of_alike hne (hchange.alike fun name hname => ?_)
      rw [hfields]
      exact hname
  | @field opened s f before after v v' hf hwithin ih =>
    rcases s.eq_entry_or_fieldsIn_eq with ⟨inside, rfl⟩ | hfields
    · rcases mem_fieldsIn_entry hf with rfl | ⟨kind, hkind, hf⟩
      · exact absurd hwithin (not_within_scalar (by simp))
      · -- the field is none that tells the kind
        have hname : f.name ∉ [Entry.kindField] := by
          simpa using (kindField_ne_name hf).symm
        refine read?_entry_eq (alike_replace hname v v') (fun kind' hkind' levels => ?_)
          (fun hinside => ?_) levels
        · obtain rfl : kind = kind' := Option.some.inj (hkind.symm.trans hkind')
          have hstands := (stands_ofKind kind opened).field hf
          exact read?_replace_eq hf hwithin (ih hstands levels hwithin.isStrict_eq)
        · subst hinside
          exact hstrict _ (by rw [hs]; rfl)
    · rw [hfields] at hf
      exact read?_replace_eq hf hwithin (ih (hs.field hf) levels hwithin.isStrict_eq)
  | value hwithin ih => exact mapping?_replace (ih hs levels hwithin.isStrict_eq)

/-! ## Edits that spoil a document -/

theorem lookup_others {k : Literal} {name : String} (hk : k ≠ some name)
    (members : List (Literal × Json)) : (others name members).lookup k = members.lookup k := by
  induction members with
  | nil => rfl
  | cons m members ih =>
    obtain ⟨k', v⟩ := m
    rw [others] at ih ⊢
    by_cases hk' : k' = some name
    · rw [List.filter_cons_of_neg (by simp [hk']), ih, lookup_cons_of_ne (hk' ▸ hk)]
    · rw [List.filter_cons_of_pos (by simpa using hk'), List.lookup_cons, List.lookup_cons, ih]

/-- What is found under the name of a field that is a fault. -/
theorem Field.Fault.lookup {names : List String} (h : f.Fault members) (hname : f.name ∈ names)
    (hsingle : Single names members) :
    (f.presence = .required ∧ members.lookup (some f.name) = none) ∨
      (f.presence ≠ .nullable ∧ members.lookup (some f.name) = some .null) := by
  cases h with
  | repeated h =>
    have hle := hsingle.2 f.name hname
    omega
  | dropped hf h =>
    refine Or.inl ⟨hf, ?_⟩
    rw [List.lookup_eq_none_iff]
    intro m hm
    have hne : some f.name ≠ m.1 := fun heq => h (heq ▸ List.mem_map_of_mem hm)
    simpa using hne
  | null hf h =>
    obtain ⟨before, after, rfl⟩ := List.append_of_mem h
    exact Or.inr ⟨hf, lookup_of_single hsingle hname⟩

/-- A record that can be read has its fields once and readable. -/
theorem accepts_lookup (hs : s.fields ≠ []) (h : (s.read? levels (.object members)).isSome) :
    Single s.names members ∧ ∀ f ∈ s.fields, f.Accepts levels (members.lookup (some f.name)) := by
  obtain ⟨fields, hfields, haccepts⟩ := exists_accepts hs h
  by_cases hsingle : Single s.names members
  · refine ⟨hsingle, fun f hf => ?_⟩
    have hname : f.name ∈ s.names := List.mem_map_of_mem hf
    have hlookup := lookup_fieldsAmong s.names members f.name
    rw [if_pos hname] at hlookup
    obtain rfl : fieldsAmong s.names members = fields :=
      Option.some.inj ((record?_of_single hsingle).symm.trans hfields)
    exact hlookup ▸ haccepts f hf
  · cases (record?_of_not_single hsingle).symm.trans hfields

theorem read?_eq_none_of_fault (hf : f ∈ s.fields) (h : f.Fault members) :
    s.read? levels (.object members) = none := by
  by_contra hread
  obtain ⟨hsingle, haccepts⟩ :=
    accepts_lookup (List.ne_nil_of_mem hf) (Option.isSome_iff_ne_none.2 hread)
  have haccept := haccepts f hf
  rcases h.lookup (List.mem_map_of_mem hf) hsingle with ⟨hrequired, hnone⟩ | ⟨hnullable, hnull⟩
  · rw [hnone] at haccept
    exact haccept hrequired
  · rw [hnull] at haccept
    rcases haccept with hlacks | hsome
    · cases hpresence : f.presence <;> simp_all [Field.lacks]
    · rw [read?_null] at hsome
      cases hsome

theorem read?_eq_none_of_field {before after : List (Literal × Json)} (hf : f ∈ s.fields)
    (hwithin : Within change opened f.shape v v') (hread : f.shape.read? levels v' = none) :
    s.read? levels (.object (before ++ (some f.name, v') :: after)) = none := by
  by_contra hsome
  obtain ⟨hsingle, haccepts⟩ :=
    accepts_lookup (List.ne_nil_of_mem hf) (Option.isSome_iff_ne_none.2 hsome)
  have haccept := haccepts f hf
  rw [lookup_of_single hsingle (List.mem_map_of_mem hf)] at haccept
  obtain ⟨-, ms, rfl⟩ := hwithin.exists_object
  rcases haccept with hlacks | hsome
  · cases hpresence : f.presence <;> simp_all [Field.lacks]
  · rw [hread] at hsome
    cases hsome

/-- An entry cannot be read if the record of its kind cannot be. -/
theorem read?_entry_eq_none (h : ∀ kind, kindIn? inside members = some kind → ∀ levels,
    (ofKind kind).read? levels (.object members) = none) (levels : Nat) :
    (entry inside).read? levels (.object members) = none := by
  have hwithin : ∀ levels, Entry.readWithin? inside levels (.object members) = none := by
    intro levels
    cases levels with
    | zero => rfl
    | succ levels =>
      rw [readWithin?_object, Option.bind_eq_none_iff]
      intro kind hk
      rw [h kind hk, Option.map_none]
  cases inside with
  | false =>
    show entryOf? _ = none
    rw [entryOf?, hwithin, ite_self]
  | true => exact hwithin levels

/-- An entry whose kind is a fault has none. -/
theorem kindIn?_eq_none_of_fault
    (h : Field.Fault ⟨Entry.kindField, text, .required⟩ members) :
    kindIn? inside members = none := by
  by_cases hsingle : Single [Entry.kindField] members
  · rw [kindIn?_of_single hsingle, kindOf?]
    rcases h.lookup (by simp) hsingle with ⟨-, hnone⟩ | ⟨-, hnull⟩
    · rw [hnone, Option.bind_none]
    · rw [hnull, Option.bind_some]
      rfl
  · exact kindIn?_of_not_single hsingle

/-- **A fault in one record, at any depth, keeps the whole from being read.** -/
theorem Within.read?_eq_none (h : Within Spoiled opened s v v') (levels : Nat) :
    s.read? levels v' = none := by
  induction h generalizing levels with
  | @here opened s members members' hne hchange =>
    obtain ⟨f, hf, hothers, hfault⟩ := hchange
    rcases s.eq_entry_or_fieldsIn_eq with ⟨inside, rfl⟩ | hfields
    · refine read?_entry_eq_none (fun kind hkind levels => ?_) levels
      rcases mem_fieldsIn_entry hf with rfl | ⟨kind', hkind', hf⟩
      · cases (kindIn?_eq_none_of_fault hfault).symm.trans hkind
      · -- the kind is told by one of the other members
        have hlookup := lookup_others (kindField_ne_name hf) members'
        rw [hothers, lookup_others (kindField_ne_name hf)] at hlookup
        obtain rfl := kind_eq_of_lookup hlookup.symm hkind' hkind
        exact read?_eq_none_of_fault hf hfault
    · rw [hfields] at hf
      exact read?_eq_none_of_fault hf hfault
  | @field opened s f before after v v' hf hwithin ih =>
    rcases s.eq_entry_or_fieldsIn_eq with ⟨inside, rfl⟩ | hfields
    · refine read?_entry_eq_none (fun kind hkind levels => ?_) levels
      rcases mem_fieldsIn_entry hf with rfl | ⟨kind', hkind', hf⟩
      · exact absurd hwithin (not_within_scalar (by simp))
      · have hlookup : (before ++ (some f.name, v') :: after).lookup (some Entry.kindField) =
            (before ++ (some f.name, v) :: after).lookup (some Entry.kindField) :=
          lookup_replace_of_ne (kindField_ne_name hf) v v'
        obtain rfl := kind_eq_of_lookup hlookup hkind' hkind
        exact read?_eq_none_of_field hf hwithin (ih levels)
    · rw [hfields] at hf
      exact read?_eq_none_of_field hf hwithin (ih levels)
  | value _ ih => exact mapping?_eq_none (ih levels)

end Shape

/-! ## Texts -/

/-- **Any number of harmless edits, wherever they are, leave a text that is read as the same
document; one that spoils a record leaves none.** -/
theorem read?_edited {t t' : String} {v v' : Json} {d : Document} (hv : parse? t = some v)
    (hd : read? t = some d) (hv' : parse? t' = some v') :
    (Relation.ReflTransGen (Shape.Within Shape.Harmless 0 .document) v v' →
      read? t' = some d) ∧
    (Shape.Within Shape.Spoiled 0 .document v v' → read? t' = none) := by
  rw [read?, hv, Option.bind_some] at hd
  rw [read?, hv', Option.bind_some]
  refine ⟨fun hedits => ?_, fun hspoiled => ?_⟩
  · clear hv'
    induction hedits with
    | refl => exact hd
    | tail _ hedit ih => exact (hedit.read?_eq rfl 0).trans ih
  · exact hspoiled.read?_eq_none 0

/-- A document of one group with one entry, which has these members. -/
def documentAround (members : List (Literal × Json)) : Json :=
  let group : Json := .object
    (member "name" (ofText "G") ++ member "key" (ofText "g")
      ++ member "shortcuts" (.object (member "x" (.object members))))
  let category : Json := .object
    (member "name" (ofText "C") ++ member "key" (ofText "c")
      ++ member "sourceIdentifier" (ofText "") ++ member "subgroups" (.object (member "g" group)))
  .object
    (member "version" (ofText "1") ++ member "generatedFrom" (ofText "")
      ++ member "note" (ofText "") ++ member "categories" (.object (member "c" category)))

theorem within_documentAround
    {change : Nat → Shape → List (Literal × Json) → List (Literal × Json) → Prop}
    {members members' : List (Literal × Json)}
    (h : change depthOfEntries (.entry false) members members') :
    Shape.Within change 0 .document (documentAround members) (documentAround members') := by
  have hslot : ∀ {opened s k v v'}, Shape.Within change (opened + 1) s v v' →
      Shape.Within change opened (.mapping s) (.object (member k v)) (.object (member k v')) :=
    fun {_ _ k _ _} hv => @Shape.Within.value _ _ _ (some k) [] [] _ _ hv
  refine .field (f := ⟨"categories", .mapping .category, .required⟩) ?_ (hslot ?_)
  · simp [Shape.fieldsIn, Shape.fields]
  refine .field (f := ⟨"subgroups", .mapping (.group false), .missable⟩) ?_ (hslot ?_)
  · simp [Shape.fieldsIn, Shape.fields]
  refine .field (f := ⟨"shortcuts", .mapping (.entry false), .required⟩) ?_ (hslot ?_)
  · simp [Shape.fieldsIn, Shape.fields]
  exact .here (List.cons_ne_nil _ _) h

theorem parse?_documentAround {members : List (Literal × Json)} (h : Values Plain members) :
    parse? (documentAround members).pretty = some (documentAround members) := by
  have hobject : ∀ {ms : List (Literal × Json)},
      (Json.object ms).WellFormed ↔ Values WellFormed ms := by
    intro ms
    refine ⟨fun hms => ?_, fun hms => .object (fun _ _ => trivial) hms⟩
    cases hms with
    | object _ hvalues => exact hvalues
  have htext : ∀ s, (ofText s).WellFormed := fun s => (Plain.ofText s).wellFormed
  have hmembers : Values WellFormed members := fun m hm => (h m hm).wellFormed
  have hwell : (documentAround members).WellFormed := by
    simp only [documentAround, hobject, values_append, values_member, htext, hmembers, and_self]
  have hparse := parse?_pretty hwell (String.toList_empty ▸ List.forall_mem_nil _)
  rwa [String.append_empty] at hparse

/-- The members of an entry that is a shortcut. -/
def plainMembers : List (Literal × Json) :=
  Entry.kindMember .shortcut ++ Shortcut.members { id := 1, name := "X", key := "x" }

/-- The same in another order, with one that is no field. -/
def shuffledMembers : List (Literal × Json) :=
  member "shortcuts" (.array [.null]) ++ plainMembers.reverse

/-- The id is there twice. -/
def doubledMembers : List (Literal × Json) := plainMembers ++ member "id" (ofInt64 1)

theorem read?_edited_documentAround :
    ∃ d, read? (documentAround plainMembers).pretty = some d ∧
      read? (documentAround shuffledMembers).pretty = some d ∧
      read? (documentAround doubledMembers).pretty = none := by
  have hplain : Values Plain plainMembers := by
    simp [plainMembers, Entry.kindMember, Shortcut.members, values_append, values_member,
      values_present, Plain.ofText, Plain.ofInt64]
  have hnull : (Json.array [.null]).Plain := .array (by simpa using Every.null)
  have hv := parse?_documentAround hplain
  have hshuffled : Values Plain shuffledMembers :=
    values_append.2 ⟨values_member.2 hnull, fun m hm => hplain m (List.mem_reverse.1 hm)⟩
  have hdoubled : Values Plain doubledMembers :=
    values_append.2 ⟨hplain, values_member.2 (Plain.ofInt64 1)⟩
  have hread : (read? (documentAround plainMembers).pretty).isSome := by
    rw [read?, hv]
    decide +kernel
  obtain ⟨d, hd⟩ := Option.isSome_iff_exists.1 hread
  refine ⟨d, hd, (read?_edited hv hd (parse?_documentAround hshuffled)).1 (.single ?_),
    (read?_edited hv hd (parse?_documentAround hdoubled)).2 ?_⟩
  · refine within_documentAround ⟨member "shortcuts" (.array [.null]), ?_, ?_⟩
    · exact (List.reverse_perm plainMembers).append_left _
    · intro m hm
      obtain rfl := List.mem_singleton.1 hm
      exact ⟨"shortcuts", _, rfl, by decide, hnull, by decide⟩
  · refine within_documentAround ⟨⟨"id", .integer, .required⟩, by decide, rfl, .repeated ?_⟩
    decide

end HotkeyTree.Document
