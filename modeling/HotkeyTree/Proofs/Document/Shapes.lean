import HotkeyTree.Document.Misfit
import HotkeyTree.Proofs.Json.Members

/-!
# Proofs: what a record makes of its fields

`Shape.read?` reads whatever can stand in a document. For every record it is settled here what that
takes of the value: which fields have to be there and to be readable, and that nothing else in it
matters. An entry of a group is the record of its kind.
-/

namespace HotkeyTree.Document.Shape

open Json

/-! ## Reading in a place -/

/-- What is read in a place of this shape. -/
def Value : Shape → Type
  | text => String
  | integer => Int64
  | truth => Bool
  | mapping s => Keyed s.Value
  | shortcut => Shortcut
  | group _ => Group
  | entry _ => Entry
  | category => Category
  | document => Document

/-- Reads an entry; the levels are those left for one inside another. -/
def entryIn? (levels : Nat) : Bool → Json → Option Entry
  | false => entryOf?
  | true => Entry.readWithin? true levels

/-- Reads a value in a place of this shape. -/
def read? (levels : Nat) : (s : Shape) → Json → Option s.Value
  | text => text?
  | integer => int64?
  | truth => bool?
  | mapping s => mapping? (read? levels s)
  | shortcut => Shortcut.ofJson?
  | group inside => Group.ofJsonWith? (entryIn? levels inside)
  | entry inside => entryIn? levels inside
  | category => Category.ofJson?
  | document => Document.ofJson?

/-- The names of a record's fields. -/
def names (s : Shape) : List String := s.fields.map Field.name

variable {s : Shape} {levels : Nat} {v v' : Json} {fields fields' : List (String × Json)}

theorem bind_eq_of_eq_some {α β : Type} {o : Option α} {a : α} (h : o = some a)
    (f : α → Option β) : o.bind f = f a := by
  rw [h, Option.bind_some]

theorem read?_null (s : Shape) : s.read? levels .null = none := by
  cases s with
  | group inside => rfl
  | entry inside =>
    cases inside with
    | false => rfl
    | true => cases levels <;> rfl
  | _ => rfl

/-! ## Records -/

theorem read?_eq_none_of_record? (hs : s.fields ≠ []) (h : record? s.names v = none) :
    s.read? levels v = none := by
  cases s with
  | shortcut | group | category | document =>
    exact Option.bind_eq_none_iff.2 fun _ hsome => nomatch h.symm.trans hsome
  | _ => exact absurd rfl hs

/-- Only what is found under the names of the fields matters. -/
theorem read?_eq_of_lookup (hs : s.fields ≠ []) (h : record? s.names v = some fields)
    (h' : record? s.names v' = some fields')
    (hlookup : ∀ name, fields'.lookup name = fields.lookup name) :
    s.read? levels v' = s.read? levels v := by
  have hdefault : ∀ {α : Type} (name : String) (missing : α) (read : Json → Option α),
      withDefault fields' name missing read = withDefault fields name missing read := by
    intro α name missing read
    rw [withDefault, withDefault, hlookup]
  have hrequired : ∀ {α : Type} (name : String) (read : Json → Option α),
      required fields' name read = required fields name read := by
    intro α name read
    rw [required, required, hlookup]
  have hoptional : ∀ {α : Type} (name : String) (read : Json → Option α),
      Json.optional fields' name read = Json.optional fields name read :=
    fun name read => hdefault name none (nullable read)
  cases s with
  | shortcut | group | category | document =>
    refine (bind_eq_of_eq_some h' _).trans (Eq.trans ?_ (bind_eq_of_eq_some h _).symm)
    simp only [hrequired, hdefault, hoptional]
  | _ => exact absurd rfl hs

/-- Of a mapping in a field only what is read of it matters. -/
theorem read?_eq_of_field {f : Field} {w w' : Json} (hf : f ∈ s.fields) {s' : Shape}
    (hshape : f.shape = .mapping s') (h : record? s.names v = some fields)
    (h' : record? s.names v' = some fields')
    (hothers : ∀ name, name ≠ f.name → fields'.lookup name = fields.lookup name)
    (hw : fields.lookup f.name = some w) (hw' : fields'.lookup f.name = some w')
    (hread : f.shape.read? levels w' = f.shape.read? levels w) :
    s.read? levels v' = s.read? levels v := by
  have hdefault : ∀ {α : Type} {name : String} (_ : name ≠ f.name) (missing : α)
      (read : Json → Option α),
      withDefault fields' name missing read = withDefault fields name missing read := by
    intro α name hname missing read
    rw [withDefault, withDefault, hothers name hname]
  have hrequired : ∀ {α : Type} {name : String} (_ : name ≠ f.name) (read : Json → Option α),
      required fields' name read = required fields name read := by
    intro α name hname read
    rw [required, required, hothers name hname]
  have hrequiredMapping : required fields' f.name (f.shape.read? levels) =
      required fields f.name (f.shape.read? levels) := by
    rw [required_of_lookup hw, required_of_lookup hw', hread]
  have hdefaultMapping : ∀ missing, withDefault fields' f.name missing (f.shape.read? levels) =
      withDefault fields f.name missing (f.shape.read? levels) := by
    intro missing
    rw [withDefault_of_lookup hw, withDefault_of_lookup hw', hread]
  cases s with
  | shortcut =>
    -- no field of a shortcut is a mapping
    simp only [Shape.fields, List.mem_cons, List.not_mem_nil, or_false] at hf
    rcases hf with rfl | rfl | rfl | rfl | rfl | rfl | rfl | rfl | rfl | rfl <;> cases hshape
  | group inside =>
    simp only [Shape.fields, List.mem_cons, List.not_mem_nil, or_false] at hf
    rcases hf with rfl | rfl | rfl | rfl
    case inr.inr.inr =>
      have hentries : required fields' "shortcuts" (mapping? (entryIn? levels inside)) =
          required fields "shortcuts" (mapping? (entryIn? levels inside)) := hrequiredMapping
      refine (bind_eq_of_eq_some h' _).trans (Eq.trans ?_ (bind_eq_of_eq_some h _).symm)
      rw [hrequired (by simp), hrequired (by simp), hdefault (by simp), hentries]
    all_goals cases hshape
  | category =>
    simp only [Shape.fields, List.mem_cons, List.not_mem_nil, or_false] at hf
    rcases hf with rfl | rfl | rfl | rfl | rfl
    case inr.inr.inr.inl =>
      have hshortcuts : withDefault fields' "shortcuts" [] (mapping? Shortcut.ofJson?) =
          withDefault fields "shortcuts" [] (mapping? Shortcut.ofJson?) := hdefaultMapping []
      refine (bind_eq_of_eq_some h' _).trans (Eq.trans ?_ (bind_eq_of_eq_some h _).symm)
      rw [hrequired (by simp), hrequired (by simp), hrequired (by simp), hshortcuts,
        hdefault (by simp)]
    case inr.inr.inr.inr =>
      have hsubgroups : withDefault fields' "subgroups" []
          (mapping? (Group.ofJsonWith? entryOf?)) =
            withDefault fields "subgroups" [] (mapping? (Group.ofJsonWith? entryOf?)) :=
        hdefaultMapping []
      refine (bind_eq_of_eq_some h' _).trans (Eq.trans ?_ (bind_eq_of_eq_some h _).symm)
      rw [hrequired (by simp), hrequired (by simp), hrequired (by simp),
        hdefault (by simp), hsubgroups]
    all_goals cases hshape
  | document =>
    simp only [Shape.fields, List.mem_cons, List.not_mem_nil, or_false] at hf
    rcases hf with rfl | rfl | rfl | rfl
    case inr.inr.inr =>
      have hcategories : required fields' "categories" (mapping? Category.ofJson?) =
          required fields "categories" (mapping? Category.ofJson?) := hrequiredMapping
      refine (bind_eq_of_eq_some h' _).trans (Eq.trans ?_ (bind_eq_of_eq_some h _).symm)
      rw [hrequired (by simp), hrequired (by simp), hrequired (by simp), hcategories]
    all_goals cases hshape
  | _ => cases hf

/-! ## Fields that have to be readable -/

/-- Whether a field can hold this, or nothing. -/
def Field.Accepts (levels : Nat) (f : Field) : Option Json → Prop
  | none => f.presence ≠ .required
  | some v => f.lacks v ∨ (f.shape.read? levels v).isSome

theorem Field.accepts_of_required {f : Field} {a : f.shape.Value}
    (h : required fields f.name (f.shape.read? levels) = some a) :
    f.Accepts levels (fields.lookup f.name) := by
  obtain ⟨v, hv, ha⟩ := Option.bind_eq_some_iff.1 h
  rw [hv]
  exact Or.inr (Option.isSome_of_eq_some ha)

theorem Field.accepts_of_withDefault {f : Field} (hf : f.presence ≠ .required)
    {a missing : f.shape.Value}
    (h : withDefault fields f.name missing (f.shape.read? levels) = some a) :
    f.Accepts levels (fields.lookup f.name) := by
  rw [withDefault] at h
  split at h
  case h_1 v hv =>
    rw [hv]
    exact Or.inr (Option.isSome_of_eq_some h)
  case h_2 hnone =>
    rw [hnone]
    exact hf

theorem Field.accepts_of_optional {f : Field} (hf : f.presence = .nullable)
    {a : Option f.shape.Value} (h : Json.optional fields f.name (f.shape.read? levels) = some a) :
    f.Accepts levels (fields.lookup f.name) := by
  rw [Json.optional, withDefault] at h
  split at h
  case h_1 v hv =>
    rw [hv]
    cases v with
    | null => exact Or.inl (by simp [Field.lacks, hf])
    | _ =>
      obtain ⟨b, hb, -⟩ := Option.map_eq_some_iff.1 h
      exact Or.inr (Option.isSome_of_eq_some hb)
  case h_2 hnone =>
    rw [hnone]
    intro hrequired
    cases hf.symm.trans hrequired

/-- A record that can be read has fields that can be. -/
theorem exists_accepts (hs : s.fields ≠ []) (h : (s.read? levels v).isSome) :
    ∃ fields, record? s.names v = some fields ∧
      ∀ f ∈ s.fields, f.Accepts levels (fields.lookup f.name) := by
  obtain ⟨a, ha⟩ := Option.isSome_iff_exists.1 h
  cases s with
  | shortcut =>
    obtain ⟨fields, hfields, ha⟩ := Option.bind_eq_some_iff.1 ha
    obtain ⟨_, hid, ha⟩ := Option.bind_eq_some_iff.1 ha
    obtain ⟨_, hname, ha⟩ := Option.bind_eq_some_iff.1 ha
    obtain ⟨_, hkey, ha⟩ := Option.bind_eq_some_iff.1 ha
    obtain ⟨_, hdefaultKey, ha⟩ := Option.bind_eq_some_iff.1 ha
    obtain ⟨_, hmodifier, ha⟩ := Option.bind_eq_some_iff.1 ha
    obtain ⟨_, hcharKey, ha⟩ := Option.bind_eq_some_iff.1 ha
    obtain ⟨_, henabled, ha⟩ := Option.bind_eq_some_iff.1 ha
    obtain ⟨_, hslow, ha⟩ := Option.bind_eq_some_iff.1 ha
    obtain ⟨_, hident, ha⟩ := Option.bind_eq_some_iff.1 ha
    obtain ⟨_, hdynamic, -⟩ := Option.bind_eq_some_iff.1 ha
    refine ⟨fields, hfields, ?_⟩
    simp only [Shape.fields, List.forall_mem_cons]
    exact ⟨Field.accepts_of_required hid, Field.accepts_of_required hname,
      Field.accepts_of_required hkey, Field.accepts_of_optional rfl hdefaultKey,
      Field.accepts_of_optional rfl hmodifier, Field.accepts_of_optional rfl hcharKey,
      Field.accepts_of_optional rfl henabled, Field.accepts_of_optional rfl hslow,
      Field.accepts_of_optional rfl hident, Field.accepts_of_optional rfl hdynamic,
      List.forall_mem_nil _⟩
  | group inside =>
    obtain ⟨fields, hfields, ha⟩ := Option.bind_eq_some_iff.1 ha
    obtain ⟨_, hname, ha⟩ := Option.bind_eq_some_iff.1 ha
    obtain ⟨_, hkey, ha⟩ := Option.bind_eq_some_iff.1 ha
    obtain ⟨_, hident, ha⟩ := Option.bind_eq_some_iff.1 ha
    obtain ⟨_, hentries, -⟩ := Option.bind_eq_some_iff.1 ha
    refine ⟨fields, hfields, ?_⟩
    simp only [Shape.fields, List.forall_mem_cons]
    exact ⟨Field.accepts_of_required hname, Field.accepts_of_required hkey,
      Field.accepts_of_withDefault nofun hident, Field.accepts_of_required hentries,
      List.forall_mem_nil _⟩
  | category =>
    obtain ⟨fields, hfields, ha⟩ := Option.bind_eq_some_iff.1 ha
    obtain ⟨_, hname, ha⟩ := Option.bind_eq_some_iff.1 ha
    obtain ⟨_, hkey, ha⟩ := Option.bind_eq_some_iff.1 ha
    obtain ⟨_, hident, ha⟩ := Option.bind_eq_some_iff.1 ha
    obtain ⟨_, hshortcuts, ha⟩ := Option.bind_eq_some_iff.1 ha
    obtain ⟨_, hsubgroups, -⟩ := Option.bind_eq_some_iff.1 ha
    refine ⟨fields, hfields, ?_⟩
    simp only [Shape.fields, List.forall_mem_cons]
    exact ⟨Field.accepts_of_required hname, Field.accepts_of_required hkey,
      Field.accepts_of_required hident, Field.accepts_of_withDefault nofun hshortcuts,
      Field.accepts_of_withDefault nofun hsubgroups, List.forall_mem_nil _⟩
  | document =>
    obtain ⟨fields, hfields, ha⟩ := Option.bind_eq_some_iff.1 ha
    obtain ⟨_, hversion, ha⟩ := Option.bind_eq_some_iff.1 ha
    obtain ⟨_, hfrom, ha⟩ := Option.bind_eq_some_iff.1 ha
    obtain ⟨_, hnote, ha⟩ := Option.bind_eq_some_iff.1 ha
    obtain ⟨_, hcategories, -⟩ := Option.bind_eq_some_iff.1 ha
    refine ⟨fields, hfields, ?_⟩
    simp only [Shape.fields, List.forall_mem_cons]
    exact ⟨Field.accepts_of_required hversion, Field.accepts_of_required hfrom,
      Field.accepts_of_required hnote, Field.accepts_of_required hcategories,
      List.forall_mem_nil _⟩
  | _ => exact absurd rfl hs

/-! ## Entries -/

section Entry

variable {inside : Bool} {members : List (Literal × Json)}

/-- The kind of an entry with these members, if it is told once and every name has a text. -/
def kindIn? (inside : Bool) (members : List (Literal × Json)) : Option Entry.Kind :=
  (record? [Entry.kindField] (.object members)).bind fun fields =>
    (fields.lookup Entry.kindField).bind (Entry.Kind.ofJson? inside)

/-- The entry that is a record of this kind. -/
def entryOfKind : (kind : Entry.Kind) → (ofKind kind).Value → Entry
  | .shortcut => .shortcut
  | .group => .group

/-- An entry is read as the record of its kind. -/
theorem readWithin?_object (inside : Bool) (levels : Nat) (members : List (Literal × Json)) :
    Entry.readWithin? inside (levels + 1) (.object members) =
      (kindIn? inside members).bind fun kind =>
        ((ofKind kind).read? levels (.object members)).map (entryOfKind kind) := by
  simp only [Entry.readWithin?, Entry.tagged?, kindIn?, Option.bind_eq_bind, Option.bind_assoc,
    Option.bind_some]
  refine Option.bind_congr fun fields _ => Option.bind_congr fun v _ => ?_
  refine Option.bind_congr fun k _ => ?_
  cases k <;> rfl

theorem kindIn?_of_single (h : Single [Entry.kindField] members) :
    kindIn? inside members = kindOf? inside members := by
  rw [kindIn?, record?_of_single h, Option.bind_some, lookup_fieldsAmong, if_pos (by simp), kindOf?]

theorem kindIn?_of_not_single (h : ¬ Single [Entry.kindField] members) :
    kindIn? inside members = none := by
  rw [kindIn?, record?_of_not_single h, Option.bind_none]

theorem kindOf?_of_kindIn? {kind : Entry.Kind} (h : kindIn? inside members = some kind) :
    kindOf? inside members = some kind := by
  by_cases hsingle : Single [Entry.kindField] members
  · rwa [kindIn?_of_single hsingle] at h
  · rw [kindIn?_of_not_single hsingle] at h
    cases h

theorem kindIn?_eq_of_alike {members' : List (Literal × Json)}
    (h : Alike [Entry.kindField] members members') :
    kindIn? inside members' = kindIn? inside members := by
  by_cases hsingle : Single [Entry.kindField] members
  · rw [kindIn?_of_single hsingle, kindIn?_of_single (h.1.2 hsingle), kindOf?, kindOf?,
      h.2 hsingle _ (by simp)]
  · rw [kindIn?_of_not_single hsingle, kindIn?_of_not_single fun h' => hsingle (h.1.1 h')]

theorem kindField_not_mem (kind : Entry.Kind) : Entry.kindField ∉ (ofKind kind).names := by
  cases kind <;> decide

theorem fields_ofKind_ne_nil (kind : Entry.Kind) : (ofKind kind).fields ≠ [] := by
  cases kind <;> exact nofun

end Entry

/-- Whatever is read alike with the fields among members is read alike. -/
theorem read?_eq_of_alike (hs : s.fields ≠ []) {members members' : List (Literal × Json)}
    (h : Alike s.names members members') :
    s.read? levels (.object members') = s.read? levels (.object members) := by
  by_cases hsingle : Single s.names members
  · refine read?_eq_of_lookup hs (record?_of_single hsingle) (record?_of_single (h.1.2 hsingle)) ?_
    intro name
    rw [lookup_fieldsAmong, lookup_fieldsAmong]
    split
    case isTrue hname => exact h.2 hsingle name hname
    case isFalse => rfl
  · have hsingle' : ¬ Single s.names members' := fun h' => hsingle (h.1.1 h')
    rw [read?_eq_none_of_record? hs (record?_of_not_single hsingle),
      read?_eq_none_of_record? hs (record?_of_not_single hsingle')]

end HotkeyTree.Document.Shape
