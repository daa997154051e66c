import HotkeyTree.Node.Json
import HotkeyTree.Proofs.Document.Normalization
import HotkeyTree.Proofs.Tree

/-!
# Proofs: the encodings of a node

A node can be written in many ways: as an object with its members in any order, with others among
them, and with or without those that are `null`, or as an array, cut off anywhere in a run of `null`
at its end; and each node below it in a way of its own. All of them are read as the same node, or
none is: nodes and child lists may nest no deeper than the text they are read from.
-/

namespace HotkeyTree.Node

open Json

/-! ## Encodings -/

/-- All fields of a node, where `children` stands for its child list. -/
def fieldMembers (a : Attributes) (children : Json) : List (Literal × Json) :=
  attributeMembers a ++ member "children" children

mutual

/-- A value that stands for a node. -/
inductive Encodes : Node → Json → Prop
  /-- An object: some of the fields that are `null` are left out, members that are no fields are
  added, and all are in any order. -/
  | object {a : Attributes} {children : Option (List Node)} {v : Json}
      {kept added members : List (Literal × Json)} (hchildren : EncodesChildren children v)
      (hkept : kept.Sublist (fieldMembers a v))
      (hleft : ∀ m ∈ fieldMembers a v, m ∈ kept ∨ m.2 = .null)
      (hadded : ∀ m ∈ added, ∃ name w, m = (some name, w) ∧ name ∉ fieldNames)
      (hmembers : members.Perm (added ++ kept)) : Encodes ⟨a, children⟩ (.object members)
  /-- An array of the values of the fields: at the end some that are `null` are cut off. -/
  | array {a : Attributes} {children : Option (List Node)} {v : Json} {items : List Json}
      {cut : Nat} (hchildren : EncodesChildren children v)
      (hitems : items ++ List.replicate cut .null = (fieldMembers a v).map Prod.snd) :
      Encodes ⟨a, children⟩ (.array items)

/-- A value that stands for a child list, or for the lack of one. -/
inductive EncodesChildren : Option (List Node) → Json → Prop
  | absent : EncodesChildren none .null
  | list {ns : List Node} {vs : List Json} (h : List.Forall₂ Encodes ns vs) :
      EncodesChildren (some ns) (.array vs)

end

theorem names_fieldMembers (a : Attributes) (v : Json) :
    (fieldMembers a v).map Prod.fst = fieldNames.map some := rfl

/-! ## What a record shows -/

/-- Under the name there is this value, or none if it is `null`. -/
def Shows (fields : List (String × Json)) (name : String) (v : Json) : Prop :=
  fields.lookup name = some v ∨ fields.lookup name = none ∧ v = .null

theorem optional_of_shows {α : Type} {fields : List (String × Json)} {name : String} {v : Json}
    (h : Shows fields name v) (read : Json → Option α) :
    Json.optional fields name read = nullable read v := by
  rcases h with h | ⟨h, rfl⟩
  · rw [Json.optional, withDefault_of_lookup h]
  · rw [Json.optional, withDefault, h]
    rfl

theorem nullable_orNull {α : Type} {write : α → Json} {read : Json → Option α}
    (hread : ∀ a, read (write a) = some a) (hnull : ∀ a, write a ≠ .null) (o : Option α) :
    nullable read (orNull write o) = some o := by
  cases o with
  | none => rfl
  | some a =>
    rw [orNull, nullable]
    · rw [hread, Option.map_some]
    · exact hnull a

/-- The fields of a node are all shown. -/
def ShowsAll (fields : List (String × Json)) (a : Attributes) (v : Json) : Prop :=
  ∀ name w, (some name, w) ∈ fieldMembers a v → Shows fields name w

theorem ShowsAll.optional_eq {fields : List (String × Json)} {a : Attributes} {v : Json}
    (h : ShowsAll fields a v) {α : Type} {name : String} {write : α → Json} {read : Json → Option α}
    {o : Option α} (hmem : (some name, orNull write o) ∈ fieldMembers a v)
    (hread : ∀ a, read (write a) = some a) (hnull : ∀ a, write a ≠ .null) :
    Json.optional fields name read = some o := by
  rw [optional_of_shows (h _ _ hmem), nullable_orNull hread hnull]

theorem attributesOf?_of_showsAll {fields : List (String × Json)} {a : Attributes} {v : Json}
    (h : ShowsAll fields a v) : attributesOf? fields = some a := by
  have htext : ∀ {name : String} {o : Option String},
      (some name, orNull ofText o) ∈ fieldMembers a v →
      Json.optional fields name text? = some o :=
    fun hmem => h.optional_eq hmem text?_ofText (by simp [ofText])
  have hint : ∀ {name : String} {o : Option Int64},
      (some name, orNull ofInt64 o) ∈ fieldMembers a v →
      Json.optional fields name int64? = some o :=
    fun hmem => h.optional_eq hmem int64?_ofInt64 (by simp [ofInt64])
  have hbool : ∀ {name : String} {o : Option Bool},
      (some name, orNull .bool o) ∈ fieldMembers a v →
      Json.optional fields name bool? = some o :=
    fun hmem => h.optional_eq hmem bool?_bool (by simp)
  have hname : Json.optional fields "name" text? = some a.name :=
    htext (by simp [fieldMembers, attributeMembers, mem_member])
  have hnodeClass : Json.optional fields "nodeClass" text? = some a.nodeClass :=
    htext (by simp [fieldMembers, attributeMembers, mem_member])
  have hhotkeyId : Json.optional fields "hotkeyId" int64? = some a.hotkeyId :=
    hint (by simp [fieldMembers, attributeMembers, mem_member])
  have hslowHotkeyId : Json.optional fields "slowHotkeyId" int64? = some a.slowHotkeyId :=
    hint (by simp [fieldMembers, attributeMembers, mem_member])
  have hidentifier : Json.optional fields "identifier" text? = some a.identifier :=
    htext (by simp [fieldMembers, attributeMembers, mem_member])
  have hkey : Json.optional fields "key" text? = some a.key :=
    htext (by simp [fieldMembers, attributeMembers, mem_member])
  have hmodifier : Json.optional fields "modifier" int64? = some a.modifier :=
    hint (by simp [fieldMembers, attributeMembers, mem_member])
  have hcharKey : Json.optional fields "charKey" text? = some a.charKey :=
    htext (by simp [fieldMembers, attributeMembers, mem_member])
  have henabled : Json.optional fields "enabled" bool? = some a.enabled :=
    hbool (by simp [fieldMembers, attributeMembers, mem_member])
  have hdynamic : Json.optional fields "dynamic" bool? = some a.dynamic :=
    hbool (by simp [fieldMembers, attributeMembers, mem_member])
  simp only [attributesOf?, hname, hnodeClass, hhotkeyId, hslowHotkeyId, hidentifier, hkey,
    hmodifier, hcharKey, henabled, hdynamic, Option.bind_eq_bind, Option.bind_some]

theorem readWithin?_succ (levels : Nat) (w : Json) :
    readWithin? (levels + 1) w = (record? fieldNames w).bind fun fields =>
      (attributesOf? fields).bind fun a =>
        (Json.optional fields "children" (listWithin? levels)).bind fun children =>
          some ⟨a, children⟩ := by
  cases levels <;> rfl

/-- What the fields show is what is read, as far as the child list is read. -/
theorem readWithin?_of_showsAll {fields : List (String × Json)} {a : Attributes} {v w : Json}
    {levels : Nat} (hw : record? fieldNames w = some fields) (h : ShowsAll fields a v) :
    readWithin? (levels + 1) w =
      (nullable (listWithin? levels) v).bind fun children => some ⟨a, children⟩ := by
  have hchildren := h "children" v (by simp [fieldMembers, mem_member])
  rw [readWithin?_succ, hw, Option.bind_some, attributesOf?_of_showsAll h, Option.bind_some,
    optional_of_shows hchildren]

/-! ## Objects and arrays -/

theorem showsAll_of_object {a : Attributes} {v : Json} {kept added members : List (Literal × Json)}
    (hkept : kept.Sublist (fieldMembers a v))
    (hleft : ∀ m ∈ fieldMembers a v, m ∈ kept ∨ m.2 = .null)
    (hadded : ∀ m ∈ added, ∃ name w, m = (some name, w) ∧ name ∉ fieldNames)
    (hmembers : members.Perm (added ++ kept)) :
    ∃ fields, record? fieldNames (.object members) = some fields ∧ ShowsAll fields a v := by
  have hnames : ((fieldMembers a v).map Prod.fst).Nodup := by
    rw [names_fieldMembers]
    decide
  have hkeptNames := hnames.sublist (hkept.map Prod.fst)
  have hsingle : Single fieldNames kept := by
    refine ⟨?_, fun name _ => List.nodup_iff_count_le_one.1 hkeptNames (some name)⟩
    intro m hm
    have hname : m.1 ∈ fieldNames.map some := by
      rw [← names_fieldMembers a v]
      exact List.mem_map_of_mem (hkept.subset hm)
    obtain ⟨name, -, heq⟩ := List.mem_map.1 hname
    rw [← heq]
    rfl
  have halike := alike_of_perm hmembers hadded
  refine ⟨_, record?_of_single (halike.1.2 hsingle), ?_⟩
  intro name w hmem
  have hname : name ∈ fieldNames := by
    have hfst : some name ∈ (fieldMembers a v).map Prod.fst := List.mem_map_of_mem hmem
    rw [names_fieldMembers] at hfst
    simpa using hfst
  rw [Shows, lookup_fieldsAmong, if_pos hname, halike.2 hsingle name hname]
  -- no name is there twice, so what is found under the name is the field itself
  cases hlookup : kept.lookup (some name) with
  | none =>
    have hnot : (some name, w) ∉ kept := by
      intro hkept
      have hne := List.lookup_eq_none_iff.1 hlookup _ hkept
      simp at hne
    exact Or.inr ⟨rfl, (hleft _ hmem).resolve_left hnot⟩
  | some w' =>
    obtain ⟨before, after, hsplit, -⟩ := List.lookup_eq_some_iff.1 hlookup
    have hmem' : (some name, w') ∈ fieldMembers a v := hkept.subset (by simp [hsplit])
    have hsame := List.inj_on_of_nodup_map hnames hmem' hmem rfl
    exact Or.inl (congrArg (fun m => some m.2) hsame)

/-- Of an array, the names of the fields go with the values in order, as far as there are any. -/
theorem shows_zip {names : List String} (hnames : names.Nodup) {items values : List Json}
    {cut : Nat} (hitems : items ++ List.replicate cut .null = values) {name : String} {w : Json}
    (h : (name, w) ∈ names.zip values) : Shows (names.zip items) name w := by
  induction names generalizing items values with
  | nil => simp at h
  | cons head names ih =>
    obtain ⟨hhead, htail⟩ := List.nodup_cons.1 hnames
    cases items with
    | nil =>
      have hnull : w = .null := by
        rw [← hitems] at h
        exact List.eq_of_mem_replicate (List.of_mem_zip h).2
      exact Or.inr ⟨rfl, hnull⟩
    | cons item items =>
      rw [← hitems, List.cons_append, List.zip_cons_cons] at h
      rcases List.mem_cons.1 h with heq | hrest
      · cases heq
        exact Or.inl (by simp)
      · have hne : name ≠ head := by
          rintro rfl
          exact hhead (List.of_mem_zip hrest).1
        have hshows := ih htail rfl hrest
        rwa [Shows, List.zip_cons_cons, lookup_cons_of_ne hne]

theorem fieldMembers_eq_zip (a : Attributes) (v : Json) :
    fieldMembers a v =
      (fieldNames.zip ((fieldMembers a v).map Prod.snd)).map fun m => (some m.1, m.2) := rfl

theorem showsAll_of_array {a : Attributes} {v : Json} {items : List Json} {cut : Nat}
    (hitems : items ++ List.replicate cut .null = (fieldMembers a v).map Prod.snd) :
    ∃ fields, record? fieldNames (.array items) = some fields ∧ ShowsAll fields a v := by
  have hlength : items.length ≤ fieldNames.length := by
    have hfields : (fieldMembers a v).length = fieldNames.length := rfl
    have htotal := congrArg List.length hitems
    simp only [List.length_append, List.length_replicate, List.length_map] at htotal
    omega
  refine ⟨fieldNames.zip items, if_pos hlength, ?_⟩
  intro name w hmem
  rw [fieldMembers_eq_zip] at hmem
  obtain ⟨m, hm, heq⟩ := List.mem_map.1 hmem
  cases heq
  exact shows_zip (by decide) hitems hm

/-! ## Open brackets -/

theorem depth_orNull {α : Type} {write : α → Json} (h : ∀ a, (write a).depth = 0) (o : Option α) :
    (orNull write o).depth = 0 := by
  cases o with
  | none => rfl
  | some a => exact h a

/-- The attributes of a node open no brackets. -/
theorem depth_fieldMembers (a : Attributes) (v : Json) :
    (Json.object (fieldMembers a v)).depth = v.depth + 1 := by
  have htext := depth_orNull depth_ofText
  have hint := depth_orNull depth_ofInt64
  have hbool := depth_orNull fun b : Bool => (rfl : (Json.bool b).depth = 0)
  simp [fieldMembers, attributeMembers, member, depth, depthOfMembers, depthOfMember, htext, hint,
    hbool]

theorem depth_toJson (a : Attributes) (children : Option (List Node)) :
    (toJson ⟨a, children⟩).depth =
      (children.elim 0 fun ns => depthOfItems (toJsons ns) + 1) + 1 := by
  cases children with
  | none => exact depth_fieldMembers a .null
  | some ns => exact depth_fieldMembers a (.array (toJsons ns))

/-! ## Trees of nodes -/

theorem exists_record_of_encodes {n : Node} {w : Json} (h : Encodes n w) :
    ∃ v fields, EncodesChildren n.children v ∧ record? fieldNames w = some fields ∧
      ShowsAll fields n.toAttributes v := by
  cases h with
  | object hchildren hkept hleft hadded hmembers =>
    obtain ⟨fields, hfields, hshown⟩ := showsAll_of_object hkept hleft hadded hmembers
    exact ⟨_, fields, hchildren, hfields, hshown⟩
  | array hchildren hitems =>
    obtain ⟨fields, hfields, hshown⟩ := showsAll_of_array hitems
    exact ⟨_, fields, hchildren, hfields, hshown⟩

/-- Every encoding of the node is read if its brackets are allowed to open, and none if not. -/
def ReadAtDepth (n : Node) : Prop :=
  ∀ w levels, Encodes n w → readWithin? levels w = if n.toJson.depth ≤ levels then some n else none

/-- A child list is read if each node in it is. -/
theorem list?_of_encodes {ns : List Node} {vs : List Json} (h : List.Forall₂ Encodes ns vs)
    (hread : ∀ c ∈ ns, ReadAtDepth c) (levels : Nat) :
    list? (readWithin? levels) (.array vs) =
      if depthOfItems (toJsons ns) ≤ levels then some ns else none := by
  induction h with
  | nil => rfl
  | @cons c v ns vs hc _ ih =>
    obtain ⟨hfirst, hrest⟩ := List.forall_mem_cons.1 hread
    have htail : vs.mapM (readWithin? levels) = _ := ih hrest
    have hmax : depthOfItems (toJsons (c :: ns)) ≤ levels ↔
        c.toJson.depth ≤ levels ∧ depthOfItems (toJsons ns) ≤ levels := Nat.max_le
    show (v :: vs).mapM (readWithin? levels) = _
    rw [List.mapM_cons, hfirst v levels hc, htail, if_congr hmax rfl rfl]
    by_cases hdepth : c.toJson.depth ≤ levels
    · by_cases hdepths : depthOfItems (toJsons ns) ≤ levels
      · rw [if_pos hdepth, if_pos hdepths, if_pos ⟨hdepth, hdepths⟩]
        rfl
      · rw [if_pos hdepth, if_neg hdepths, if_neg (not_and_of_not_right _ hdepths)]
        rfl
    · rw [if_neg hdepth, if_neg (not_and_of_not_left _ hdepth)]
      rfl

/-- **Every encoding is read**, with at least as many levels as it has brackets open. -/
theorem readAtDepth (n : Node) : ReadAtDepth n := by
  induction n using Node.induction with
  | node n ih =>
    intro w levels h
    obtain ⟨v, fields, hchildren, hfields, hshown⟩ := exists_record_of_encodes h
    obtain ⟨a, children⟩ := n
    rw [depth_toJson]
    cases levels with
    | zero => rfl
    | succ levels =>
      rw [readWithin?_of_showsAll hfields hshown]
      cases hchildren with
      | absent => exact (if_pos (Nat.succ_le_succ (Nat.zero_le levels))).symm
      | @list ns vs hall =>
        cases levels with
        | zero => rfl
        | succ levels =>
          -- the node and its child list open one bracket each, and the nodes in the list the others
          have hlist := list?_of_encodes hall ih levels
          have hopen : depthOfItems (toJsons ns) + 1 + 1 ≤ levels + 1 + 1 ↔
              depthOfItems (toJsons ns) ≤ levels := by omega
          show ((list? (readWithin? levels) (.array vs)).map some).bind _ = _
          rw [Option.elim_some, if_congr hopen rfl rfl, hlist]
          by_cases hdepth : depthOfItems (toJsons ns) ≤ levels
          · rw [if_pos hdepth, if_pos hdepth]
            rfl
          · rw [if_neg hdepth, if_neg hdepth]
            rfl

/-! ## The encoding with all fields -/

theorem forall₂_encodes_toJsons {ns : List Node} (h : ∀ c ∈ ns, Encodes c c.toJson) :
    List.Forall₂ Encodes ns (toJsons ns) := by
  induction ns with
  | nil => exact .nil
  | cons n ns ih =>
    exact .cons (h n List.mem_cons_self) (ih fun c hc => h c (List.mem_cons_of_mem _ hc))

theorem encodes_toJson (n : Node) : Encodes n n.toJson := by
  induction n using Node.induction with
  | node n ih =>
    have hwhole : ∀ {a : Attributes} {children : Option (List Node)} {v : Json},
        EncodesChildren children v → Encodes ⟨a, children⟩ (.object (fieldMembers a v)) :=
      fun hchildren => .object hchildren (List.Sublist.refl _) (fun _ hm => Or.inl hm)
        (List.forall_mem_nil _) (List.Perm.refl _)
    obtain ⟨a, children⟩ := n
    cases children with
    | none => exact hwhole .absent
    | some ns => exact hwhole (.list (forall₂_encodes_toJsons ih))

/-- A node with an empty child list and one without any below it. -/
def familyNode : Node where
  name := some "Fill \x22left\x22"
  hotkeyId := some (-5)
  children := some
    [{ identifier := some "", children := some [] }, { enabled := some false }]

/-- The first node below it, with all its fields. -/
def firstChildJson : Json := .object (fieldMembers { identifier := some "" } (.array []))

/-- The second node below it: the values of its fields, cut off after the last. -/
def secondChildJson : Json :=
  .array [.null, .null, .null, .null, .null, .null, .null, .null, .bool false]

/-- Its own fields that are not `null`. -/
def keptMembers : List (Literal × Json) :=
  [(some "name", ofText "Fill \x22left\x22"), (some "hotkeyId", ofInt64 (-5)),
   (some "children", .array [firstChildJson, secondChildJson])]

/-- These and a further one, from the last to the first. -/
def familyJson : Json := .object ((some "note", .array [.null]) :: keptMembers).reverse

/-- Containers in one another, so many around an empty one. -/
def nestedNode : Nat → Node
  | 0 => { children := some [] }
  | k + 1 => { children := some [nestedNode k] }

theorem depth_nestedNode (k : Nat) : (nestedNode k).toJson.depth = 2 * k + 2 := by
  induction k with
  | zero => rfl
  | succ k ih =>
    rw [nestedNode, depth_toJson, Option.elim_some, toJsons, toJsons, depthOfItems, depthOfItems,
      ih]
    omega

end HotkeyTree.Node
