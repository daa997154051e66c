import HotkeyTree.Proofs.Json.Record
import HotkeyTree.Proofs.Lookup

/-!
# Proofs: records and mappings do not depend on more than they read

Of the members of an object a record takes those with the names of its fields. Whether it can be
taken at all, and what it finds under a name, is a matter of these members alone, in any order. A
mapping takes all members, and what it makes of one of them is what its value is read as.
-/

namespace HotkeyTree.Json

/-! ## Fields among members -/

/-- A record with fields of these names can be taken from the members: all names have a text, and
none of these names is there twice. -/
def Single (names : List String) (members : List (Literal × Json)) : Prop :=
  (∀ m ∈ members, m.1.isSome) ∧ ∀ name ∈ names, (members.map Prod.fst).count (some name) ≤ 1

variable {names : List String} {members members' : List (Literal × Json)} {name : String}

theorem named?_eq_none (h : ¬ ∀ m ∈ members, m.1.isSome) : named? members = none := by
  induction members with
  | nil => exact absurd (List.forall_mem_nil _) h
  | cons m members ih =>
    obtain ⟨k, v⟩ := m
    cases k with
    | none => simp [named?, List.mapM_cons]
    | some k =>
      have htail : ¬ ∀ m ∈ members, m.1.isSome := fun hall =>
        h (List.forall_mem_cons.2 ⟨rfl, hall⟩)
      have hcons := named?_member_append k v members
      rw [ih htail] at hcons
      exact hcons

/-- The fields with these names among the members. -/
def fieldsAmong (names : List String) (members : List (Literal × Json)) : List (String × Json) :=
  (texts members).filter fun m => names.contains m.1

theorem fieldsAmong_cons_none (names : List String) (v : Json) (members : List (Literal × Json)) :
    fieldsAmong names ((none, v) :: members) = fieldsAmong names members := rfl

theorem fieldsAmong_cons_some (names : List String) (k : String) (v : Json)
    (members : List (Literal × Json)) :
    fieldsAmong names ((some k, v) :: members) =
      if k ∈ names then (k, v) :: fieldsAmong names members else fieldsAmong names members := by
  have htexts : texts ((some k, v) :: members) = (k, v) :: texts members := rfl
  rw [fieldsAmong, htexts, List.filter_cons]
  simp [fieldsAmong]

theorem count_fieldsAmong (names : List String) (members : List (Literal × Json)) (name : String) :
    ((fieldsAmong names members).map Prod.fst).count name =
      if name ∈ names then (members.map Prod.fst).count (some name) else 0 := by
  induction members with
  | nil => simp [fieldsAmong, texts]
  | cons m members ih =>
    obtain ⟨k, v⟩ := m
    cases k with
    | none =>
      rw [fieldsAmong_cons_none, ih, List.map_cons, List.count_cons_of_ne (by simp)]
    | some k =>
      rw [fieldsAmong_cons_some]
      by_cases hk : k = name
      · subst hk
        by_cases hmem : k ∈ names
        · rw [if_pos hmem, if_pos hmem, List.map_cons, List.map_cons, List.count_cons_self,
            List.count_cons_self, ih, if_pos hmem]
        · rw [if_neg hmem, if_neg hmem, ih, if_neg hmem]
      · have hcount : List.count (some name) (some k :: members.map Prod.fst) =
            (members.map Prod.fst).count (some name) := List.count_cons_of_ne (by simpa using hk)
        rw [List.map_cons, hcount, ← ih]
        split
        · rw [List.map_cons, List.count_cons_of_ne hk]
        · rfl

theorem lookup_fieldsAmong (names : List String) (members : List (Literal × Json)) (name : String) :
    (fieldsAmong names members).lookup name =
      if name ∈ names then members.lookup (some name) else none := by
  induction members with
  | nil => simp [fieldsAmong, texts]
  | cons m members ih =>
    obtain ⟨k, v⟩ := m
    cases k with
    | none => rw [fieldsAmong_cons_none, ih, lookup_cons_of_ne (by simp)]
    | some k =>
      rw [fieldsAmong_cons_some]
      by_cases hk : name = k
      · subst hk
        by_cases hmem : name ∈ names
        · rw [if_pos hmem, if_pos hmem, List.lookup_cons_self, List.lookup_cons_self]
        · rw [if_neg hmem, if_neg hmem, ih, if_neg hmem]
      · rw [lookup_cons_of_ne (by simpa using hk), ← ih]
        split
        · exact lookup_cons_of_ne hk _ _
        · rfl

theorem record?_of_single (h : Single names members) :
    record? names (.object members) = some (fieldsAmong names members) := by
  have hnodup : ((fieldsAmong names members).map Prod.fst).Nodup := by
    rw [List.nodup_iff_count_le_one]
    intro name
    rw [count_fieldsAmong]
    split
    case isTrue hname => exact h.2 name hname
    case isFalse => omega
  simp only [record?, named?_eq h.1, Option.bind_eq_bind, Option.bind_some]
  exact if_pos hnodup

theorem record?_of_not_single (h : ¬ Single names members) :
    record? names (.object members) = none := by
  by_cases hnames : ∀ m ∈ members, m.1.isSome
  · have hnodup : ¬ ((fieldsAmong names members).map Prod.fst).Nodup := by
      intro hnodup
      refine h ⟨hnames, fun name hname => ?_⟩
      have hcount := List.nodup_iff_count_le_one.1 hnodup name
      rwa [count_fieldsAmong, if_pos hname] at hcount
    simp only [record?, named?_eq hnames, Option.bind_eq_bind, Option.bind_some]
    exact if_neg hnodup
  · simp only [record?, named?_eq_none hnames, Option.bind_eq_bind, Option.bind_none]

/-! ## Members that are read alike -/

/-- The same fields with the same values under these names, or none at all. -/
def Alike (names : List String) (members members' : List (Literal × Json)) : Prop :=
  (Single names members' ↔ Single names members) ∧
    (Single names members → ∀ name ∈ names,
      members'.lookup (some name) = members.lookup (some name))

/-- Members in another order, with further ones among them that are none of the fields. -/
theorem alike_of_perm {added : List (Literal × Json)} (h : members'.Perm (added ++ members))
    (hadded : ∀ m ∈ added, ∃ name v, m = (some name, v) ∧ name ∉ names) :
    Alike names members members' := by
  have hcount : ∀ name ∈ names,
      ((added ++ members).map Prod.fst).count (some name) =
        (members.map Prod.fst).count (some name) := by
    intro name hname
    have hzero : (added.map Prod.fst).count (some name) = 0 := by
      rw [List.count_eq_zero]
      intro hmem
      obtain ⟨m, hm, heq⟩ := List.mem_map.1 hmem
      obtain ⟨other, v, rfl, hother⟩ := hadded m hm
      exact hother (Option.some.inj heq ▸ hname)
    rw [List.map_append, List.count_append, hzero, Nat.zero_add]
  have hnamed : (∀ m ∈ members', m.1.isSome) ↔ ∀ m ∈ members, m.1.isSome := by
    constructor
    · exact fun hall m hm => hall m (h.mem_iff.2 (List.mem_append_right _ hm))
    · intro hall m hm
      rcases List.mem_append.1 (h.mem_iff.1 hm) with hm | hm
      · obtain ⟨name, v, rfl, -⟩ := hadded m hm
        rfl
      · exact hall m hm
  refine ⟨and_congr hnamed (forall₂_congr fun name hname => ?_), fun hsingle name hname => ?_⟩
  · rw [(h.map Prod.fst).count_eq, hcount name hname]
  · have hle := hsingle.2 name hname
    rw [← hcount name hname] at hle
    rw [lookup_eq_of_perm h hle, List.lookup_append]
    have hnone : added.lookup (some name) = none := by
      rw [List.lookup_eq_none_iff]
      intro m hm
      obtain ⟨other, v, rfl, hother⟩ := hadded m hm
      have hne : name ≠ other := fun heq => hother (heq ▸ hname)
      simpa using hne
    rw [hnone, Option.none_or]

section Replace

variable {before after : List (Literal × Json)} {v v' : Json}

theorem single_replace (k : Literal) (v v' : Json) :
    Single names (before ++ (k, v') :: after) ↔ Single names (before ++ (k, v) :: after) := by
  simp only [Single, List.forall_mem_append, List.forall_mem_cons, List.map_append, List.map_cons]

theorem lookup_replace_of_ne {k k' : Literal} (h : k' ≠ k) (v v' : Json) :
    (before ++ (k, v') :: after).lookup k' = (before ++ (k, v) :: after).lookup k' := by
  rw [List.lookup_append, List.lookup_append, lookup_cons_of_ne h, lookup_cons_of_ne h]

theorem lookup_of_single (h : Single names (before ++ (some name, v) :: after))
    (hname : name ∈ names) : (before ++ (some name, v) :: after).lookup (some name) = some v := by
  have hcount := h.2 name hname
  have hbefore : before.lookup (some name) = none := by
    rw [List.lookup_eq_none_iff]
    rintro ⟨k, w⟩ hm
    by_contra hk
    obtain rfl : some name = k := by simpa using hk
    have hpos : 0 < (before.map Prod.fst).count (some name) :=
      List.count_pos_iff.2 (List.mem_map_of_mem hm)
    simp only [List.map_append, List.map_cons, List.count_append, List.count_cons_self] at hcount
    omega
  rw [List.lookup_append, hbefore]
  simp

/-- Another value under a name that is none of the fields. -/
theorem alike_replace (h : name ∉ names) (v v' : Json) :
    Alike names (before ++ (some name, v) :: after) (before ++ (some name, v') :: after) := by
  refine ⟨single_replace _ v v', fun _ other hother => ?_⟩
  have hne : other ≠ name := fun heq => h (heq ▸ hother)
  exact lookup_replace_of_ne (by simpa using hne) v v'

end Replace

/-! ## Mappings -/

section Mapping

variable {α : Type} {read : Json → Option α} {before after : List (Literal × Json)} {k : Literal}
  {v v' : Json}

/-- What a mapping takes from a member. -/
def slot? (read : Json → Option α) (m : Literal × Json) : Option (String × α) :=
  m.1.bind fun k => (read m.2).map fun a => (k, a)

theorem mapping?_object_eq_mapM (read : Json → Option α) (members : List (Literal × Json)) :
    mapping? read (.object members) = (members.mapM (slot? read)).map Keyed.ofPairs := by
  have hentries : ((named? members).bind fun fields =>
      fields.mapM fun m => (read m.2).map fun a => (m.1, a)) = members.mapM (slot? read) := by
    induction members with
    | nil => rfl
    | cons m members ih =>
      obtain ⟨k, w⟩ := m
      cases k with
      | none => simp [named?, List.mapM_cons, slot?]
      | some k =>
        have hcons : named? ((some k, w) :: members) = (named? members).map ((k, w) :: ·) :=
          named?_member_append k w members
        rw [hcons, List.mapM_cons, ← ih]
        cases hnamed : named? members with
        | none => cases hw : read w <;> simp [slot?, hw]
        | some fields => simp [List.mapM_cons, slot?]
  rw [← hentries, mapping?]
  cases named? members with
  | none => rfl
  | some fields =>
    simp only [Option.bind_eq_bind, Option.bind_some]
    rw [Option.map_eq_bind]
    rfl

theorem mapping?_replace (h : read v' = read v) :
    mapping? read (.object (before ++ (k, v') :: after)) =
      mapping? read (.object (before ++ (k, v) :: after)) := by
  simp only [mapping?_object_eq_mapM, List.mapM_append, List.mapM_cons, slot?, h]

theorem mapping?_eq_none (h : read v = none) :
    mapping? read (.object (before ++ (k, v) :: after)) = none := by
  have hslot : slot? read (k, v) = none := by
    cases k with
    | none => rfl
    | some k => simp [slot?, h]
  rw [mapping?_object_eq_mapM, List.mapM_append, List.mapM_cons, hslot]
  cases before.mapM (slot? read) <;> rfl

end Mapping

/-! ## Strict values -/

theorem itemsAreStrict_eq_all (levels : Nat) (items : List Json) :
    itemsAreStrict levels items = items.all fun v => isStrict levels v := by
  induction items with
  | nil => rfl
  | cons v items ih => rw [itemsAreStrict, ih, List.all_cons]

theorem membersAreStrict_eq_all (levels : Nat) (members : List (Literal × Json)) :
    membersAreStrict levels members = members.all fun m => memberIsStrict levels m := by
  induction members with
  | nil => rfl
  | cons m members ih => rw [membersAreStrict, ih, List.all_cons]

theorem isStrict_array (levels : Nat) (items : List Json) :
    isStrict levels (.array items) =
      (decide (0 < levels) && items.all fun v => isStrict (levels - 1) v) := by
  rw [isStrict, itemsAreStrict_eq_all]

theorem isStrict_object (levels : Nat) (members : List (Literal × Json)) :
    isStrict levels (.object members) =
      (decide (0 < levels) && members.all fun m => memberIsStrict (levels - 1) m) := by
  rw [isStrict, membersAreStrict_eq_all]

theorem depth_array_le {items : List Json} {n : Nat} :
    depth (.array items) ≤ n + 1 ↔ ∀ v ∈ items, v.depth ≤ n := by
  have hitems : depthOfItems items ≤ n ↔ ∀ v ∈ items, v.depth ≤ n := by
    induction items with
    | nil => simp [depthOfItems]
    | cons v items ih => rw [depthOfItems, Nat.max_le, ih, List.forall_mem_cons]
  rw [depth, Nat.add_le_add_iff_right, hitems]

/-- What can be read in full does not nest too deep. -/
theorem depth_le_of_isStrict {v : Json} {levels : Nat} (h : isStrict levels v) :
    v.depth ≤ levels := by
  induction v using Json.induction generalizing levels with
  | array items ih =>
    rw [isStrict_array, Bool.and_eq_true, decide_eq_true_eq, List.all_eq_true] at h
    obtain ⟨hpos, hitems⟩ := h
    obtain ⟨n, rfl⟩ := Nat.exists_eq_succ_of_ne_zero (Nat.ne_of_gt hpos)
    rw [depth_array_le]
    intro v hv
    exact ih v hv (hitems v hv)
  | object members ih =>
    rw [isStrict_object, Bool.and_eq_true, decide_eq_true_eq, List.all_eq_true] at h
    obtain ⟨hpos, hmembers⟩ := h
    obtain ⟨n, rfl⟩ := Nat.exists_eq_succ_of_ne_zero (Nat.ne_of_gt hpos)
    rw [depth_object_le]
    intro m hm
    have hmember := hmembers m hm
    rw [memberIsStrict, Bool.and_eq_true] at hmember
    exact ih m hm hmember.2
  | _ => simp [depth]

theorem isStrict_replace {before after : List (Literal × Json)} {k : Literal} {v v' : Json}
    {levels : Nat} (h : 0 < levels → isStrict (levels - 1) v' = isStrict (levels - 1) v) :
    isStrict levels (.object (before ++ (k, v') :: after)) =
      isStrict levels (.object (before ++ (k, v) :: after)) := by
  rw [isStrict_object, isStrict_object]
  by_cases hpos : 0 < levels
  · simp only [List.all_append, List.all_cons, memberIsStrict, h hpos]
  · rw [decide_eq_false hpos, Bool.false_and, Bool.false_and]

end HotkeyTree.Json
