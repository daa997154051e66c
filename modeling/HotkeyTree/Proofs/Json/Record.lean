import HotkeyTree.Proofs.Json.RoundTrip
import HotkeyTree.Proofs.Keyed

/-!
# Proofs: records and mappings are read from their members

A record is read from the members that are written for it, whichever of its optional fields are
there and whatever other fields stand before them. A mapping in which no key is used twice is read
entry by entry. A value that holds only texts and integers of 64 bits can be read in full exactly
when it does not nest too deep.
-/

namespace HotkeyTree.Json

/-! ## Integers -/

namespace Number

theorem toInt?_ofInt (i : Int) : (ofInt i).toInt? = some i := by
  have hdigits := ofDigits_toDigits i.natAbs
  by_cases hi : i < 0
  · obtain ⟨m, hm⟩ := Nat.exists_eq_succ_of_ne_zero (n := i.natAbs) (by omega)
    rw [hm] at hdigits
    have hread : (ofInt i).toInt? = some (-((m + 1 : Nat) : Int)) := by
      simp [toInt?, ofInt, hm, hdigits, hi]
    exact hread.trans (congrArg some (by omega))
  · have hread : (ofInt i).toInt? = some (i.natAbs : Int) := by
      simp [toInt?, ofInt, hdigits, hi]
    exact hread.trans (congrArg some (by omega))

theorem toInt64?_ofInt (i : Int64) : (ofInt i.toInt).toInt64? = some i := by
  have hlow := Int64.le_toInt i
  have hhigh := Int64.toInt_lt i
  have hfits : -(Bits64.half : Int) ≤ i.toInt ∧ i.toInt < (Bits64.half : Int) := by
    unfold Bits64.half
    omega
  rw [toInt64?, toInt?_ofInt, Option.bind_some, Bits64.signed?, if_pos hfits, Int64.ofInt_toInt]

theorem le_foldl_extend (ds : List Char) (s : Nat) : s ≤ ds.foldl extend s := by
  induction ds generalizing s with
  | nil => exact Nat.le_refl s
  | cons d ds ih =>
    have htail := ih (extend s d)
    have hhead : s ≤ extend s d := by
      unfold extend
      omega
    exact Nat.le_trans hhead htail

/-- No digit is left out of a number that fits into 64 bits. -/
theorem takeWhole_eq {ds : List Char} {s : Nat} (h : ds.foldl extend s < Bits64.count) :
    takeWhole s ds = (ds.foldl extend s, 0) := by
  induction ds generalizing s with
  | nil => rfl
  | cons d ds ih =>
    have hfits := Nat.lt_of_le_of_lt (le_foldl_extend ds (extend s d)) h
    rw [takeWhole, if_pos hfits]
    exact ih h

/-- Rounding at most doubles a number. -/
theorem roundTo53_le (n : Nat) : roundTo53 n ≤ 2 * n := by
  by_cases hn : n = 0
  · subst hn
    decide
  · have hunit : 1 <<< (n.log2 + 1 - 53) ≤ n := by
      rw [Nat.one_shiftLeft]
      exact Nat.le_trans (Nat.pow_le_pow_right (by decide) (by omega)) (Nat.log2_self_le hn)
    have hdiv := Nat.div_mul_le_self n (1 <<< (n.log2 + 1 - 53))
    simp only [roundTo53, Nat.add_mul]
    split <;> omega

theorem scaled_ofInt {i : Int} (h : i.natAbs < Bits64.count) :
    (ofInt i).scaled = (i.natAbs, 0) := by
  have hdigits : (Nat.toDigits 10 i.natAbs).foldl extend 0 = i.natAbs :=
    ofDigits_toDigits i.natAbs
  have htake : takeWhole 0 (Nat.toDigits 10 i.natAbs) = (i.natAbs, 0) := by
    rw [takeWhole_eq (by rw [hdigits]; exact h), hdigits]
  simp [scaled, ofInt, htake, takeFraction]

/-- An integer of 64 bits is in range. -/
theorem inRange_ofInt {i : Int} (h : i.natAbs < Bits64.count) : (ofInt i).inRange := by
  have hone : roundTo53 (Nat.pow 10 (Int.toNat 0)) = 1 := by decide
  have hlimit : 4 * Bits64.count < 1 <<< 1024 := by decide
  have hround : roundTo53 (roundTo53 i.natAbs * 1) < 1 <<< 1024 :=
    calc roundTo53 (roundTo53 i.natAbs * 1) ≤ 2 * (roundTo53 i.natAbs * 1) := roundTo53_le _
      _ ≤ 4 * i.natAbs := by have hfirst := roundTo53_le i.natAbs; omega
      _ < 4 * Bits64.count := Nat.mul_lt_mul_of_pos_left h (by decide)
      _ < 1 <<< 1024 := hlimit
  simp only [inRange, scaled_ofInt h, hone, decide_eq_true_eq]
  exact Or.inr (Or.inr ⟨by decide, hround⟩)

end Number

theorem int64?_ofInt64 (i : Int64) : int64? (ofInt64 i) = some i :=
  Number.toInt64?_ofInt i

theorem text?_ofText (s : String) : text? (ofText s) = some s := rfl

theorem bool?_bool (b : Bool) : bool? (.bool b) = some b := rfl

/-! ## Fields -/

/-- The members whose names have a text, by their texts. -/
def texts (members : List (Literal × Json)) : List (String × Json) :=
  members.filterMap fun m => m.1.map fun k => (k, m.2)

/-- Members that are written under some of these names, in this order. -/
structure Under (names : List String) (members : List (Literal × Json)) : Prop where
  named : ∀ m ∈ members, m.1.isSome
  sublist : ((texts members).map Prod.fst).Sublist names

theorem texts_append (ms ms' : List (Literal × Json)) : texts (ms ++ ms') = texts ms ++ texts ms' :=
  List.filterMap_append

theorem mem_member {m : Literal × Json} {name : String} {v : Json} :
    m ∈ member name v ↔ m = (some name, v) :=
  List.mem_singleton

theorem lookup_member (name name' : String) (v : Json) :
    (texts (member name' v)).lookup name = if name = name' then some v else none := by
  by_cases h : name = name'
  · simp [texts, member, h]
  · simp [texts, member, List.lookup_cons, beq_false_of_ne h, h]

theorem lookup_present {α : Type} (name name' : String) (write : α → Json) (o : Option α) :
    (texts (present name' write o)).lookup name = if name = name' then o.map write else none := by
  cases o with
  | none => simp [texts, present]
  | some a => exact lookup_member name name' (write a)

theorem Under.append {names names' : List String} {ms ms' : List (Literal × Json)}
    (h : Under names ms) (h' : Under names' ms') : Under (names ++ names') (ms ++ ms') := by
  refine ⟨fun m hm => (List.mem_append.1 hm).elim (h.named m) (h'.named m), ?_⟩
  rw [texts_append, List.map_append]
  exact List.Sublist.append h.sublist h'.sublist

theorem under_member (name : String) (v : Json) : Under [name] (member name v) :=
  ⟨by simp [member], List.Sublist.refl _⟩

theorem under_present {α : Type} (name : String) (write : α → Json) (o : Option α) :
    Under [name] (present name write o) := by
  cases o with
  | none => exact ⟨by simp [present], List.nil_sublist _⟩
  | some a => exact under_member name (write a)

theorem texts_map {α : Type} (write : α → Json) (m : Keyed α) :
    texts (m.map fun e => (some e.1, write e.2)) = m.map fun e => (e.1, write e.2) := by
  simp [texts, List.filterMap_map]

theorem under_map {α : Type} (write : α → Json) (m : Keyed α) :
    Under m.keys (m.map fun e => (some e.1, write e.2)) := by
  refine ⟨List.forall_mem_map.2 fun _ _ => rfl, ?_⟩
  rw [texts_map, List.map_map]
  exact List.Sublist.refl _

theorem named?_member_append (name : String) (v : Json) (members : List (Literal × Json)) :
    named? (member name v ++ members) = (named? members).map ((name, v) :: ·) := by
  cases hnamed : named? members <;> simp_all [named?, member, List.mapM_cons]

theorem named?_eq {members : List (Literal × Json)} (h : ∀ m ∈ members, m.1.isSome) :
    named? members = some (texts members) := by
  induction members with
  | nil => rfl
  | cons m members ih =>
    obtain ⟨k, v⟩ := m
    obtain ⟨k, rfl⟩ := Option.isSome_iff_exists.1 (h (k, v) List.mem_cons_self)
    have htail := ih fun m hm => h m (List.mem_cons_of_mem _ hm)
    have hcons := named?_member_append k v members
    rw [htail] at hcons
    exact hcons

/-- The fields that are read are the members that were written. -/
theorem record?_object {names : List String} {members : List (Literal × Json)}
    (hnames : names.Nodup) (h : Under names members) :
    record? names (.object members) = some (texts members) := by
  have hfilter : (texts members).filter (fun m => names.contains m.1) = texts members := by
    rw [List.filter_eq_self]
    intro m hm
    simpa using h.sublist.subset (List.mem_map_of_mem hm)
  simp only [record?, named?_eq h.named, Option.bind_eq_bind, Option.bind_some, hfilter]
  rw [if_pos (hnames.sublist h.sublist)]

/-- A member that is none of the fields does not matter. -/
theorem record?_member_append {names : List String} {name : String} (h : name ∉ names) (v : Json)
    (members : List (Literal × Json)) :
    record? names (.object (member name v ++ members)) = record? names (.object members) := by
  cases hnamed : named? members with
  | none => simp [record?, named?_member_append, hnamed]
  | some fields => simp [record?, named?_member_append, hnamed, h]

theorem required_of_lookup {α : Type} {fields : List (String × Json)} {name : String} {v : Json}
    (h : fields.lookup name = some v) (read : Json → Option α) :
    required fields name read = read v := by
  simp [required, h]

theorem withDefault_of_lookup {α : Type} {fields : List (String × Json)} {name : String} {v : Json}
    (h : fields.lookup name = some v) (missing : α) (read : Json → Option α) :
    withDefault fields name missing read = read v := by
  simp [withDefault, h]

/-- An optional field is read back, whether it was written or not. -/
theorem optional_of_lookup {α : Type} {fields : List (String × Json)} {name : String}
    {write : α → Json} {read : Json → Option α} {o : Option α}
    (h : fields.lookup name = o.map write) (hread : ∀ a, read (write a) = some a)
    (hnull : ∀ a, write a ≠ .null) : optional fields name read = some o := by
  cases o with
  | none => simp [optional, withDefault, h]
  | some a =>
    have hvalue : nullable read (write a) = some (some a) := by
      unfold nullable
      split
      case h_1 heq => exact absurd heq (hnull a)
      case h_2 => simp [hread a]
    simp [optional, withDefault, h, hvalue]

/-! ## Mappings -/

section Mapping

variable {α : Type} {read : Json → Option α} {write : α → Json} {m : Keyed α}

theorem mapping?_eq (m : Keyed α) :
    mapping? read (.object (m.map fun e => (some e.1, write e.2))) =
      (m.mapM fun e => (read (write e.2)).map fun v => (e.1, v)).map Keyed.ofPairs := by
  have hnamed := named?_eq (under_map write m).named
  rw [texts_map] at hnamed
  simp only [mapping?, hnamed, Option.bind_eq_bind, Option.bind_some, List.mapM_map]
  rw [Option.map_eq_bind]
  rfl

/-- A mapping is read back if all its values are. -/
theorem mapping?_of_forall (hm : m.Distinct) (h : ∀ e ∈ m, read (write e.2) = some e.2) :
    mapping? read (.object (m.map fun e => (some e.1, write e.2))) = some m := by
  have hentries : (m.mapM fun e => (read (write e.2)).map fun v => (e.1, v)) = some m := by
    clear hm
    induction m with
    | nil => rfl
    | cons e m ih =>
      have htail := ih fun e he => h e (List.mem_cons_of_mem _ he)
      simp [List.mapM_cons, htail, h e List.mem_cons_self]
  rw [mapping?_eq, hentries, Option.map_some, hm.ofPairs_eq]

/-- A mapping is not read if one of its values is not. -/
theorem mapping?_of_exists (h : ∃ e ∈ m, read (write e.2) = none) :
    mapping? read (.object (m.map fun e => (some e.1, write e.2))) = none := by
  have hentries : (m.mapM fun e => (read (write e.2)).map fun v => (e.1, v)) = none := by
    induction m with
    | nil => simp at h
    | cons e m ih =>
      obtain ⟨e', he', hnone⟩ := h
      rcases List.mem_cons.1 he' with rfl | hmem
      · simp [List.mapM_cons, hnone]
      · have htail := ih ⟨e', hmem, hnone⟩
        cases hhead : read (write e.2) <;> simp [List.mapM_cons, hhead, htail]
  rw [mapping?_eq, hentries, Option.map_none]

/-- A mapping is read back exactly if all its values are readable. -/
theorem mapping?_object (hm : m.Distinct) (readable : α → Prop) [DecidablePred readable]
    (h : ∀ e ∈ m, read (write e.2) = if readable e.2 then some e.2 else none) :
    mapping? read (.object (m.map fun e => (some e.1, write e.2))) =
      if ∀ e ∈ m, readable e.2 then some m else none := by
  split
  case isTrue hall =>
    refine mapping?_of_forall hm fun e he => ?_
    rw [h e he, if_pos (hall e he)]
  case isFalse hall =>
    simp only [not_forall] at hall
    obtain ⟨e, he, hnot⟩ := hall
    refine mapping?_of_exists ⟨e, he, ?_⟩
    rw [h e he, if_neg hnot]

end Mapping

/-! ## Depth -/

/-- Every member has such a value. -/
def Values (P : Json → Prop) (members : List (Literal × Json)) : Prop := ∀ m ∈ members, P m.2

section Values

variable {P : Json → Prop}

theorem values_append {ms ms' : List (Literal × Json)} :
    Values P (ms ++ ms') ↔ Values P ms ∧ Values P ms' :=
  List.forall_mem_append

theorem values_member {name : String} {v : Json} : Values P (member name v) ↔ P v := by
  simp [Values, member]

theorem values_present {α : Type} {name : String} {write : α → Json} {o : Option α} :
    Values P (present name write o) ↔ ∀ a ∈ o, P (write a) := by
  cases o <;> simp [Values, present]

theorem values_map {α : Type} {write : α → Json} {m : Keyed α} :
    Values P (m.map fun e => (some e.1, write e.2)) ↔ ∀ e ∈ m, P (write e.2) :=
  List.forall_mem_map

end Values

theorem depth_object_le {members : List (Literal × Json)} {n : Nat} :
    depth (.object members) ≤ n + 1 ↔ Values (fun v => v.depth ≤ n) members := by
  have hmembers : depthOfMembers members ≤ n ↔ Values (fun v => v.depth ≤ n) members := by
    induction members with
    | nil => simp [depthOfMembers, Values]
    | cons m members ih =>
      obtain ⟨k, v⟩ := m
      rw [depthOfMembers, depthOfMember, Nat.max_le, ih]
      simp [Values]
  rw [depth, Nat.add_le_add_iff_right, hmembers]

theorem depth_ofText (s : String) : (ofText s).depth = 0 := rfl

theorem depth_ofInt64 (i : Int64) : (ofInt64 i).depth = 0 := rfl

/-- A value that holds only texts and numbers in range. -/
def Plain : Json → Prop := Every (fun n => n.WellFormed ∧ n.inRange) fun s => s.isSome

theorem Every.mono {number number' : Number → Prop} {literal literal' : Literal → Prop}
    (hnumber : ∀ n, number n → number' n) (hliteral : ∀ s, literal s → literal' s) {v : Json}
    (h : Every number literal v) : Every number' literal' v := by
  induction h with
  | null => exact .null
  | bool b => exact .bool b
  | number h => exact .number (hnumber _ h)
  | string h => exact .string (hliteral _ h)
  | array _ ih => exact .array ih
  | object hnames _ ih => exact .object (fun m hm => hliteral _ (hnames m hm)) ih

namespace Plain

theorem wellFormed {v : Json} (h : v.Plain) : v.WellFormed :=
  Every.mono (fun _ hn => hn.1) (fun _ _ => trivial) h

theorem ofText (s : String) : (ofText s).Plain := .string rfl

theorem ofInt64 (i : Int64) : (ofInt64 i).Plain := by
  have hlow := Int64.le_toInt i
  have hhigh := Int64.toInt_lt i
  refine .number ⟨Number.wellFormed_ofInt _, Number.inRange_ofInt ?_⟩
  unfold Bits64.count
  omega

theorem object {names : List String} {members : List (Literal × Json)}
    (hnames : Under names members) (h : Values Plain members) : (Json.object members).Plain :=
  Every.object hnames.named h

/-- A value can be read in full exactly when it does not nest too deep. -/
def StrictByDepth (v : Json) : Prop := ∀ levels, isStrict levels v = decide (v.depth ≤ levels)

theorem itemsAreStrict_eq {vs : List Json} (hvs : ∀ v ∈ vs, StrictByDepth v) (levels : Nat) :
    itemsAreStrict levels vs = decide (depthOfItems vs ≤ levels) := by
  induction vs with
  | nil => simp [itemsAreStrict, depthOfItems]
  | cons v vs ih =>
    have hhead := hvs v List.mem_cons_self levels
    have htail := ih fun w hw => hvs w (List.mem_cons_of_mem v hw)
    rw [itemsAreStrict, depthOfItems, hhead, htail, ← Bool.decide_and, decide_eq_decide, Nat.max_le]

theorem membersAreStrict_eq {ms : List (Literal × Json)} (hnames : ∀ m ∈ ms, m.1.isSome)
    (hms : ∀ m ∈ ms, StrictByDepth m.2) (levels : Nat) :
    membersAreStrict levels ms = decide (depthOfMembers ms ≤ levels) := by
  induction ms with
  | nil => simp [membersAreStrict, depthOfMembers]
  | cons m ms ih =>
    obtain ⟨k, v⟩ := m
    have hname : k.isSome := hnames (k, v) List.mem_cons_self
    have hhead := hms (k, v) List.mem_cons_self levels
    have htail := ih (fun w hw => hnames w (List.mem_cons_of_mem _ hw))
      fun w hw => hms w (List.mem_cons_of_mem _ hw)
    rw [membersAreStrict, memberIsStrict, depthOfMembers, depthOfMember, hname, hhead, htail,
      Bool.true_and, ← Bool.decide_and, decide_eq_decide, Nat.max_le]

theorem lt_and_le_sub_one (depth levels : Nat) :
    (decide (0 < levels) && decide (depth ≤ levels - 1)) = decide (depth + 1 ≤ levels) := by
  rw [← Bool.decide_and, decide_eq_decide]
  omega

/-- A plain value can be read in full exactly when it does not nest too deep. -/
theorem strictByDepth {v : Json} (hv : v.Plain) : StrictByDepth v := by
  induction hv with
  | null => exact fun levels => by simp [isStrict, depth]
  | bool b => exact fun levels => by simp [isStrict, depth]
  | number h => exact fun levels => by simp [isStrict, depth, h.2]
  | string h => exact fun levels => by simp [isStrict, depth, h]
  | array _ ih =>
    intro levels
    rw [isStrict, itemsAreStrict_eq ih, depth, lt_and_le_sub_one]
  | object hnames _ ih =>
    intro levels
    rw [isStrict, membersAreStrict_eq hnames ih, depth, lt_and_le_sub_one]

end Plain

end HotkeyTree.Json
