import HotkeyTree.Proofs.Tree
import HotkeyTree.VendorTable
import Mathlib.Logic.Relation

/-!
# Proofs: what is read of the vendor's table

A forest is read back from the dictionaries that it is written as. Of any other property list only
what could have been written so is read: what has no place in a node can come and go anywhere
without a difference, and a key can be written as a number or with its digits.
-/

namespace HotkeyTree.VendorTable

open PropertyList

/-! ## Writing nodes -/

/-- The entry for an attribute, if the node has it. -/
def entryFor {α : Type} (key : String) (write : α → PropertyList) :
    Option α → List (String × PropertyList)
  | some a => [(key, write a)]
  | none => []

def ofInt64 (i : Int64) : PropertyList := .integer i.toInt

def attributeEntries (a : Node.Attributes) : List (String × PropertyList) :=
  entryFor "name" .string a.name
    ++ entryFor "node_class" .string a.nodeClass
    ++ entryFor "sybmolichotkey" ofInt64 a.hotkeyId
    ++ entryFor "slow_sybmolichotkey" ofInt64 a.slowHotkeyId
    ++ entryFor "identifier" .string a.identifier
    ++ entryFor "key" .string a.key
    ++ entryFor "modifier" ofInt64 a.modifier
    ++ entryFor "charKey" .string a.charKey
    ++ entryFor "enabled" .bool a.enabled
    ++ entryFor "dynamic" .bool a.dynamic

mutual

/-- A node as a dictionary of the attributes that it has. -/
def toDict : Node → PropertyList
  | ⟨attributes, children⟩ =>
    .dict (attributeEntries attributes ++ match children with
      | some nodes => [("elements", .array (toDicts nodes))]
      | none => [])
termination_by structural n => n

def toDicts : List Node → List PropertyList
  | [] => []
  | n :: ns => toDict n :: toDicts ns
termination_by structural ns => ns

end

/-! ## Property lists that say the same -/

def textKeys : List String := ["name", "node_class", "identifier"]
def integerKeys : List String := ["sybmolichotkey", "slow_sybmolichotkey", "modifier"]
def keyTextKeys : List String := ["key", "charKey"]
def truthKeys : List String := ["enabled", "dynamic"]

/-- The keys under which something is looked for. -/
def attributeKeys : List String :=
  textKeys ++ integerKeys ++ keyTextKeys ++ truthKeys ++ ["elements"]

/-- An integer that 64 bits with sign can hold. -/
def Fits (i : Int) : Prop := -(Bits64.half : Int) ≤ i ∧ i < (Bits64.half : Int)

/-- A value is of the type that is expected under a key. -/
inductive Suits : String → PropertyList → Prop where
  | text {k : String} (hk : k ∈ textKeys) (s : String) : Suits k (.string s)
  | integer {k : String} (hk : k ∈ integerKeys) {i : Int} (hi : Fits i) : Suits k (.integer i)
  | keyText {k : String} (hk : k ∈ keyTextKeys) (s : String) : Suits k (.string s)
  | keyCode {k : String} (hk : k ∈ keyTextKeys) {i : Int} (hi : Fits i) : Suits k (.integer i)
  | truth {k : String} (hk : k ∈ truthKeys) (b : Bool) : Suits k (.bool b)
  | children (items : List PropertyList) : Suits "elements" (.array items)

/-- The second property list is the first one with something more in it that is no part of a table,
or with a number for its digits, at any depth. -/
inductive Noise : PropertyList → PropertyList → Prop where
  /-- An item of an array that is no dictionary. -/
  | stray (before after : List PropertyList) {p : PropertyList} (h : ∀ es, p ≠ .dict es) :
    Noise (.array (before ++ after)) (.array (before ++ p :: after))
  /-- An entry under another key than those of attributes. -/
  | foreign (before after : List (String × PropertyList)) {k : String} (h : k ∉ attributeKeys)
    (v : PropertyList) : Noise (.dict (before ++ after)) (.dict (before ++ (k, v) :: after))
  /-- An attribute of a wrong type. A dictionary holds it once. -/
  | mistyped {entries : List (String × PropertyList)} {k : String} {v : PropertyList}
    (hk : k ∈ attributeKeys) (hv : entries.lookup k = some v) (h : ¬ Suits k v) :
    Noise (.dict (entries.filter (·.1 ≠ k))) (.dict entries)
  /-- A key that is written as a number. -/
  | digits (before after : List (String × PropertyList)) {k : String} (hk : k ∈ keyTextKeys)
    {i : Int} (hi : Fits i) :
    Noise (.dict (before ++ (k, .string (toString i)) :: after))
      (.dict (before ++ (k, .integer i) :: after))
  | inItem (before after : List PropertyList) {p p' : PropertyList} (h : Noise p p') :
    Noise (.array (before ++ p :: after)) (.array (before ++ p' :: after))
  | inEntry (before after : List (String × PropertyList)) (k : String) {v v' : PropertyList}
    (h : Noise v v') :
    Noise (.dict (before ++ (k, v) :: after)) (.dict (before ++ (k, v') :: after))

/-! ## What a dictionary is read for -/

theorem nodesOf_eq (ps : List PropertyList) : nodesOf ps = ps.filterMap nodeOf? := by
  induction ps with
  | nil => rfl
  | cons p ps ih =>
    rw [nodesOf, List.filterMap_cons, ih]
    cases nodeOf? p <;> rfl

/-- The nodes in a value, if it is an array. -/
def nodesIn? : PropertyList → Option (List Node)
  | .array items => some (nodesOf items)
  | _ => none

theorem childrenOf_eq (entries : List (String × PropertyList)) :
    childrenOf entries = (entries.lookup childrenKey).bind nodesIn? := by
  induction entries with
  | nil => rfl
  | cons e es ih =>
    obtain ⟨k, v⟩ := e
    rw [childrenOf, List.lookup_cons]
    by_cases hk : k = childrenKey
    · rw [if_pos hk, hk, beq_self_eq_true]
      cases v <;> rfl
    · rw [if_neg hk, beq_false_of_ne (Ne.symm hk)]
      exact ih

theorem int64?_eq_some {i : Int} (hi : Fits i) : int64? (.integer i) = some (Int64.ofInt i) := by
  unfold Fits at hi
  rw [int64?, Bits64.signed?, if_pos hi]

theorem int64?_eq_none {i : Int} (hi : ¬ Fits i) : int64? (.integer i) = none := by
  unfold Fits at hi
  rw [int64?, Bits64.signed?, if_neg hi]

/-- What is found under a key, if anything, is read alike. -/
structure ReadAlike (k : String) (found found' : Option PropertyList) : Prop where
  text : k ∈ textKeys → found.bind text? = found'.bind text?
  integer : k ∈ integerKeys → found.bind int64? = found'.bind int64?
  keyText : k ∈ keyTextKeys → found.bind keyText? = found'.bind keyText?
  truth : k ∈ truthKeys → found.bind bool? = found'.bind bool?
  children : k = childrenKey → found.bind nodesIn? = found'.bind nodesIn?

namespace ReadAlike

variable {k : String} {v : PropertyList} {found found' : Option PropertyList}

theorem refl (k : String) (found : Option PropertyList) : ReadAlike k found found :=
  ⟨fun _ => rfl, fun _ => rfl, fun _ => rfl, fun _ => rfl, fun _ => rfl⟩

theorem of_notMem (hk : k ∉ attributeKeys) : ReadAlike k found found' := by
  simp only [attributeKeys, List.mem_append, List.mem_singleton, not_or] at hk
  obtain ⟨⟨⟨⟨htext, hinteger⟩, hkeyText⟩, htruth⟩, hchildren⟩ := hk
  exact ⟨fun h => absurd h htext, fun h => absurd h hinteger, fun h => absurd h hkeyText,
    fun h => absurd h htruth, fun h => absurd h hchildren⟩

/-- A value of a wrong type is read like none. -/
theorem of_not_suits (h : ¬ Suits k v) : ReadAlike k none (some v) := by
  constructor
  · intro hk
    cases v with
    | string s => exact absurd (.text hk s) h
    | _ => rfl
  · intro hk
    cases v with
    | integer i => exact (int64?_eq_none fun hi => h (.integer hk hi)).symm
    | _ => rfl
  · intro hk
    cases v with
    | string s => exact absurd (.keyText hk s) h
    | integer i =>
      have hnone := int64?_eq_none fun hi => h (.keyCode hk hi)
      rw [Option.bind_some, keyText?, hnone]
      rfl
    | _ => rfl
  · intro hk
    cases v with
    | bool b => exact absurd (.truth hk b) h
    | _ => rfl
  · rintro rfl
    cases v with
    | array items => exact absurd (.children items) h
    | _ => rfl

theorem of_digits (hk : k ∈ keyTextKeys) {i : Int} (hi : Fits i) :
    ReadAlike k (some (.string (toString i))) (some (.integer i)) := by
  have hother : k ∉ textKeys ∧ k ∉ integerKeys ∧ k ∉ truthKeys ∧ k ≠ childrenKey := by
    rcases List.mem_pair.1 hk with rfl | rfl <;> decide
  obtain ⟨htext, hinteger, htruth, hchildren⟩ := hother
  refine ⟨fun h => absurd h htext, fun h => absurd h hinteger, fun _ => ?_,
    fun h => absurd h htruth, fun h => absurd h hchildren⟩
  rw [Option.bind_some, Option.bind_some, keyText?, keyText?, int64?_eq_some hi, Option.map_some,
    Int64.toInt_ofInt_of_le hi.1 hi.2]

end ReadAlike

/-- A dictionary is read by what is found under each key. -/
theorem nodeOf?_dict_congr {entries entries' : List (String × PropertyList)}
    (h : ∀ k, ReadAlike k (entries.lookup k) (entries'.lookup k)) :
    nodeOf? (.dict entries) = nodeOf? (.dict entries') := by
  have hattributes : attributesOf entries = attributesOf entries' := by
    unfold attributesOf
    rw [(h nameKey).text (by decide), (h nodeClassKey).text (by decide),
      (h hotkeyIdKey).integer (by decide), (h slowHotkeyIdKey).integer (by decide),
      (h identifierKey).text (by decide), (h keyKey).keyText (by decide),
      (h modifierKey).integer (by decide), (h charKeyKey).keyText (by decide),
      (h enabledKey).truth (by decide), (h dynamicKey).truth (by decide)]
  have hchildren : childrenOf entries = childrenOf entries' := by
    rw [childrenOf_eq, childrenOf_eq, (h childrenKey).children rfl]
  rw [nodeOf?, nodeOf?, hattributes, hchildren]

/-! ## Look-ups -/

section Lookup

variable {α : Type}

theorem lookup_filter_ne (es : List (String × α)) (k k' : String) :
    (es.filter (·.1 ≠ k)).lookup k' = if k' = k then none else es.lookup k' := by
  induction es with
  | nil => simp
  | cons e es ih =>
    obtain ⟨k'', a⟩ := e
    by_cases hk : k'' = k
    · rw [List.filter_cons_of_neg (by simpa using hk), ih, List.lookup_cons, hk]
      by_cases hk' : k' = k
      · rw [if_pos hk', if_pos hk']
      · rw [if_neg hk', if_neg hk', beq_false_of_ne hk']
    · rw [List.filter_cons_of_pos (by simpa using hk), List.lookup_cons, List.lookup_cons, ih]
      by_cases hk' : k' = k
      · rw [if_pos hk', if_pos hk', hk', beq_false_of_ne (Ne.symm hk)]
      · rw [if_neg hk', if_neg hk']

/-- Another value in an entry is another value under its key, or none at all. -/
theorem lookup_replace {R : String → Option α → Option α → Prop} (hrefl : ∀ k o, R k o o)
    (before after : List (String × α)) {k : String} {a b : α} (h : R k (some a) (some b))
    (k' : String) :
    R k' ((before ++ (k, a) :: after).lookup k') ((before ++ (k, b) :: after).lookup k') := by
  rw [List.lookup_append, List.lookup_append, List.lookup_cons, List.lookup_cons]
  cases before.lookup k' with
  | some _ => exact hrefl _ _
  | none =>
    by_cases hk : k' = k
    · rw [hk, beq_self_eq_true]
      exact h
    · rw [beq_false_of_ne hk]
      exact hrefl _ _

theorem lookup_insert_of_ne (before after : List (String × α)) {k k' : String} (hk : k' ≠ k)
    (a : α) :
    (before ++ (k, a) :: after).lookup k' = (before ++ after).lookup k' := by
  rw [List.lookup_append, List.lookup_append, List.lookup_cons, beq_false_of_ne hk]

end Lookup

/-! ## Noise -/

/-- Noise changes neither what a property list is read as, nor what is read of it as the value of an
attribute. -/
theorem Noise.read_eq {p p' : PropertyList} (h : Noise p p') :
    nodeOf? p = nodeOf? p' ∧ ∀ k, ReadAlike k (some p) (some p') := by
  -- both are arrays, or both are dictionaries, and these are no values of other attributes
  have harray : ∀ {items items' : List PropertyList}, nodesOf items = nodesOf items' →
      nodeOf? (.array items) = nodeOf? (.array items') ∧
        ∀ k, ReadAlike k (some (.array items)) (some (.array items')) := by
    intro items items' hitems
    refine ⟨rfl, fun k => ⟨fun _ => rfl, fun _ => rfl, fun _ => rfl, fun _ => rfl, fun _ => ?_⟩⟩
    rw [Option.bind_some, Option.bind_some, nodesIn?, nodesIn?, hitems]
  have hdict : ∀ {entries entries' : List (String × PropertyList)},
      (∀ k, ReadAlike k (entries.lookup k) (entries'.lookup k)) →
      nodeOf? (.dict entries) = nodeOf? (.dict entries') ∧
        ∀ k, ReadAlike k (some (.dict entries)) (some (.dict entries')) := by
    intro entries entries' hentries
    exact ⟨nodeOf?_dict_congr hentries,
      fun k => ⟨fun _ => rfl, fun _ => rfl, fun _ => rfl, fun _ => rfl, fun _ => rfl⟩⟩
  induction h with
  | @stray before after p hp =>
    apply harray
    have hnone : nodeOf? p = none := by
      cases p with
      | dict es => exact absurd rfl (hp es)
      | _ => rfl
    rw [nodesOf_eq, nodesOf_eq, List.filterMap_append, List.filterMap_append, List.filterMap_cons,
      hnone]
  | foreign before after hk v =>
    apply hdict
    intro k'
    by_cases hk' : k' ∈ attributeKeys
    · rw [lookup_insert_of_ne before after (ne_of_mem_of_not_mem hk' hk)]
      exact .refl _ _
    · exact .of_notMem hk'
  | @mistyped entries k v hk hv hsuits =>
    apply hdict
    intro k'
    rw [lookup_filter_ne]
    by_cases hk' : k' = k
    · rw [if_pos hk', hk', hv]
      exact .of_not_suits hsuits
    · rw [if_neg hk']
      exact .refl _ _
  | digits before after hk hi =>
    apply hdict
    exact lookup_replace ReadAlike.refl before after (.of_digits hk hi)
  | inItem before after h ih =>
    apply harray
    rw [nodesOf_eq, nodesOf_eq, List.filterMap_append, List.filterMap_append, List.filterMap_cons,
      List.filterMap_cons, ih.1]
  | inEntry before after k h ih =>
    apply hdict
    exact lookup_replace ReadAlike.refl before after (ih.2 k)

theorem Noise.ofPropertyList_eq {p p' : PropertyList} (h : Noise p p') :
    ofPropertyList p = ofPropertyList p' := by
  have hread := h.read_eq.2 childrenKey
  have hnodes := hread.children rfl
  cases h with
  | stray | inItem =>
    rw [Option.bind_some, Option.bind_some, nodesIn?, nodesIn?, Option.some.injEq] at hnodes
    rw [ofPropertyList, ofPropertyList, hnodes]
  | _ => rfl

/-! ## Reading back -/

theorem lookup_entryFor {α : Type} (k k' : String) (write : α → PropertyList) (a : Option α) :
    (entryFor k write a).lookup k' = if k' = k then a.map write else none := by
  cases a with
  | none => simp [entryFor]
  | some a => by_cases hk : k' = k <;> simp [entryFor, hk]

theorem toDicts_eq (ns : List Node) : toDicts ns = ns.map toDict := by
  induction ns with
  | nil => rfl
  | cons n ns ih => rw [toDicts, ih, List.map_cons]

theorem toDict_eq (n : Node) :
    toDict n = .dict (attributeEntries n.toAttributes ++
      entryFor childrenKey (fun ns => .array (ns.map toDict)) n.children) := by
  obtain ⟨attributes, _ | nodes⟩ := n
  · rfl
  · rw [toDict, toDicts_eq]
    rfl

/-- Every attribute is found under its key, and nothing of them under the key of the children. -/
theorem lookup_attributeEntries (a : Node.Attributes) :
    (attributeEntries a).lookup nameKey = a.name.map .string ∧
    (attributeEntries a).lookup nodeClassKey = a.nodeClass.map .string ∧
    (attributeEntries a).lookup hotkeyIdKey = a.hotkeyId.map ofInt64 ∧
    (attributeEntries a).lookup slowHotkeyIdKey = a.slowHotkeyId.map ofInt64 ∧
    (attributeEntries a).lookup identifierKey = a.identifier.map .string ∧
    (attributeEntries a).lookup keyKey = a.key.map .string ∧
    (attributeEntries a).lookup modifierKey = a.modifier.map ofInt64 ∧
    (attributeEntries a).lookup charKeyKey = a.charKey.map .string ∧
    (attributeEntries a).lookup enabledKey = a.enabled.map .bool ∧
    (attributeEntries a).lookup dynamicKey = a.dynamic.map .bool ∧
    (attributeEntries a).lookup childrenKey = none := by
  simp only [attributeEntries, List.lookup_append, lookup_entryFor]
  simp [nameKey, nodeClassKey, hotkeyIdKey, slowHotkeyIdKey, identifierKey, keyKey, modifierKey,
    charKeyKey, enabledKey, dynamicKey, childrenKey]

theorem int64?_ofInt64 (i : Int64) : int64? (ofInt64 i) = some i := by
  have hfits : Fits i.toInt := ⟨i.le_toInt, i.toInt_lt⟩
  rw [ofInt64, int64?_eq_some hfits, Int64.ofInt_toInt]

/-- What is written for an attribute is read as this attribute. -/
theorem bind_map_eq {α : Type} {read : PropertyList → Option α} {write : α → PropertyList}
    (h : ∀ a, read (write a) = some a) (a : Option α) : (a.map write).bind read = a := by
  cases a with
  | none => rfl
  | some a => exact h a

theorem attributesOf_attributeEntries (a : Node.Attributes) {rest : List (String × PropertyList)}
    (hrest : ∀ k, k ≠ childrenKey → rest.lookup k = none) :
    attributesOf (attributeEntries a ++ rest) = a := by
  obtain ⟨hname, hclass, hid, hslow, hidentifier, hkey, hmodifier, hchar, henabled, hdynamic, -⟩ :=
    lookup_attributeEntries a
  have hfound : ∀ k, k ≠ childrenKey →
      (attributeEntries a ++ rest).lookup k = (attributeEntries a).lookup k := by
    intro k hk
    rw [List.lookup_append, hrest k hk, Option.or_none]
  unfold attributesOf
  rw [hfound nameKey (by decide), hfound nodeClassKey (by decide), hfound hotkeyIdKey (by decide),
    hfound slowHotkeyIdKey (by decide), hfound identifierKey (by decide), hfound keyKey (by decide),
    hfound modifierKey (by decide), hfound charKeyKey (by decide), hfound enabledKey (by decide),
    hfound dynamicKey (by decide), hname, hclass, hid, hslow, hidentifier, hkey, hmodifier, hchar,
    henabled, hdynamic]
  have htext : ∀ o : Option String, (o.map .string).bind text? = o := bind_map_eq fun _ => rfl
  have hkeyText : ∀ o : Option String, (o.map .string).bind keyText? = o := bind_map_eq fun _ => rfl
  have htruth : ∀ o : Option Bool, (o.map .bool).bind bool? = o := bind_map_eq fun _ => rfl
  simp only [htext, hkeyText, htruth, bind_map_eq int64?_ofInt64]

/-- The children are read back if each of them is. -/
theorem nodesOf_map_toDict {ns : List Node} (h : ∀ n ∈ ns, nodeOf? (toDict n) = some n) :
    nodesOf (ns.map toDict) = ns := by
  rw [nodesOf_eq, List.filterMap_map]
  calc ns.filterMap (nodeOf? ∘ toDict)
    _ = ns.filterMap some := List.filterMap_congr h
    _ = ns := List.filterMap_some

/-- A node is read back from the dictionary that it is written as. -/
theorem nodeOf?_toDict (n : Node) : nodeOf? (toDict n) = some n := by
  induction n using Node.induction with
  | node n ih =>
    have hattributes : attributesOf (attributeEntries n.toAttributes ++
        entryFor childrenKey (fun ns => .array (ns.map toDict)) n.children) = n.toAttributes := by
      apply attributesOf_attributeEntries
      intro k hk
      rw [lookup_entryFor, if_neg hk]
    have hchildren : childrenOf (attributeEntries n.toAttributes ++
        entryFor childrenKey (fun ns => .array (ns.map toDict)) n.children) = n.children := by
      obtain ⟨-, -, -, -, -, -, -, -, -, -, hnone⟩ := lookup_attributeEntries n.toAttributes
      rw [childrenOf_eq, List.lookup_append, hnone, Option.none_or, lookup_entryFor, if_pos rfl]
      obtain ⟨attributes, _ | nodes⟩ := n
      · rfl
      · exact congrArg some (nodesOf_map_toDict ih)
    rw [toDict_eq, nodeOf?, hattributes, hchildren]
    cases n
    rfl

theorem ofPropertyList_toDict (ns : List Node) :
    ofPropertyList (.array (ns.map toDict)) = .ok ns := by
  rw [ofPropertyList, nodesOf_map_toDict fun n _ => nodeOf?_toDict n]

theorem Noise.ofPropertyList_eq_of_eqvGen {p p' : PropertyList} (h : Relation.EqvGen Noise p p') :
    ofPropertyList p = ofPropertyList p' := by
  induction h with
  | rel p p' h => exact h.ofPropertyList_eq
  | refl p => rfl
  | symm p p' _ ih => exact ih.symm
  | trans p p' p'' _ _ ih ih' => exact ih.trans ih'

/-- **A table is read for its nodes and for nothing else**: every forest is read back from the array
it is written as, and noise may come and go anywhere in a property list. -/
theorem reads_forest_without_noise :
    (∀ ns : List Node, ofPropertyList (.array (ns.map toDict)) = .ok ns) ∧
    ∀ p p' : PropertyList, Relation.EqvGen Noise p p' → ofPropertyList p = ofPropertyList p' :=
  ⟨ofPropertyList_toDict, fun _ _ h => Noise.ofPropertyList_eq_of_eqvGen h⟩

/-- A node whose child list is empty. -/
def tidyNode : Node := { name := some "Windows", key := some "7", children := some [] }

/-- Its dictionary with a number for its key, an attribute of a wrong type, an unknown one, and a
child that is no dictionary. -/
def noisyEntries : List (String × PropertyList) :=
  [("name", .string "Windows"), ("key", .integer 7), ("enabled", .string "yes"), ("color", .real),
    ("elements", .array [.data])]

theorem eqvGen_noisyEntries :
    Relation.EqvGen Noise (.array ([tidyNode].map toDict))
      (.array [.string "", .dict noisyEntries]) := by
  have hdigits : Noise (toDict tidyNode)
      (.dict [("name", .string "Windows"), ("key", .integer 7), ("elements", .array [])]) :=
    .digits (k := keyKey) (i := 7) [("name", .string "Windows")] [("elements", .array [])]
      (by decide) ⟨by decide, by decide⟩
  have hforeign : Noise
      (.dict [("name", .string "Windows"), ("key", .integer 7), ("elements", .array [])])
      (.dict [("name", .string "Windows"), ("key", .integer 7), ("color", .real),
        ("elements", .array [])]) :=
    .foreign [("name", .string "Windows"), ("key", .integer 7)] [("elements", .array [])]
      (by decide : "color" ∉ attributeKeys) .real
  have hchild : Noise
      (.dict [("name", .string "Windows"), ("key", .integer 7), ("color", .real),
        ("elements", .array [])]) (.dict (noisyEntries.filter (·.1 ≠ enabledKey))) :=
    .inEntry [("name", .string "Windows"), ("key", .integer 7), ("color", .real)] [] "elements"
      (.stray [] [] nofun)
  have hmistyped : Noise (.dict (noisyEntries.filter (·.1 ≠ enabledKey))) (.dict noisyEntries) := by
    refine .mistyped (k := enabledKey) (v := .string "yes") (by decide) rfl ?_
    generalize hk : enabledKey = k
    intro hsuits
    cases hsuits with
    | text hmem => exact absurd (hk ▸ hmem : enabledKey ∈ textKeys) (by decide)
    | keyText hmem => exact absurd (hk ▸ hmem : enabledKey ∈ keyTextKeys) (by decide)
  have hstray : Noise (.array [.dict noisyEntries]) (.array [.string "", .dict noisyEntries]) :=
    .stray [] [_] nofun
  refine .trans _ _ _ (.rel _ _ (.inItem [] [] hdigits)) ?_
  refine .trans _ _ _ (.rel _ _ (.inItem [] [] hforeign)) ?_
  refine .trans _ _ _ (.rel _ _ (.inItem [] [] hchild)) ?_
  exact .trans _ _ _ (.rel _ _ (.inItem [] [] hmistyped)) (.rel _ _ hstray)

theorem reads_tidyNode_without_noise :
    Relation.EqvGen Noise (.array ([tidyNode].map toDict))
      (.array [.string "", .dict noisyEntries]) ∧
    ofPropertyList (.array [.string "", .dict noisyEntries]) = .ok [tidyNode] := by
  obtain ⟨hwritten, hnoise⟩ := reads_forest_without_noise
  exact ⟨eqvGen_noisyEntries, (hnoise _ _ eqvGen_noisyEntries).symm.trans (hwritten [tidyNode])⟩

end HotkeyTree.VendorTable
