import HotkeyTree.Program
import HotkeyTree.Proofs.Document.Reading
import HotkeyTree.Proofs.Document.RoundTrip
import HotkeyTree.Proofs.Json.Members

/-!
# Proofs: what was read is written in a normal form

A text may write a document in many ways: records as arrays, members in any order, keys repeated.
Whatever is read of it repeats no key and, written again, nests no deeper than the values it was
read from. So what is written for it is read back, and writing what was read changes a text at most
once.
-/

namespace HotkeyTree

open Json

/-! ## The depth of parts -/

namespace Json

theorem depth_lt_of_mem {members : List (Literal × Json)} {k : Literal} {v : Json}
    (h : (k, v) ∈ members) : v.depth < (Json.object members).depth := by
  obtain ⟨n, hn⟩ : ∃ n, (Json.object members).depth = n + 1 := ⟨_, by rw [depth]⟩
  have hv : v.depth ≤ n := depth_object_le.1 (Nat.le_of_eq hn) _ h
  omega

theorem depth_lt_of_mem_items {items : List Json} {v : Json} (h : v ∈ items) :
    v.depth < (Json.array items).depth := by
  obtain ⟨n, hn⟩ : ∃ n, (Json.array items).depth = n + 1 := ⟨_, by rw [depth]⟩
  have hv : v.depth ≤ n := depth_array_le.1 (Nat.le_of_eq hn) v h
  omega

theorem mem_of_lookup {fields : List (String × Json)} {name : String} {v : Json}
    (h : fields.lookup name = some v) : (name, v) ∈ fields := by
  obtain ⟨before, after, rfl, -⟩ := List.lookup_eq_some_iff.1 h
  simp

variable {names : List String} {v : Json} {fields : List (String × Json)}

theorem depth_lt_of_record? (h : record? names v = some fields) {name : String} {w : Json}
    (hw : fields.lookup name = some w) : w.depth < v.depth := by
  have hmem := mem_of_lookup hw
  cases v with
  | object members =>
    simp only [record?, Option.bind_eq_bind, Option.bind_eq_some_iff] at h
    obtain ⟨all, hall, h⟩ := h
    split at h
    · obtain rfl := Option.some.inj h
      obtain rfl := named?_eq_some hall
      exact depth_lt_of_mem (List.mem_map_of_mem (List.mem_filter.1 hmem).1)
    · cases h
  | array items =>
    rw [record?] at h
    split at h
    · obtain rfl := Option.some.inj h
      exact depth_lt_of_mem_items (List.of_mem_zip hmem).2
    · cases h
  | _ => cases h

theorem depth_pos_of_record? (h : record? names v = some fields) : 0 < v.depth := by
  cases v with
  | object members => simp [depth]
  | array items => simp [depth]
  | _ => cases h

end Json

/-! ## No record nests deeper when it is written again -/

theorem Shortcut.depth_le_of_ofJson? {v : Json} {s : Shortcut} (h : ofJson? v = some s) :
    s.toJson.depth ≤ v.depth := by
  obtain ⟨fields, hfields, -⟩ := Option.bind_eq_some_iff.1 h
  have hpos := depth_pos_of_record? hfields
  have hle := s.depth_toJson
  omega

/-- The entries of a group are two brackets below what the group is read from. -/
theorem Group.depth_le_of_readWith {R : Json → Entry → Prop} {v : Json} {g : Group}
    (hg : ReadWith R v g) (h : ∀ w e, (∃ k, (k, e) ∈ g.entries) → R w e →
      (Entry.toJson e).depth ≤ w.depth) : g.toJson.depth ≤ v.depth := by
  obtain ⟨fields, members, hfields, hhead, hentries⟩ := hg
  have hmembers := depth_lt_of_record? hfields hhead.entries
  have hpos : 0 < (Json.object members).depth := by simp [depth]
  obtain ⟨n, hn⟩ : ∃ n, v.depth = n + 2 := ⟨v.depth - 2, by omega⟩
  rw [hn, Group.depth_le]
  rintro ⟨k, e⟩ he
  obtain ⟨w, hw, hR⟩ := hentries.exists_of_mem he
  have hentry := h w e ⟨k, he⟩ hR
  have hlt := depth_lt_of_mem hw
  show (Entry.toJson e).depth ≤ n
  omega

namespace Entry

theorem depth_le_of_tagged? {v kind body : Json} (h : tagged? v = some (kind, body)) :
    body.depth ≤ v.depth := by
  cases v with
  | array items =>
    cases items with
    | nil => cases h
    | cons first rest =>
      obtain ⟨rfl, rfl⟩ := Prod.mk.inj (Option.some.inj h)
      simp only [depth, depthOfItems]
      omega
  | object members =>
    simp only [tagged?, Option.bind_eq_bind, Option.bind_eq_some_iff, Option.some.injEq] at h
    obtain ⟨_, _, _, _, heq⟩ := h
    exact Nat.le_of_eq (congrArg depth (Prod.mk.inj heq).2.symm)
  | _ => cases h

theorem ReadFrom.readWith {v : Json} {g : Group} (h : ReadFrom v (.group g)) :
    ∃ body, body.depth ≤ v.depth ∧ Group.ReadWith ReadFrom body g := by
  cases h with
  | group hv hkind hfields hg first last =>
    exact ⟨_, depth_le_of_tagged? hv, _, _, hfields, hg, first, last⟩

theorem depth_le_of_readFrom {v : Json} {e : Entry} (h : ReadFrom v e) :
    (toJson e).depth ≤ v.depth := by
  induction e using Entry.induction generalizing v with
  | shortcut s =>
    cases h with
    | shortcut hv hkind hs =>
      rw [depth_shortcut]
      exact Nat.le_trans (Shortcut.depth_le_of_ofJson? hs) (depth_le_of_tagged? hv)
  | group g ih =>
    obtain ⟨body, hbody, hg⟩ := h.readWith
    rw [depth_group]
    exact Nat.le_trans (Group.depth_le_of_readWith hg fun w e ⟨k, he⟩ hw => ih (k, e) he hw) hbody

end Entry

/-- An entry was readable in full, so it left room for the six brackets around it. -/
theorem Group.depth_le_of_readFrom {v : Json} {g : Group} (h : ReadFrom v g) :
    g.toJson.depth ≤ 121 + 2 := by
  obtain ⟨fields, members, -, -, hentries⟩ := h
  rw [Group.depth_le]
  rintro ⟨k, e⟩ he
  obtain ⟨w, -, hstrict, hw⟩ := hentries.exists_of_mem he
  exact Nat.le_trans (Entry.depth_le_of_readFrom hw) (depth_le_of_isStrict hstrict)

theorem Category.depth_le_of_readFrom {v : Json} {c : Category} (h : ReadFrom v c) :
    c.toJson.depth ≤ 121 + 4 := by
  cases h with
  | intro _ _ _ _ _ hsubgroups =>
    obtain ⟨members, -, hgroups⟩ := hsubgroups
    rw [Category.depth_le]
    rintro ⟨k, g⟩ hg
    obtain ⟨w, -, hw⟩ := hgroups.exists_of_mem hg
    exact Group.depth_le_of_readFrom hw

namespace Document

theorem depth_le_of_readFrom {v : Json} {d : Document} (h : ReadFrom v d) :
    d.toJson.depth ≤ maxDepth := by
  cases h with
  | intro _ _ _ _ _ hcategories =>
    show d.toJson.depth ≤ 125 + 2
    rw [depth_le]
    rintro ⟨k, c⟩ hc
    obtain ⟨w, -, hw⟩ := hcategories.exists_of_mem hc
    exact Category.depth_le_of_readFrom hw

/-! ## No key is repeated in what was read -/

theorem exists_readFrom_of_mem {v : Json} {d : Document} (h : ReadFrom v d) {k : String}
    {c : Category} (hc : (k, c) ∈ d.categories) : ∃ w, Category.ReadFrom w c := by
  cases h with
  | intro _ _ _ _ _ hcategories =>
    obtain ⟨w, -, hw⟩ := hcategories.exists_of_mem hc
    exact ⟨w, hw⟩

/-- At every depth a group was read from a value of its own. -/
theorem exists_readWith_of_hasGroup {v : Json} {d : Document} (h : ReadFrom v d) {g : Group}
    (hg : HasGroup d.categories g) : ∃ w, Group.ReadWith Entry.ReadFrom w g := by
  induction hg with
  | subgroup hc hg =>
    obtain ⟨_, hw⟩ := exists_readFrom_of_mem h hc
    cases hw with
    | intro _ _ _ _ _ hsubgroups =>
      obtain ⟨members, -, hgroups⟩ := hsubgroups
      obtain ⟨u, -, fields, ms, hfields, hhead, hentries⟩ := hgroups.exists_of_mem hg
      exact ⟨u, fields, ms, hfields, hhead, hentries.mono fun _ _ hu => hu.2⟩
  | nested _ hg' ih =>
    obtain ⟨w, fields, members, -, -, hentries⟩ := ih
    obtain ⟨u, -, hu⟩ := hentries.exists_of_mem hg'
    obtain ⟨body, -, hbody⟩ := hu.readWith
    exact ⟨body, hbody⟩

theorem ReadFrom.proper {v : Json} {d : Document} (h : ReadFrom v d) : d.Proper := by
  intro l hl
  cases hl with
  | categories =>
    rw [Keyed.map_stored_labels]
    cases h with
    | intro _ _ _ _ _ hcategories => exact hcategories.distinct
  | shortcuts hc =>
    rw [Keyed.map_stored_labels]
    obtain ⟨_, hw⟩ := exists_readFrom_of_mem h hc
    cases hw with
    | intro _ _ _ _ hshortcuts _ =>
      obtain ⟨members, -, hmembers⟩ := hshortcuts
      exact hmembers.distinct
  | subgroups hc =>
    rw [Keyed.map_stored_labels]
    obtain ⟨_, hw⟩ := exists_readFrom_of_mem h hc
    cases hw with
    | intro _ _ _ _ _ hsubgroups =>
      obtain ⟨members, -, hmembers⟩ := hsubgroups
      exact hmembers.distinct
  | entries hg =>
    rw [Keyed.map_stored_labels]
    obtain ⟨_, _, _, _, _, hentries⟩ := exists_readWith_of_hasGroup h hg
    exact hentries.distinct

/-! ## Writing again -/

/-- The text that is written for the document in a text. -/
def rewrite? (text : String) : Option String := (read? text).map Program.documentText

theorem read?_documentText_of_readFrom {v : Json} {d : Document} (h : ReadFrom v d) :
    read? (Program.documentText d) = some d := by
  have hread : read? (Program.documentText d) =
      if d.toJson.depth ≤ maxDepth then some d else none :=
    read?_write_append h.proper (by simp [isBlank])
  rw [hread, if_pos (depth_le_of_readFrom h)]

/-- **What is written for a document that was read is read as the same document**, with and without
the line feed that ends it in a file, so writing it again changes nothing. Of a key that is repeated
in the text the document has the first place and the last value, in every mapping. -/
theorem rewrite_normalizes {t : String} {d : Document} (h : read? t = some d) :
    read? (Program.documentText d) = some d ∧ read? d.write = some d ∧
      (rewrite? t).bind rewrite? = rewrite? t ∧
      ∃ v, parse? t = some v ∧ ReadFrom v d := by
  obtain ⟨v, hv, hd⟩ := Option.bind_eq_some_iff.1 h
  have hfrom := readFrom_of_ofJson? hd
  have hfile := read?_documentText_of_readFrom hfrom
  refine ⟨hfile, ?_, ?_, v, hv, hfrom⟩
  · have hbare := read?_write_append hfrom.proper (String.toList_empty ▸ List.forall_mem_nil _)
    rwa [String.append_empty, if_pos (depth_le_of_readFrom hfrom)] at hbare
  · rw [rewrite?, h, Option.map_some, Option.bind_some, rewrite?, hfile, Option.map_some]

/-- A text with its records as arrays and a category that is repeated. -/
def looseText : String :=
  "[\"\",\"\",\"\",\x7b\"a\":[\"\",\"\",\"\"],\"b\":[\"\",\"\",\"\"],"
    ++ "\"a\":[\"\\u0041\",\"\",\"\"]\x7d]"

theorem rewrite_normalizes_looseText : ∃ d, read? looseText = some d ∧
    d.categories.map (fun slot => (slot.1, slot.2.name)) = [("a", "A"), ("b", "")] ∧
    read? (Program.documentText d) = some d ∧ read? d.write = some d ∧
    (rewrite? looseText).bind rewrite? = rewrite? looseText ∧
    ∃ v, parse? looseText = some v ∧ ReadFrom v d := by
  have hchars : looseText.toList = _ ++ _ :=
    String.toList_append.trans (congrArg₂ _ String.toList_ofList String.toList_ofList)
  have hread : (read? looseText).map
      (fun d => d.categories.map fun slot => (slot.1, slot.2.name)) =
        some [("a", "A"), ("b", "")] := by
    rw [read?, parse?, parse, hchars]
    decide +kernel
  obtain ⟨d, hd, hnames⟩ := Option.map_eq_some_iff.1 hread
  exact ⟨d, hd, hnames, rewrite_normalizes hd⟩

end Document

end HotkeyTree
