import HotkeyTree.Files.Path
import Mathlib.Data.List.Basic

/-!
# Proofs: the directories above a path

A path is put together from its parts as it was taken apart. So the directory right above a path
goes through the same directories as the path itself.
-/

namespace HotkeyTree.Path

variable {first path parent : String} {ps rest : List String}

/-! ## Parts -/

/-- A part of a path has no slash. -/
def IsPart (part : String) : Prop := '/' ∉ part.toList

theorem splitParts_eq_splitOn (cs : List Char) : splitParts cs = cs.splitOn '/' := by
  induction cs with
  | nil => rfl
  | cons c cs ih =>
    rw [splitParts, ih, List.splitOn_cons_eq_if_modifyHead]
    rcases hsplit : cs.splitOn '/' with _ | ⟨part, rest⟩
    · exact absurd hsplit (List.splitOn_ne_nil _ cs)
    · by_cases hc : c = '/' <;> simp [hc]

theorem slash_notMem_of_mem_splitParts (cs : List Char) :
    ∀ part ∈ splitParts cs, '/' ∉ part := by
  induction cs with
  | nil => simp [splitParts]
  | cons c cs ih =>
    rw [splitParts]
    split
    · exact List.forall_mem_cons.2 ⟨List.not_mem_nil, ih⟩
    · rename_i hc
      rcases hsplit : splitParts cs with _ | ⟨part, rest⟩
      · simp [Ne.symm hc]
      · rw [hsplit] at ih
        obtain ⟨hpart, hrest⟩ := List.forall_mem_cons.1 ih
        exact List.forall_mem_cons.2
          ⟨List.not_mem_cons_of_ne_of_not_mem (Ne.symm hc) hpart, hrest⟩

theorem isPart_of_mem_parts : ∀ part ∈ parts path, IsPart part := by
  intro part hpart
  obtain ⟨cs, hcs, rfl⟩ := List.mem_map.1 hpart
  rw [IsPart, String.toList_ofList]
  exact slash_notMem_of_mem_splitParts _ cs hcs

theorem parts_intercalate (hne : ps ≠ []) (hps : ∀ part ∈ ps, IsPart part) :
    parts ("/".intercalate ps) = ps := by
  have hslash : "/".toList = ['/'] := rfl
  have hmem : ∀ cs ∈ ps.map String.toList, '/' ∉ cs := by
    intro cs hcs
    obtain ⟨part, hpart, rfl⟩ := List.mem_map.1 hcs
    exact hps part hpart
  rw [parts, String.toList_intercalate, hslash, splitParts_eq_splitOn,
    List.splitOn_intercalate '/' hmem (by simpa using hne), List.map_map]
  simp [Function.comp_def]

/-! ## Lineages -/

theorem lineage_of_parts (h : parts path = first :: rest) :
    lineage path = growing first rest.reverse := by
  rw [lineage, h]

theorem lineage_ofParts_singleton (hfirst : IsPart first) :
    lineage (ofParts [first]) = [ofParts [first]] := by
  by_cases hempty : first = ""
  · subst hempty
    decide
  · have hpath : ofParts [first] = "/".intercalate [first] := by simp [ofParts, hempty]
    have hparts : parts ("/".intercalate [first]) = [first] :=
      parts_intercalate (List.cons_ne_nil _ _) (List.forall_mem_singleton.2 hfirst)
    rw [hpath, lineage_of_parts hparts, List.reverse_nil, growing, hpath]

theorem lineage_ofParts_cons (hne : rest ≠ []) (hps : ∀ part ∈ first :: rest, IsPart part) :
    lineage (ofParts (first :: rest)) = growing first rest.reverse := by
  obtain ⟨second, others, rfl⟩ := List.exists_cons_of_ne_nil hne
  have hpath : ofParts (first :: second :: others) =
      "/".intercalate (first :: second :: others) := by
    simp [ofParts]
  rw [hpath, lineage_of_parts (parts_intercalate (List.cons_ne_nil _ _) hps)]

/-- A path that stands in a lineage goes through those after it. -/
theorem lineage_of_growing (hfirst : IsPart first) (hps : ∀ part ∈ ps, IsPart part)
    (h : growing first ps = path :: rest) : lineage path = path :: rest := by
  induction ps with
  | nil =>
    rw [growing] at h
    obtain ⟨rfl, rfl⟩ := List.cons.inj h
    exact lineage_ofParts_singleton hfirst
  | cons part above ih =>
    by_cases hidle : isIdle part = true
    · rw [growing, if_pos hidle] at h
      exact ih (List.forall_mem_cons.1 hps).2 h
    · have hpath : path = ofParts (first :: (part :: above).reverse) := by
        rw [growing, if_neg hidle] at h
        exact (List.cons.inj h).1.symm
      have hall : ∀ p ∈ first :: (part :: above).reverse, IsPart p :=
        List.forall_mem_cons.2 ⟨hfirst, fun p hp => hps p (List.mem_reverse.1 hp)⟩
      rw [← h, hpath, lineage_ofParts_cons (by simp) hall, List.reverse_reverse]

theorem growing_of_growing_cons (h : growing first ps = path :: parent :: rest) :
    ∃ qs ⊆ ps, growing first qs = parent :: rest := by
  induction ps with
  | nil => simp [growing] at h
  | cons part above ih =>
    by_cases hidle : isIdle part = true
    · rw [growing, if_pos hidle] at h
      obtain ⟨qs, hqs, hgrow⟩ := ih h
      exact ⟨qs, List.subset_cons_of_subset _ hqs, hgrow⟩
    · rw [growing, if_neg hidle] at h
      exact ⟨above, List.subset_cons_self _ _, (List.cons.inj h).2⟩

/-- The directory right above a path goes through all that are above the path. -/
theorem lineage_of_above (h : above path = parent :: rest) : lineage parent = above path := by
  rcases hparts : parts path with _ | ⟨first, after⟩
  · simp [above, lineage, hparts] at h
  · have hpart : ∀ part ∈ first :: after, IsPart part := hparts ▸ isPart_of_mem_parts
    obtain ⟨hfirst, hafter⟩ := List.forall_mem_cons.1 hpart
    rw [above, lineage_of_parts hparts] at h ⊢
    rcases hgrow : growing first after.reverse with _ | ⟨whole, tail⟩
    · rw [hgrow] at h
      cases h
    · rw [hgrow, List.tail_cons] at h
      subst h
      obtain ⟨qs, hqs, hqgrow⟩ := growing_of_growing_cons hgrow
      exact lineage_of_growing hfirst (fun p hp => hafter p (List.mem_reverse.1 (hqs hp))) hqgrow

end HotkeyTree.Path
