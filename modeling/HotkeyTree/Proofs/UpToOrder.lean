import Mathlib.Data.List.Forall2
import Mathlib.Data.List.Perm.Basic

/-!
# Proofs: lists up to order

Two lists that match element by element once the second is brought into another order. Unlike
equality of multisets this says how an element differs from its counterpart, so that it can be used
at every level of a tree.
-/

namespace HotkeyTree

open scoped List

/-- Every element of the first list has a counterpart of its own in the second, and none is left.
An inductive predicate, so that trees can be compared with it at every level. -/
inductive UpToOrder {α β : Type} (R : α → β → Prop) : List α → List β → Prop where
  | intro (cs : List β) {as : List α} {bs : List β} (each : List.Forall₂ R as cs)
    (order : cs ~ bs) : UpToOrder R as bs

namespace UpToOrder

variable {α β γ δ : Type} {R : α → β → Prop} {as as' : List α} {bs bs' : List β}

theorem of_forall₂ (h : List.Forall₂ R as bs) : UpToOrder R as bs := ⟨bs, h, List.Perm.refl _⟩

/-- Another order alone. -/
theorem of_perm {R : α → α → Prop} {as bs : List α} (hR : ∀ a ∈ as, R a a) (h : as ~ bs) :
    UpToOrder R as bs :=
  ⟨as, List.forall₂_same.2 hR, h⟩

theorem length_eq (h : UpToOrder R as bs) : as.length = bs.length := by
  obtain ⟨cs, hcs, hperm⟩ := h
  exact hcs.length_eq.trans hperm.length_eq

theorem eq_nil_iff (h : UpToOrder R as bs) : as = [] ↔ bs = [] := by
  rw [← List.length_eq_zero_iff, h.length_eq, List.length_eq_zero_iff]

theorem append (h : UpToOrder R as bs) (h' : UpToOrder R as' bs') :
    UpToOrder R (as ++ as') (bs ++ bs') := by
  obtain ⟨cs, hcs, hperm⟩ := h
  obtain ⟨cs', hcs', hperm'⟩ := h'
  exact ⟨cs ++ cs', List.rel_append hcs hcs', hperm.append hperm'⟩

theorem perm_left (hperm : as ~ as') (h : UpToOrder R as' bs) : UpToOrder R as bs := by
  obtain ⟨cs, hcs, hperm'⟩ := h
  obtain ⟨ds, hds, hperm''⟩ := List.perm_comp_forall₂ hperm hcs
  exact ⟨ds, hds, hperm''.trans hperm'⟩

/-- What is made of counterparts matches as well. -/
theorem filterMap {S : γ → δ → Prop} {f : α → Option γ} {g : β → Option δ} (h : UpToOrder R as bs)
    (hfg : ∀ a ∈ as, ∀ b, R a b → Option.Rel S (f a) (g b)) :
    UpToOrder S (as.filterMap f) (bs.filterMap g) := by
  obtain ⟨cs, hcs, hperm⟩ := h
  refine ⟨cs.filterMap g, ?_, hperm.filterMap g⟩
  clear hperm
  induction hcs with
  | nil => exact .nil
  | @cons a b as bs hab _ ih =>
    have hrest := ih fun a' ha' => hfg a' (List.mem_cons_of_mem _ ha')
    have hhead := hfg a List.mem_cons_self b hab
    rw [List.filterMap_cons, List.filterMap_cons]
    generalize f a = c, g b = d at hhead
    cases hhead with
    | none => exact hrest
    | some hs => exact .cons hs hrest

theorem map {S : γ → δ → Prop} {f : α → γ} {g : β → δ} (h : UpToOrder R as bs)
    (hfg : ∀ a b, R a b → S (f a) (g b)) : UpToOrder S (as.map f) (bs.map g) := by
  obtain ⟨cs, hcs, hperm⟩ := h
  exact ⟨cs.map g, List.rel_map hfg hcs, hperm.map g⟩

/-- What counterparts have in common is the same up to order. -/
theorem map_perm {f : α → γ} {g : β → γ} (h : UpToOrder R as bs) (hfg : ∀ a b, R a b → f a = g b) :
    as.map f ~ bs.map g := by
  obtain ⟨cs, hcs, hperm⟩ := h
  have heq : as.map f = cs.map g := List.forall₂_eq_eq_eq ▸ List.rel_map hfg hcs
  rw [heq]
  exact hperm.map g

theorem perm {as bs : List α} {R : α → α → Prop} (h : UpToOrder R as bs)
    (hR : ∀ a b, R a b → a = b) : as ~ bs := by
  simpa using h.map_perm (f := id) (g := id) hR

theorem exists_of_mem {b : β} (h : UpToOrder R as bs) (hb : b ∈ bs) : ∃ a ∈ as, R a b := by
  obtain ⟨cs, hcs, hperm⟩ := h
  have hmem : b ∈ cs := hperm.mem_iff.2 hb
  clear hb hperm
  induction hcs with
  | nil => exact absurd hmem List.not_mem_nil
  | @cons a c as cs hac _ ih =>
    rcases List.mem_cons.1 hmem with rfl | hmem
    · exact ⟨a, List.mem_cons_self, hac⟩
    · obtain ⟨a', ha', h'⟩ := ih hmem
      exact ⟨a', List.mem_cons_of_mem _ ha', h'⟩

end UpToOrder

end HotkeyTree
