import Mathlib

/-!
# Topological orders

In a topological order everything that an element points to comes before it. A relation
with such an order of all its elements has no cycle; a relation without a cycle has an
element in every finite set that points to nothing in the set.
-/

namespace OpenRFS.Digraph

open Relation List

variable {α : Type*} {r : α → α → Prop} {order : List α}

def Acyclic (r : α → α → Prop) : Prop := ∀ a, ¬ TransGen r a a

inductive Topological (r : α → α → Prop) : List α → Prop
  | nil : Topological r []
  | snoc {order : List α} {a : α} (h : Topological r order) (hnew : a ∉ order)
      (hbefore : ∀ b, r a b → b ∈ order) : Topological r (order ++ [a])

theorem Topological.nodup (h : Topological r order) : order.Nodup := by
  induction h with
  | nil => exact nodup_nil
  | snoc _ hnew _ ih => exact nodup_append_comm.mp (nodup_cons.mpr ⟨hnew, ih⟩)

theorem Topological.idxOf_lt [BEq α] [LawfulBEq α] (h : Topological r order) {a b : α}
    (ha : a ∈ order) (hab : r a b) : b ∈ order ∧ order.idxOf b < order.idxOf a := by
  induction h with
  | nil => cases ha
  | @snoc order c _ hnew hbefore ih =>
    by_cases hold : a ∈ order
    · obtain ⟨hb, hlt⟩ := ih hold
      refine ⟨mem_append_left _ hb, ?_⟩
      rwa [idxOf_append_of_mem hb, idxOf_append_of_mem hold]
    · obtain rfl := mem_singleton.mp ((mem_append.mp ha).resolve_left hold)
      have hb := hbefore b hab
      refine ⟨mem_append_left _ hb, ?_⟩
      rw [idxOf_append_of_mem hb, idxOf_append_of_notMem hold]
      exact Nat.lt_add_right _ (idxOf_lt_length_of_mem hb)

theorem Topological.acyclic [BEq α] [LawfulBEq α] (h : Topological r order)
    (hall : ∀ a b, r a b → a ∈ order) : Acyclic r := by
  intro a hcycle
  have hlt : ∀ b, TransGen r a b → order.idxOf b < order.idxOf a := by
    intro b hab
    induction hab with
    | single hab => exact (h.idxOf_lt (hall _ _ hab) hab).2
    | tail _ hbc ih => exact (h.idxOf_lt (hall _ _ hbc) hbc).2.trans ih
  exact lt_irrefl _ (hlt a hcycle)

/-- A finite set without a cycle has an element that points to no other. -/
theorem Acyclic.exists_free (h : Acyclic r) {s : Set α} (hfinite : s.Finite) (hne : s.Nonempty) :
    ∃ a ∈ s, ∀ b ∈ s, ¬ r a b := by
  -- the least element for the order generated by the converse relation
  have horder : IsStrictOrder α fun a b => TransGen r b a :=
    { irrefl := h, trans := fun _ _ _ hab hbc => hbc.trans hab }
  have hwf : s.WellFoundedOn fun a b => TransGen r b a := hfinite.wellFoundedOn
  obtain ⟨⟨a, ha⟩, -, hmin⟩ := hwf.has_min Set.univ ⟨⟨hne.some, hne.some_mem⟩, trivial⟩
  exact ⟨a, ha, fun b hb hab => hmin ⟨b, hb⟩ trivial (.single hab)⟩

/-- Among the numbers below `n` that a list leaves out, one points to no other. -/
theorem Acyclic.exists_next {r : ℕ → ℕ → Prop} (h : Acyclic r) {n : ℕ} {order : List ℕ}
    (hleft : order.length < n) : ∃ i < n, i ∉ order ∧ ∀ j < n, j ∉ order → ¬ r i j := by
  have hne : {i | i < n ∧ i ∉ order}.Nonempty := by
    by_contra hempty
    rw [Set.not_nonempty_iff_eq_empty, Set.eq_empty_iff_forall_notMem] at hempty
    have hsub : List.range n ⊆ order := fun i hi => by
      by_contra hnot
      exact hempty i ⟨mem_range.mp hi, hnot⟩
    have hle := (nodup_range.subperm hsub).length_le
    rw [length_range] at hle
    omega
  obtain ⟨i, ⟨hi, hnot⟩, hfree⟩ := h.exists_free ((Set.finite_lt_nat n).subset fun i hi => hi.1) hne
  exact ⟨i, hi, hnot, fun j hj hjnot => hfree j ⟨hj, hjnot⟩⟩

end OpenRFS.Digraph
