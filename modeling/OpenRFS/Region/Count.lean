import Mathlib

/-!
# Runs of marked numbers

How many numbers below a bound satisfy a predicate, when the predicate changes on
one run of consecutive numbers only. The marks of an arena with gaps are the numbers
of disjoint blocks, each of which is such a run.
-/

namespace OpenRFS.Region

open Finset

variable {p q : ℕ → Prop} [DecidablePred p] [DecidablePred q]

/-- A run that is added to a predicate adds its length to the count. -/
theorem count_add_run {n first length : ℕ} (hn : first + length ≤ n)
    (hnew : ∀ k, first ≤ k → k < first + length → ¬ p k)
    (hq : ∀ k, q k ↔ p k ∨ first ≤ k ∧ k < first + length) :
    Nat.count q n = Nat.count p n + length := by
  have hsplit : (Finset.range n).filter q =
      (Finset.range n).filter p ∪ Finset.Ico first (first + length) := by
    ext k
    simp only [mem_filter, mem_range, mem_union, mem_Ico, hq]
    constructor
    · rintro ⟨hk, hp | hrun⟩
      · exact .inl ⟨hk, hp⟩
      · exact .inr hrun
    · rintro (⟨hk, hp⟩ | hrun)
      · exact ⟨hk, .inl hp⟩
      · exact ⟨by omega, .inr hrun⟩
  have hdisjoint : Disjoint ((Finset.range n).filter p) (Finset.Ico first (first + length)) := by
    refine disjoint_left.mpr fun k hp hrun => ?_
    rw [mem_Ico] at hrun
    exact hnew k hrun.1 hrun.2 (mem_filter.mp hp).2
  rw [Nat.count_eq_card_filter_range, Nat.count_eq_card_filter_range, hsplit,
    card_union_of_disjoint hdisjoint, Nat.card_Ico, Nat.add_sub_cancel_left]

section Marks

variable {β : Type*} {offset size : β → ℕ} {bs : List β} {b : β} {n total : ℕ}

def Covers (offset size : β → ℕ) (b : β) (k : ℕ) : Prop :=
  offset b ≤ k ∧ k < offset b + size b

def Apart (offset size : β → ℕ) (a b : β) : Prop :=
  ∀ k, ¬ (Covers offset size a k ∧ Covers offset size b k)

theorem Apart.symm {a : β} (h : Apart offset size a b) : Apart offset size b a :=
  fun k hk => h k hk.symm

/-- The numbers with a mark are those of disjoint blocks below `n`, `total` in all. -/
structure Marks (offset size : β → ℕ) (p : ℕ → Prop) [DecidablePred p] (n : ℕ) (bs : List β)
    (total : ℕ) : Prop where
  count : Nat.count p n = total
  covered : ∀ k, p k ↔ ∃ b ∈ bs, Covers offset size b k
  disjoint : bs.Pairwise (Apart offset size)
  inside : ∀ b ∈ bs, offset b + size b ≤ n

theorem Marks.perm {bs' : List β} (h : Marks offset size p n bs total) (hperm : bs'.Perm bs) :
    Marks offset size p n bs' total where
  count := h.count
  covered k := (h.covered k).trans (exists_congr fun _ => and_congr_left fun _ => hperm.mem_iff.symm)
  disjoint := hperm.symm.pairwise h.disjoint Apart.symm
  inside b hb := h.inside b (hperm.mem_iff.mp hb)

theorem Marks.add (h : Marks offset size p n bs total) (hinside : offset b + size b ≤ n)
    (hfree : ∀ k, Covers offset size b k → ¬ p k)
    (hq : ∀ k, q k ↔ p k ∨ Covers offset size b k) :
    Marks offset size q n (b :: bs) (total + size b) := by
  refine ⟨?_, fun k => ?_, ?_, List.forall_mem_cons.mpr ⟨hinside, h.inside⟩⟩
  · rw [← h.count]
    exact count_add_run hinside (fun k hfirst hlast => hfree k ⟨hfirst, hlast⟩) hq
  · rw [hq, h.covered, List.exists_mem_cons_iff, or_comm]
  · refine List.pairwise_cons.mpr ⟨fun other hother k hk => ?_, h.disjoint⟩
    exact hfree k hk.1 ((h.covered k).mpr ⟨other, hother, hk.2⟩)

theorem Marks.drop (h : Marks offset size p n (b :: bs) total)
    (hq : ∀ k, q k ↔ p k ∧ ¬ Covers offset size b k) :
    Marks offset size q n bs (total - size b) := by
  obtain ⟨hapart, hdisjoint⟩ := List.pairwise_cons.mp h.disjoint
  obtain ⟨hinside, hrest⟩ := List.forall_mem_cons.mp h.inside
  refine ⟨?_, fun k => ?_, hdisjoint, hrest⟩
  · have hcount : Nat.count p n = Nat.count q n + size b := by
      refine count_add_run hinside (fun k hfirst hlast hk => ?_) fun k => ?_
      · exact ((hq k).mp hk).2 ⟨hfirst, hlast⟩
      · have hmarked : Covers offset size b k → p k := fun hk =>
          (h.covered k).mpr ⟨b, List.mem_cons_self, hk⟩
        rw [hq]
        change p k ↔ (p k ∧ ¬ Covers offset size b k) ∨ Covers offset size b k
        tauto
    rw [← h.count]
    omega
  · rw [hq, h.covered, List.exists_mem_cons_iff]
    constructor
    · rintro ⟨hk | hk, hnot⟩
      · exact absurd hk hnot
      · exact hk
    · rintro ⟨other, hother, hk⟩
      exact ⟨.inr ⟨other, hother, hk⟩, fun hb => hapart other hother k ⟨hb, hk⟩⟩

end Marks

end OpenRFS.Region
