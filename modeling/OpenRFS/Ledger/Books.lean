import Mathlib

/-!
# Counting in tables

`tally p g` is the number of places of a table `g` at which `p` holds, and an update of
one place changes it by what that place did.
-/

namespace OpenRFS.Ledger

open Function Finset

section Tally

variable {κ α : Type} [Fintype κ]

def tally (p : α → Bool) (g : κ → α) : ℕ :=
  (Finset.univ.filter fun k => p (g k)).card

theorem tally_eq_zero {p : α → Bool} {g : κ → α} : tally p g = 0 ↔ ∀ k, p (g k) = false := by
  simp [tally, filter_eq_empty_iff]

theorem tally_eq_sum (p : α → Bool) (g : κ → α) : tally p g = ∑ k, (p (g k)).toNat := by
  rw [tally, card_filter]
  refine sum_congr rfl fun k _ => ?_
  cases p (g k) <;> rfl

theorem tally_eq_countP {n : ℕ} (p : α → Bool) (g : Fin n → α) :
    tally p g = (List.finRange n).countP fun k => p (g k) := by
  rw [tally, Fin.univ_def, card_def, filter_val, Multiset.filter_coe,
    Multiset.coe_card, List.countP_eq_length_filter]
  simp

/-- An update of one place changes a sum over the table by what that place adds. -/
theorem sum_update [DecidableEq κ] {M : Type} [AddCommMonoid M] (f : α → M) (g : κ → α) (k : κ)
    (a : α) : ∑ j, f (update g k a j) + f (g k) = ∑ j, f (g j) + f a := by
  have hsum : ∀ g : κ → α, ∑ j, f (g j) = f (g k) + ∑ j ∈ Finset.univ.erase k, f (g j) := fun g =>
    (add_sum_erase Finset.univ (fun j => f (g j)) (mem_univ k)).symm
  have hrest : ∑ j ∈ Finset.univ.erase k, f (update g k a j) =
      ∑ j ∈ Finset.univ.erase k, f (g j) := by
    refine sum_congr rfl fun j hj => ?_
    rw [update_of_ne (ne_of_mem_erase hj)]
  rw [hsum (update g k a), hsum g, hrest, update_self]
  exact add_right_comm _ _ _ |>.trans (by rw [add_comm (f a) (f (g k)), add_right_comm])

theorem tally_update [DecidableEq κ] (p : α → Bool) (g : κ → α) (k : κ) (a : α) :
    tally p (update g k a) + (p (g k)).toNat = tally p g + (p a).toNat := by
  rw [tally_eq_sum, tally_eq_sum]
  exact sum_update (fun a => (p a).toNat) g k a

end Tally

end OpenRFS.Ledger
