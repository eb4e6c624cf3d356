import Mathlib

/-!
# Rotating through slots

`nextReady` looks for the first ready slot behind a given one, cyclically, and stays
where it is if there is none. The slots between a place and a ready one become fewer
with every turn, so a ready slot is chosen after fewer turns than there are slots.
-/

namespace OpenRFS.Schedule

variable {n : ℕ}

def behind (i : Fin n) (k : ℕ) : Fin n :=
  ⟨(i.val + k) % n, Nat.mod_lt _ i.pos⟩

def nextReady (ready : Fin n → Bool) (i : Fin n) : Fin n :=
  match (List.range n).find? fun k => ready (behind i (k + 1)) with
  | some k => behind i (k + 1)
  | none => i

def distance (i r : Fin n) : ℕ := (r.val + n - i.val) % n

theorem distance_lt (i r : Fin n) : distance i r < n := Nat.mod_lt _ i.pos

theorem behind_distance (i r : Fin n) : behind i (distance i r) = r := by
  have hi := i.isLt
  have hr := r.isLt
  apply Fin.ext
  show (i.val + (r.val + n - i.val) % n) % n = r.val
  rw [Nat.add_mod_mod, show i.val + (r.val + n - i.val) = r.val + n by omega,
    Nat.add_mod_right, Nat.mod_eq_of_lt hr]

theorem distance_behind {i r : Fin n} {k : ℕ} (h : k ≤ distance i r) :
    distance (behind i k) r = distance i r - k := by
  have hi := i.isLt
  have hr := r.isLt
  unfold distance behind at *
  dsimp only
  rcases lt_or_ge r.val i.val with hlt | hge
  · have hdist : (r.val + n - i.val) % n = r.val + n - i.val := Nat.mod_eq_of_lt (by omega)
    rcases lt_or_ge (i.val + k) n with hk | hk
    · rw [Nat.mod_eq_of_lt hk, Nat.mod_eq_of_lt (by omega)]
      omega
    · rw [Nat.mod_eq_sub_mod hk, Nat.mod_eq_of_lt (by omega : i.val + k - n < n),
        Nat.mod_eq_sub_mod (by omega), Nat.mod_eq_of_lt (by omega)]
      omega
  · have hdist : (r.val + n - i.val) % n = r.val - i.val := by
      rw [Nat.mod_eq_sub_mod (by omega), Nat.mod_eq_of_lt (by omega)]
      omega
    rw [Nat.mod_eq_of_lt (by omega : i.val + k < n), Nat.mod_eq_sub_mod (by omega),
      Nat.mod_eq_of_lt (by omega)]
    omega

theorem distance_pos {i r : Fin n} (h : r ≠ i) : 0 < distance i r := by
  by_contra hzero
  have hsame := behind_distance i r
  rw [show distance i r = 0 by omega] at hsame
  have hi : behind i 0 = i := Fin.ext (Nat.mod_eq_of_lt i.isLt)
  exact h (hsame.symm.trans hi)

variable {ready : Fin n → Bool} {i r : Fin n}

/-- Some slot is ready and is found, or none is. -/
theorem nextReady_cases (ready : Fin n → Bool) (i : Fin n) :
    (∃ k < n, nextReady ready i = behind i (k + 1) ∧ ready (behind i (k + 1)) ∧
      ∀ j < k, ready (behind i (j + 1)) = false) ∨
    nextReady ready i = i ∧ ∀ k < n, ready (behind i (k + 1)) = false := by
  unfold nextReady
  cases hfind : (List.range n).find? fun k => ready (behind i (k + 1)) with
  | none =>
    rw [List.find?_range_eq_none] at hfind
    exact .inr ⟨rfl, fun k hk => by simpa using hfind k hk⟩
  | some k =>
    obtain ⟨hready, hmem, hfirst⟩ := List.find?_range_eq_some.mp hfind
    exact .inl ⟨k, List.mem_range.mp hmem, rfl, hready, fun j hj => by simpa using hfirst j hj⟩

/-- A turn goes to a ready slot if it goes anywhere. -/
theorem ready_nextReady (h : nextReady ready i ≠ i) : ready (nextReady ready i) := by
  rcases nextReady_cases ready i with ⟨k, -, hnext, hready, -⟩ | ⟨hsame, -⟩
  · rw [hnext]
    exact hready
  · exact absurd hsame h

/-- A ready slot is nearer after the turn. -/
theorem distance_nextReady (hready : ready r) (hne : r ≠ i) :
    distance (nextReady ready i) r < distance i r := by
  have hpos := distance_pos hne
  have hlt := distance_lt i r
  have hat := behind_distance i r
  rcases nextReady_cases ready i with ⟨k, -, hnext, -, hfirst⟩ | ⟨-, hnone⟩
  · have hle : k + 1 ≤ distance i r := by
      by_contra hgt
      have hidle := hfirst (distance i r - 1) (by omega)
      rw [Nat.sub_add_cancel hpos, hat, hready] at hidle
      cases hidle
    rw [hnext, distance_behind hle]
    omega
  · have hidle := hnone (distance i r - 1) (by omega)
    rw [Nat.sub_add_cancel hpos, hat, hready] at hidle
    cases hidle

end OpenRFS.Schedule
