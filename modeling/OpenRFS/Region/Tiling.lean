import Mathlib

/-!
# Blocks that tile a range

A list of blocks, each with an offset and a size, tiles the range from `a` to `c`
when the first block starts at `a`, every block starts where the previous one
ends, and the last one ends at `c`. Sizes are positive, so that offsets ascend
strictly and a block is determined by its offset.

The start of the range is carried along by the recursion. The cut of a tiling into
two (`tiles_append`) is what edits of a table in the middle are read off from.
-/

namespace OpenRFS.Region

open List

variable {β : Type*} {offset size : β → ℕ}
variable {bs : List β} {a c : ℕ}

/-- The blocks cover the range from the first number to the second one, in
order, with neither gap nor overlap. -/
def Tiles (offset size : β → ℕ) : ℕ → List β → ℕ → Prop
  | a, [], c => a = c
  | a, b :: bs, c => offset b = a ∧ 0 < size b ∧ Tiles offset size (a + size b) bs c

@[simp] theorem tiles_nil : Tiles offset size a [] c ↔ a = c := Iff.rfl

@[simp] theorem tiles_cons {b : β} :
    Tiles offset size a (b :: bs) c ↔
      offset b = a ∧ 0 < size b ∧ Tiles offset size (a + size b) bs c := Iff.rfl

/-- A tiling can be cut between any two blocks. -/
theorem tiles_append {xs ys : List β} :
    Tiles offset size a (xs ++ ys) c ↔
      ∃ m, Tiles offset size a xs m ∧ Tiles offset size m ys c := by
  induction xs generalizing a with
  | nil => simp
  | cons x xs ih =>
    simp only [cons_append, tiles_cons, ih]
    constructor
    · rintro ⟨hx, hpos, m, hxs, hys⟩
      exact ⟨m, ⟨hx, hpos, hxs⟩, hys⟩
    · rintro ⟨m, ⟨hx, hpos, hxs⟩, hys⟩
      exact ⟨hx, hpos, m, hxs, hys⟩

/-- A run of blocks may be replaced by another one that covers the same range. -/
theorem Tiles.replace {xs ys ys' zs : List β} (h : Tiles offset size a (xs ++ ys ++ zs) c)
    (hys : ∀ m n, Tiles offset size m ys n → Tiles offset size m ys' n) :
    Tiles offset size a (xs ++ ys' ++ zs) c := by
  obtain ⟨n, hfront, hzs⟩ := tiles_append.mp h
  obtain ⟨m, hxs, hmid⟩ := tiles_append.mp hfront
  exact tiles_append.mpr ⟨n, tiles_append.mpr ⟨m, hxs, hys m n hmid⟩, hzs⟩

variable (h : Tiles offset size a bs c)
include h

theorem Tiles.le : a ≤ c := by
  induction bs generalizing a with
  | nil => exact le_of_eq h
  | cons b bs ih => exact (Nat.le_add_right _ _).trans (ih h.2.2)

/-- Every block of a tiling lies inside the range. -/
theorem Tiles.bounds {b : β} (hb : b ∈ bs) : a ≤ offset b ∧ offset b + size b ≤ c := by
  induction bs generalizing a with
  | nil => cases hb
  | cons x xs ih =>
    obtain ⟨hx, _, hxs⟩ := h
    rcases mem_cons.mp hb with rfl | hb
    · exact ⟨hx.ge, hx ▸ hxs.le⟩
    · exact ⟨(Nat.le_add_right _ _).trans (ih hxs hb).1, (ih hxs hb).2⟩

theorem Tiles.pos {b : β} (hb : b ∈ bs) : 0 < size b := by
  induction bs generalizing a with
  | nil => cases hb
  | cons x xs ih =>
    rcases mem_cons.mp hb with rfl | hb
    · exact h.2.1
    · exact ih h.2.2 hb

/-- Every block of a tiling ends where the later ones start, or before. -/
theorem Tiles.pairwise : bs.Pairwise fun x y => offset x + size x ≤ offset y := by
  induction bs generalizing a with
  | nil => exact List.Pairwise.nil
  | cons b bs ih =>
    refine pairwise_cons.mpr ⟨fun y hy => ?_, ih h.2.2⟩
    rw [h.1]
    exact (h.2.2.bounds hy).1

/-- No two blocks of a tiling have one offset. -/
theorem Tiles.nodup_offset : (bs.map offset).Nodup := by
  refine pairwise_map.mpr (h.pairwise.imp_of_mem ?_)
  intro x y hx _ hxy heq
  have := h.pos hx
  omega

/-- Where all sizes are multiples of one number and the range starts at one, the
offsets are multiples of it as well. -/
theorem Tiles.dvd_offset {d : ℕ} (ha : d ∣ a)
    (hd : ∀ b ∈ bs, d ∣ size b) {b : β} (hb : b ∈ bs) : d ∣ offset b := by
  induction bs generalizing a with
  | nil => cases hb
  | cons x xs ih =>
    rcases mem_cons.mp hb with rfl | hb
    · rw [h.1]
      exact ha
    · exact ih h.2.2 (Nat.dvd_add ha (hd x mem_cons_self))
        (fun y hy => hd y (mem_cons_of_mem _ hy)) hb

/-- A block of a tiling is determined by its offset. -/
theorem Tiles.eq_of_offset_eq {x y : β} (hx : x ∈ bs) (hy : y ∈ bs)
    (heq : offset x = offset y) : x = y :=
  inj_on_of_nodup_map h.nodup_offset hx hy heq

/-- Two different blocks of a tiling do not meet. -/
theorem Tiles.apart {x y : β} (hx : x ∈ bs) (hy : y ∈ bs) (hne : x ≠ y) :
    offset x + size x ≤ offset y ∨ offset y + size y ≤ offset x := by
  have hpair : bs.Pairwise fun x y => offset x + size x ≤ offset y ∨
      offset y + size y ≤ offset x := h.pairwise.imp .inl
  have : Std.Symm fun x y => offset x + size x ≤ offset y ∨ offset y + size y ≤ offset x :=
    ⟨fun _ _ => Or.symm⟩
  exact hpair.forall hx hy hne

end OpenRFS.Region
