import Mathlib

/-!
# Fixed layouts

A record with a fixed layout is a list of symbols together with the list of
the widths of its fields. `slice l off n` is the window of `n` symbols at the
offset `off`, and `cutAt off ws l` cuts consecutive fields of the widths `ws`
out of `l`, starting at `off`. The offset is carried along explicitly, so that
for a concrete list of widths the fields come out as slices at the concrete
offsets a program reads them at.

Cutting and concatenating are inverse to each other in both directions:
`flatten_cutAt` rebuilds a record from its fields, and `cutAt_flatten` finds
the fields in a record that was built from them.
-/

namespace OpenRFS.Codec

open List

def slice {α : Type*} (l : List α) (off n : ℕ) : List α :=
  (l.drop off).take n

/-- Consecutive fields of the widths `ws`, cut out of `l` from the offset `off`
on. -/
def cutAt {α : Type*} : ℕ → List ℕ → List α → List (List α)
  | _, [], _ => []
  | off, w :: ws, l => slice l off w :: cutAt (off + w) ws l

variable {α : Type*}

@[simp] theorem slice_zero_width (l : List α) (off : ℕ) : slice l off 0 = [] := by
  simp [slice]

@[simp] theorem slice_self (l : List α) : slice l 0 l.length = l := by
  simp [slice]

theorem length_slice (l : List α) (off n : ℕ) :
    (slice l off n).length = min n (l.length - off) := by
  simp [slice]

theorem length_slice_of_le {l : List α} {off n : ℕ}
    (h : off + n ≤ l.length) : (slice l off n).length = n := by
  rw [length_slice]
  omega

/-- Two adjacent windows make one. -/
theorem slice_append_slice (l : List α) (off m n : ℕ) :
    slice l off m ++ slice l (off + m) n = slice l off (m + n) := by
  rw [slice, slice, slice, ← drop_drop, take_add]

/-- A window that lies behind a list of known length does not see that list. -/
theorem slice_append_right (p l : List α) (off n : ℕ) :
    slice (p ++ l) (p.length + off) n = slice l off n := by
  rw [slice, slice, ← drop_drop, drop_left]

/-- A window that ends before the appended list does not see that list. -/
theorem slice_append_left {p l : List α} {off n : ℕ}
    (h : off + n ≤ p.length) : slice (p ++ l) off n = slice p off n := by
  rw [slice, slice, drop_append_of_le_length (by omega), take_append_of_le_length (by simp; omega)]

@[simp] theorem cutAt_nil (off : ℕ) (l : List α) : cutAt off [] l = [] := rfl

theorem cutAt_cons (off w : ℕ) (ws : List ℕ) (l : List α) :
    cutAt off (w :: ws) l = slice l off w :: cutAt (off + w) ws l := rfl

/-- The fields of a layout, put back together, are the window they span. -/
theorem flatten_cutAt (off : ℕ) (ws : List ℕ) (l : List α) :
    (cutAt off ws l).flatten = slice l off ws.sum := by
  induction ws generalizing off with
  | nil => simp
  | cons w ws ih =>
    rw [cutAt_cons, flatten_cons, ih, slice_append_slice, sum_cons]

/-- A list as long as its layout is the concatenation of its fields. -/
theorem flatten_cutAt_eq_self (ws : List ℕ) (l : List α)
    (h : l.length = ws.sum) : (cutAt 0 ws l).flatten = l := by
  rw [flatten_cutAt, ← h, slice_self]

/-- The fields of a concatenation of fields, met behind the list `p` and before
the list `q`, are the fields it was built from. -/
theorem cutAt_append_flatten (p q : List α) (fs : List (List α)) :
    cutAt p.length (fs.map List.length) (p ++ (fs.flatten ++ q)) = fs := by
  induction fs generalizing p with
  | nil => rfl
  | cons f fs ih =>
    have hfield : slice (p ++ ((f :: fs).flatten ++ q)) p.length f.length = f := by
      have h := slice_append_right p ((f :: fs).flatten ++ q) 0 f.length
      rw [add_zero] at h
      rw [h, flatten_cons, append_assoc, slice_append_left (by simp), slice_self]
    have hshift : p ++ ((f :: fs).flatten ++ q) = (p ++ f) ++ (fs.flatten ++ q) := by simp
    rw [map_cons, cutAt_cons, hfield, hshift, ← length_append, ih]

theorem cutAt_flatten (fs : List (List α)) : cutAt 0 (fs.map List.length) fs.flatten = fs := by
  simpa using cutAt_append_flatten [] [] fs

/-- Records of one layout are equal only if all their fields are. -/
theorem flatten_injective_of_widths {fs gs : List (List α)}
    (hw : fs.map List.length = gs.map List.length) (h : fs.flatten = gs.flatten) : fs = gs := by
  rw [← cutAt_flatten fs, ← cutAt_flatten gs, hw, h]

/-- Fields of equal width are the slices at the multiples of that width. -/
theorem cutAt_replicate (off n w : ℕ) (l : List α) :
    cutAt off (List.replicate n w) l = (List.range n).map fun i => slice l (off + i * w) w := by
  induction n generalizing off with
  | zero => rfl
  | succ n ih =>
    rw [replicate_succ, cutAt_cons, ih, range_succ_eq_map]
    simp only [map_cons, map_map, Nat.zero_mul, add_zero]
    congr 1
    apply map_congr_left
    intro i _
    simp only [Function.comp_apply, Nat.succ_mul]
    congr 1
    omega

/-- The records of a table of equal widths, put back together. -/
theorem flatten_map_slice (off n w : ℕ) (l : List α) :
    ((List.range n).map fun i => slice l (off + i * w) w).flatten = slice l off (n * w) := by
  rw [← cutAt_replicate, flatten_cutAt, sum_replicate_nat]

theorem map_length_of_forall {fs : List (List α)} {w : ℕ} (h : ∀ f ∈ fs, f.length = w) :
    fs.map List.length = List.replicate fs.length w := by
  rw [eq_replicate_iff]
  simpa using h

theorem length_flatten_of_forall {fs : List (List α)} {w : ℕ}
    (h : ∀ f ∈ fs, f.length = w) : fs.flatten.length = fs.length * w := by
  rw [length_flatten, map_length_of_forall h, sum_replicate_nat]

/-- The records of a table of equal widths, found behind `p` and before `q`. -/
theorem map_slice_flatten {p q : List α} {fs : List (List α)} {w : ℕ} (h : ∀ f ∈ fs, f.length = w) :
    ((List.range fs.length).map fun i =>
      slice (p ++ (fs.flatten ++ q)) (p.length + i * w) w) = fs := by
  rw [← cutAt_replicate, ← map_length_of_forall h, cutAt_append_flatten]

end OpenRFS.Codec
