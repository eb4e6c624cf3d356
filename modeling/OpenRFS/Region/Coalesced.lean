import OpenRFS.Region.Tiling

/-!
# Tables without free neighbours

A table of blocks is kept coalesced: of two neighbours at least one is in use.
Whether two blocks may stand next to each other depends on `used` alone, so that a
block may be exchanged for another one with the same mark, and a block in use may
be put next to anything. A coalesced table that covers a range with no block in
use is a single block.
-/

namespace OpenRFS.Region

open List

variable {β : Type*} {used : β → Bool}

/-- Two blocks that may stand next to each other: they are not both free. -/
def Spaced (used : β → Bool) (a b : β) : Prop := used a = true ∨ used b = true

def taken (used : β → Bool) (bs : List β) : List β := bs.filter used

@[simp] theorem taken_nil : taken used [] = [] := rfl

@[simp] theorem taken_append (xs ys : List β) :
    taken used (xs ++ ys) = taken used xs ++ taken used ys := filter_append ..

variable {b : β} {bs front back : List β}

@[simp] theorem taken_cons_of_used (h : used b) (bs : List β) :
    taken used (b :: bs) = b :: taken used bs := filter_cons_of_pos h

@[simp] theorem taken_cons_of_free (h : used b = false) (bs : List β) :
    taken used (b :: bs) = taken used bs := filter_cons_of_neg (by simp [h])

theorem mem_taken : b ∈ taken used bs ↔ b ∈ bs ∧ used b :=
  mem_filter

theorem Spaced.not_free {a : β} (h : Spaced used a b) : ¬ (used a = false ∧ used b = false) := by
  rcases h with h | h <;> simp [h]

/-- No two blocks in use of a tiling have one start, if starts are apart as offsets are. -/
theorem Tiles.nodup_starts {κ : Type*} {offset size : β → ℕ} {a c : ℕ} {start : β → κ}
    (h : Tiles offset size a bs c)
    (hstart : ∀ x ∈ bs, ∀ y ∈ bs, start x = start y → offset x = offset y) :
    ((taken used bs).map start).Nodup := by
  have hnodup : (taken used bs).Nodup := (List.Nodup.of_map _ h.nodup_offset).filter _
  refine hnodup.map_on fun x hx y hy heq => ?_
  obtain ⟨hx, -⟩ := mem_taken.mp hx
  obtain ⟨hy, -⟩ := mem_taken.mp hy
  exact h.eq_of_offset_eq hx hy (hstart x hx y hy heq)

/-! ### Neighbours -/

theorem getElem?_cut (front back : List β) (a b : β) :
    (front ++ a :: b :: back)[front.length]? = some a ∧
      (front ++ a :: b :: back)[front.length + 1]? = some b := by
  simp

/-- Exchanging one block of a pair of neighbours and dropping the other. -/
theorem eraseIdx_set_cut (front back : List β) (a b c : β) :
    ((front ++ a :: b :: back).set front.length c).eraseIdx (front.length + 1) =
      front ++ c :: back := by
  rw [set_append_right _ _ le_rfl, Nat.sub_self, set_cons_zero,
    eraseIdx_append_of_length_le (Nat.le_succ _)]
  simp

theorem isChain_concat_used (h : front.IsChain (Spaced used)) (hb : used b) :
    (front ++ [b]).IsChain (Spaced used) :=
  isChain_append.mpr ⟨h, isChain_singleton b, fun _ _ y hy => by
    rw [head?_cons, Option.mem_def, Option.some.injEq] at hy
    exact .inr (hy ▸ hb)⟩

theorem isChain_cons_used (h : back.IsChain (Spaced used)) (hb : used b) :
    (b :: back).IsChain (Spaced used) :=
  isChain_cons.mpr ⟨fun _ _ => .inl hb, h⟩

theorem isChain_cons_congr {b' : β} (hused : used b' = used b)
    (h : (b :: back).IsChain (Spaced used)) : (b' :: back).IsChain (Spaced used) := by
  obtain ⟨hhead, htail⟩ := isChain_cons.mp h
  refine isChain_cons.mpr ⟨fun y hy => ?_, htail⟩
  rw [Spaced, hused]
  exact hhead y hy

theorem isChain_concat_congr {b' : β} (hused : used b' = used b)
    (h : (front ++ [b]).IsChain (Spaced used)) : (front ++ [b']).IsChain (Spaced used) := by
  obtain ⟨hfront, _, hlast⟩ := isChain_append.mp h
  refine isChain_append.mpr ⟨hfront, isChain_singleton b', fun x hx y hy => ?_⟩
  rw [head?_cons, Option.mem_def, Option.some.injEq] at hy
  rw [Spaced, ← hy, hused]
  exact hlast x hx b rfl

/-- A coalesced table can be cut at any block, which then belongs to both parts. -/
theorem isChain_cut :
    (front ++ b :: back).IsChain (Spaced used) ↔
      (front ++ [b]).IsChain (Spaced used) ∧ (b :: back).IsChain (Spaced used) :=
  isChain_split

/-- A coalesced table over a range that is not empty, with nothing in use, is a
single free block. -/
theorem Tiles.eq_singleton_of_taken_eq_nil {offset size : β → ℕ} {a c : ℕ}
    (h : Tiles offset size a bs c) (hspaced : bs.IsChain (Spaced used)) (hnone : taken used bs = [])
    (hac : a < c) : ∃ b, bs = [b] ∧ offset b = a ∧ a + size b = c ∧ used b = false := by
  have hfree : ∀ b ∈ bs, used b = false := by
    intro b hb
    by_contra hnot
    have hmem : b ∈ taken used bs := mem_taken.mpr ⟨hb, by simpa using hnot⟩
    simp [hnone] at hmem
  match bs, h, hfree, hspaced with
  | [], h, _, _ =>
    rw [tiles_nil] at h
    omega
  | [b], h, hfree, _ => exact ⟨b, rfl, h.1, h.2.2, hfree b (by simp)⟩
  | x :: y :: rest, _, hfree, hspaced =>
    exact absurd ⟨hfree x (by simp), hfree y (by simp)⟩
      (isChain_cons_cons.mp hspaced).1.not_free

end OpenRFS.Region
