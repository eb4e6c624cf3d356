import OpenRFS.Surfaces.Drawing

/-!
# Copies inside a surface

`surface_copy_rect` reads and writes the same picture. The direction of its loops is chosen
so that no pixel is read after it was written, and the rectangle arrives as it was. A
rectangle that is not empty is refused if it starts outside of the surface or would reach
past the largest coordinate, at its source or at its target, also where the part inside
the surface would be small.
-/

namespace OpenRFS.Surfaces

open List Refresh

/-- The pixels of a rectangle have come to the target as they were, and no other cell has
changed. -/
def Moved (s : Surface) (source : Rect) (x y width height : ℕ) (pixels : Pixels) : Prop :=
  (∀ i < width, ∀ j < height, pixels (offsetOf s.pitch (x + i) (y + j)) =
    s.pixels (offsetOf s.pitch (source.x + i) (source.y + j))) ∧
  ∀ k, (∀ i < width, ∀ j < height, k ≠ offsetOf s.pitch (x + i) (y + j)) → pixels k = s.pixels k

variable {s : Surface} {source : Rect} {x y width height : ℕ} {rows columns : List ℕ}

/-- The order in which two nested loops visit the pixels. -/
theorem pairwise_product {R C : ℕ → ℕ → Prop} (h : rows.Pairwise R) (h' : columns.Pairwise C) :
    (rows ×ˢ columns).Pairwise fun p q => R p.1 q.1 ∨ p.1 = q.1 ∧ C p.2 q.2 := by
  refine pairwise_flatMap.mpr ⟨fun j _ => ?_, h.imp fun hrow => ?_⟩
  · exact pairwise_map.mpr (h'.imp fun hcolumn => .inr ⟨rfl, hcolumn⟩)
  · simp only [mem_map]
    rintro _ ⟨i, hi, rfl⟩ _ ⟨i', hi', rfl⟩
    exact .inl hrow

theorem storeLoop_moved (hrows : ∀ j, j ∈ rows ↔ j < height)
    (hcolumns : ∀ i, i ∈ columns ↔ i < width) (hsource : width ≤ s.width - source.x)
    (hinside : width ≤ s.width - x)
    (hsafe : (rows ×ˢ columns).Pairwise fun p q =>
      p ≠ q ∧ (x + p.2, y + p.1) ≠ (source.x + q.2, source.y + q.1)) :
    Moved s source x y width height (storeLoop s.pitch rows columns (x, y)
      (fun pixels i j => pixels (offsetOf s.pitch (source.x + i) (source.y + j))) s.pixels) := by
  have hmem {p : ℕ × ℕ} : p ∈ rows ×ˢ columns ↔ p.1 < height ∧ p.2 < width := by
    rw [mem_product, hrows, hcolumns]
  have hoffsets : (rows ×ˢ columns).Pairwise fun p q =>
      offsetOf s.pitch (x + p.2) (y + p.1) ≠ offsetOf s.pitch (x + q.2) (y + q.1) ∧
      offsetOf s.pitch (x + p.2) (y + p.1) ≠
        offsetOf s.pitch (source.x + q.2) (source.y + q.1) := by
    refine hsafe.imp_of_mem fun hp hq ⟨hfresh, hunread⟩ => ⟨fun heq => ?_, fun heq => ?_⟩
    all_goals
      rw [hmem] at hp hq
      obtain ⟨hx, hy⟩ := offsetOf_inj s.wide (by omega) (by omega) heq
    · exact hfresh (Prod.ext (Nat.add_left_cancel hy) (Nat.add_left_cancel hx))
    · exact hunread (Prod.ext hx hy)
  obtain ⟨hmoved, hkept⟩ := foldl_move hoffsets s.pixels
  simp only [SProd.sprod, List.product, foldl_flatMap, foldl_map] at hmoved hkept
  refine ⟨fun i hi j hj => hmoved (j, i) (hmem.mpr ⟨hj, hi⟩), fun k hk => hkept k fun p hp => ?_⟩
  obtain ⟨hj, hi⟩ := hmem.mp hp
  exact hk _ hi _ hj

theorem pairwise_ascending (count : ℕ) : (ascending count).Pairwise (· < ·) := pairwise_lt_range

theorem pairwise_descending (count : ℕ) : (descending count).Pairwise (· > ·) :=
  pairwise_reverse.mpr (pairwise_ascending count)

theorem copyLoop_moved (hsource : width ≤ s.width - source.x) (hinside : width ≤ s.width - x) :
    Moved s source x y width height (copyLoop s source x y width height) := by
  rw [copyLoop]
  split_ifs with hbelow hright
  · refine storeLoop_moved (fun _ => mem_descending) (fun _ => mem_ascending) hsource hinside ?_
    refine (pairwise_product (pairwise_descending _) (pairwise_ascending _)).imp fun h => ?_
    simp only [ne_eq, Prod.ext_iff]
    omega
  · refine storeLoop_moved (fun _ => mem_ascending) (fun _ => mem_descending) hsource hinside ?_
    refine (pairwise_product (pairwise_ascending _) (pairwise_descending _)).imp fun h => ?_
    simp only [ne_eq, Prod.ext_iff]
    omega
  · refine storeLoop_moved (fun _ => mem_ascending) (fun _ => mem_ascending) hsource hinside ?_
    refine (pairwise_product (pairwise_ascending _) (pairwise_ascending _)).imp fun h => ?_
    simp only [ne_eq, Prod.ext_iff]
    omega

/-- A rectangle with pixels that starts outside of the surface, or that reaches past the
largest coordinate. -/
def Rect.Misplaced (s : Surface) (r : Rect) : Prop :=
  r.width ≠ 0 ∧ r.height ≠ 0 ∧ (s.width ≤ r.x ∨ s.height ≤ r.y ∨
    uint32Max < r.x + r.width ∨ uint32Max < r.y + r.height)

def CopyRefused (s : Surface) (source : Rect) (x y : ℕ) : Prop :=
  s.active = false ∨ source.Misplaced s ∨ { source with x := x, y := y }.Misplaced s

instance : Decidable (CopyRefused s source x y) :=
  inferInstanceAs (Decidable (_ ∨ (_ ∧ _ ∧ _) ∨ (_ ∧ _ ∧ _)))

/-- What a copy leaves: the surface as it was if it is refused, and the rectangle, in the
size that both bounds leave of it, if not. -/
def Copied (s : Surface) (source : Rect) (x y : ℕ) (result : Status × Surface) : Prop :=
  if CopyRefused s source x y then result.1 ≠ .ok ∧ result.2 = s
  else result.1 = .ok ∧
    Moved s source x y (min source.width (min (s.width - source.x) (s.width - x)))
      (min source.height (min (s.height - source.y) (s.height - y))) result.2.pixels

theorem copied_refused {status : Status} (h : CopyRefused s source x y) (hne : status ≠ .ok) :
    Copied s source x y (status, s) :=
  (if_pos h).mpr ⟨hne, rfl⟩

theorem copied_moved {t : Surface} (h : ¬ CopyRefused s source x y)
    (hmoved : Moved s source x y (min source.width (min (s.width - source.x) (s.width - x)))
      (min source.height (min (s.height - source.y) (s.height - y))) t.pixels) :
    Copied s source x y (.ok, t) :=
  (if_neg h).mpr ⟨rfl, hmoved⟩

theorem clipRectangle_cases (s : Surface) (r : Rect) :
    (r.Misplaced s ∧ ∃ status, clipRectangle s r = .error status ∧ status ≠ .ok) ∨
    (r.width = 0 ∨ r.height = 0) ∧ clipRectangle s r = .ok { r with width := 0, height := 0 } ∨
    (r.width ≠ 0 ∧ r.height ≠ 0 ∧ r.x < s.width ∧ r.y < s.height) ∧ ¬ r.Misplaced s ∧
      clipRectangle s r = .ok { r with
        width := min r.width (s.width - r.x)
        height := min r.height (s.height - r.y) } := by
  unfold clipRectangle Rect.Misplaced
  split_ifs with hempty hout hover
  · exact .inr (.inl ⟨hempty, rfl⟩)
  · exact .inl ⟨by omega, _, rfl, by decide⟩
  · exact .inl ⟨by omega, _, rfl, by decide⟩
  · exact .inr (.inr ⟨by omega, by omega, rfl⟩)

/-- A copy is refused exactly if the surface is not active or the rectangle is misplaced at
its source or its target. Otherwise, whatever the overlap, the pixels of the target are the
old ones of the source, and nothing else changes. -/
theorem surfaceCopyRect_simultaneous (s : Surface) (source : Rect) (x y : ℕ) :
    Copied s source x y (surfaceCopyRect s source x y) := by
  unfold surfaceCopyRect
  split_ifs with hactive
  · exact copied_refused (.inl (by simpa using hactive)) (by decide)
  · rcases clipRectangle_cases s source with
      ⟨hmisplaced, status, hclip, hne⟩ | ⟨hzero, hclip⟩ | ⟨hinside, hplaced, hclip⟩
    · rw [hclip]
      exact copied_refused (.inr (.inl hmisplaced)) hne
    · -- nothing is to be copied, wherever the target is
      rw [hclip]
      refine copied_moved ?_ ⟨fun i hi j hj => by omega, fun _ _ => rfl⟩
      simp only [CopyRefused, Rect.Misplaced]
      rintro (hinactive | hsource | htarget)
      · simp [hinactive] at hactive
      · omega
      · omega
    · rw [hclip]
      dsimp only
      rw [if_neg (by omega)]
      rcases clipRectangle_cases s ⟨x, y, source.width, source.height⟩ with
        ⟨hmisplaced, status, htarget, hne⟩ | ⟨hzero, htarget⟩ | ⟨hinside', hplaced', htarget⟩
      · rw [htarget]
        exact copied_refused (.inr (.inr hmisplaced)) hne
      · simp only at hzero
        omega
      · rw [htarget]
        dsimp only
        have hmin (a b c : ℕ) : min (min a b) (min a c) = min a (min b c) := by omega
        rw [hmin, hmin]
        refine copied_moved ?_ (copyLoop_moved (by omega) (by omega))
        rintro (hinactive | hsource | htarget)
        · simp [hinactive] at hactive
        · exact hplaced hsource
        · exact hplaced' htarget

def countedSurface : Surface where
  active := true
  width := 4
  height := 3
  pitch := 24
  wide := by decide
  pixels k := UInt32.ofNat k
  damage := clearDamage
  presents := 0
  lastPresentPixels := 0
  presentedPixels := 0

/-- A rectangle that reaches past the largest coordinate is refused, although three of its
pixels have a place both at the source and at the target. -/
theorem surfaceCopyRect_overflow :
    surfaceCopyRect countedSurface ⟨0, 0, uint32Max, 1⟩ 1 0 =
        (.rectangleOverflow, countedSurface) ∧
      ¬ Moved countedSurface ⟨0, 0, uint32Max, 1⟩ 1 0 3 1
        (surfaceCopyRect countedSurface ⟨0, 0, uint32Max, 1⟩ 1 0).2.pixels := by
  have hrefused : surfaceCopyRect countedSurface ⟨0, 0, uint32Max, 1⟩ 1 0 =
      (.rectangleOverflow, countedSurface) := rfl
  refine ⟨hrefused, fun hmoved => ?_⟩
  rw [hrefused] at hmoved
  exact absurd (hmoved.1 0 (by decide) 0 (by decide)) (by decide)

end OpenRFS.Surfaces
