import OpenRFS.Refresh.Damage
import OpenRFS.Surfaces.Surface

/-!
# What drawing changes

Every drawing call writes inside one rectangle of the surface and adds that rectangle
to the damage; a call that is refused or draws nothing does so with an empty one. This
is `Drawn`, and nothing else about the four calls is needed to see that the damage
stays a cover.
-/

namespace OpenRFS.Surfaces

open Refresh

def Rect.Contains (r : Rect) (x y : ℕ) : Prop :=
  (r.x ≤ x ∧ x < r.x + r.width) ∧ r.y ≤ y ∧ y < r.y + r.height

instance (r : Rect) (x y : ℕ) : Decidable (r.Contains x y) :=
  inferInstanceAs (Decidable (_ ∧ _))

/-- The rectangle lies inside a picture of the given size. -/
def Rect.Inside (r : Rect) (width height : ℕ) : Prop :=
  r.x + r.width ≤ width ∧ r.y + r.height ≤ height

/-- Pending damage lies inside a picture of the given size. -/
def Damage.Inside (d : Damage) (width height : ℕ) : Prop :=
  d.pending = true → d.rectangle.Inside width height

def Damage.Contains (d : Damage) (x y : ℕ) : Prop :=
  d.pending = true ∧ d.rectangle.Contains x y

/-! ### Damage -/

variable {r : Rect} {width x y pitch : ℕ} {rows columns : List ℕ}

theorem addDamage_inside {d : Damage} {height : ℕ} (hd : d.Inside width height)
    (hr : r.Inside width height) : (addDamage d r).Inside width height := by
  intro _
  rw [addDamage]
  split_ifs with hempty hpending
  · rename_i h
    rw [addDamage, if_pos hempty] at h
    exact hd h
  · exact hr
  · obtain ⟨hdx, hdy⟩ := hd (by simpa using hpending)
    obtain ⟨hrx, hry⟩ := hr
    exact ⟨by simp only; omega, by simp only; omega⟩

theorem Damage.Contains.add {d : Damage} (h : d.Contains x y) (r : Rect) :
    (addDamage d r).Contains x y := by
  obtain ⟨hpending, ⟨hleft, hright⟩, htop, hbottom⟩ := h
  rw [addDamage]
  split_ifs with hempty hnone
  · exact ⟨hpending, ⟨hleft, hright⟩, htop, hbottom⟩
  · simp [hpending] at hnone
  · exact ⟨hpending, ⟨by simp only; omega, by simp only; omega⟩, by simp only; omega,
      by simp only; omega⟩

theorem Rect.Contains.added (h : r.Contains x y) (d : Damage) : (addDamage d r).Contains x y := by
  obtain ⟨⟨hleft, hright⟩, htop, hbottom⟩ := h
  rw [addDamage]
  split_ifs with hempty hnone
  · omega
  · exact ⟨rfl, ⟨hleft, hright⟩, htop, hbottom⟩
  · exact ⟨by simpa using hnone, ⟨by simp only; omega, by simp only; omega⟩, by simp only; omega,
      by simp only; omega⟩

theorem clipRectangle_ok {s : Surface} {c : Rect} (h : clipRectangle s r = .ok c) :
    c.x = r.x ∧ c.y = r.y ∧
      (c.Inside s.width s.height ∨ (r.width = 0 ∨ r.height = 0) ∧ c.width = 0) := by
  rw [clipRectangle] at h
  split_ifs at h with hempty hout hwrap
  · cases h
    exact ⟨rfl, rfl, .inr ⟨hempty, rfl⟩⟩
  · cases h
    exact ⟨rfl, rfl, .inl ⟨by simp only; omega, by simp only; omega⟩⟩

/-! ### Loops -/

theorem offsetOf_inj {x' y' : ℕ} (hwide : bytesPerPixel * width ≤ pitch) (hx : x < width)
    (hx' : x' < width) (h : offsetOf pitch x y = offsetOf pitch x' y') : x = x' ∧ y = y' := by
  rw [offsetOf, offsetOf, bytesPerPixel] at *
  rcases lt_trichotomy y y' with hlt | rfl | hlt
  · have hrow := Nat.mul_le_mul_right pitch (Nat.succ_le_of_lt hlt)
    rw [Nat.succ_mul] at hrow
    omega
  · exact ⟨by omega, rfl⟩
  · have hrow := Nat.mul_le_mul_right pitch (Nat.succ_le_of_lt hlt)
    rw [Nat.succ_mul] at hrow
    omega

theorem storeLoop_wrote {origin : ℕ × ℕ} {value : Pixels → ℕ → ℕ → UInt32} {R : ℕ → UInt32 → Prop}
    (h : ∀ y ∈ rows, ∀ x ∈ columns, ∀ pixels : Pixels,
      R (offsetOf pitch (origin.1 + x) (origin.2 + y)) (value pixels x y)) (pixels : Pixels) :
    Wrote {k | ∃ y ∈ rows, k ∈ {k | ∃ x ∈ columns,
        k ∈ ({offsetOf pitch (origin.1 + x) (origin.2 + y)} : Set ℕ)}} R pixels
      (storeLoop pitch rows columns origin value pixels) :=
  Wrote.foldl (fun y hy _ => Wrote.foldl (fun x hx m => wrote_update m (h y hy x hx m)) _) pixels

theorem storeLoop_kept {height : ℕ} (hwide : bytesPerPixel * width ≤ pitch)
    (hr : r.Inside width height) (hrows : ∀ y ∈ rows, y < r.height)
    (hcolumns : ∀ x ∈ columns, x < r.width) (value : Pixels → ℕ → ℕ → UInt32) (pixels : Pixels)
    (hx : x < width) (hout : ¬ r.Contains x y) :
    storeLoop pitch rows columns (r.x, r.y) value pixels (offsetOf pitch x y) =
      pixels (offsetOf pitch x y) := by
  have hwrote : Wrote _ (fun _ _ => True) pixels
      (storeLoop pitch rows columns (r.x, r.y) value pixels) :=
    storeLoop_wrote (fun _ _ _ _ _ => trivial) pixels
  refine hwrote.kept _ fun hin => hout ?_
  obtain ⟨dy, hdy, dx, hdx, heq⟩ := hin
  have hxw : r.x + dx < width := by
    have := hcolumns dx hdx
    have := hr.1
    omega
  obtain ⟨rfl, rfl⟩ := offsetOf_inj hwide hx hxw (Set.mem_singleton_iff.mp heq)
  have := hcolumns dx hdx
  have := hrows dy hdy
  exact ⟨⟨by omega, by omega⟩, by omega, by omega⟩

theorem mem_ascending {count i : ℕ} : i ∈ ascending count ↔ i < count := List.mem_range

theorem mem_descending {count i : ℕ} : i ∈ descending count ↔ i < count := by
  rw [descending, List.mem_reverse, List.mem_range]

/-! ### The drawing calls -/

/-- What a drawing call does to a surface: it writes inside a rectangle and adds the
rectangle to the damage. -/
structure Drawn (s s' : Surface) (r : Rect) : Prop where
  active : s'.active = s.active
  width : s'.width = s.width
  height : s'.height = s.height
  pitch : s'.pitch = s.pitch
  inside : r.Inside s.width s.height
  damage : s'.damage = addDamage s.damage r
  kept : ∀ x y, x < s.width → y < s.height → ¬ r.Contains x y →
    s'.pixels (offsetOf s.pitch x y) = s.pixels (offsetOf s.pitch x y)

theorem drawn_refl (s : Surface) : Drawn s s ⟨0, 0, 0, 0⟩ :=
  ⟨rfl, rfl, rfl, rfl, ⟨Nat.zero_le _, Nat.zero_le _⟩, rfl, fun _ _ _ _ _ => rfl⟩

theorem drawn_guard {c : Prop} [Decidable c] {s : Surface} {status : Status}
    {x : Status × Surface} (h : ¬ c → ∃ r, Drawn s x.2 r) :
    ∃ r, Drawn s (if c then (status, s) else x).2 r := by
  split_ifs with hc
  · exact ⟨_, drawn_refl s⟩
  · exact h hc

variable (s : Surface)
include s

theorem drawn_storeLoop (hr : r.Inside s.width s.height)
    (hrows : ∀ y ∈ rows, y < r.height) (hcolumns : ∀ x ∈ columns, x < r.width)
    (value : Pixels → ℕ → ℕ → UInt32) :
    Drawn s { s with
      pixels := storeLoop s.pitch rows columns (r.x, r.y) value s.pixels
      damage := addDamage s.damage r } r :=
  ⟨rfl, rfl, rfl, rfl, hr, rfl, fun _ _ hx _ hout =>
    storeLoop_kept s.wide hr hrows hcolumns value s.pixels hx hout⟩

theorem surfaceFillRect_drawn (rectangle : Rect) (pixel : UInt32) :
    ∃ r, Drawn s (surfaceFillRect s rectangle pixel).2 r := by
  refine drawn_guard fun hactive => ?_
  cases hclip : clipRectangle s rectangle with
  | error status => exact ⟨_, drawn_refl s⟩
  | ok clipped =>
    simp only
    split_ifs with hempty
    · exact ⟨_, drawn_refl s⟩
    · have hinside := (clipRectangle_ok hclip).2.2.resolve_right fun h => hempty (.inl h.2)
      exact ⟨clipped, drawn_storeLoop s hinside (fun _ h => mem_ascending.mp h)
        (fun _ h => mem_ascending.mp h) _⟩

theorem surfaceBlit_drawn (destinationX destinationY : ℕ)
    (source : Pixels → ℕ → UInt32) (sourceWidth sourceHeight sourcePitch : ℕ) :
    ∃ r, Drawn s (surfaceBlit s destinationX destinationY source sourceWidth sourceHeight
      sourcePitch).2 r := by
  refine drawn_guard fun hactive => ?_
  refine drawn_guard fun hempty => ?_
  split_ifs with hpitch
  · exact ⟨_, drawn_refl s⟩
  · cases hclip : clipRectangle s ⟨destinationX, destinationY, sourceWidth, sourceHeight⟩ with
    | error status => exact ⟨_, drawn_refl s⟩
    | ok clipped =>
      have hinside := (clipRectangle_ok hclip).2.2.resolve_right fun h => hempty h.1
      exact ⟨clipped, drawn_storeLoop s hinside (fun _ h => mem_ascending.mp h)
        (fun _ h => mem_ascending.mp h) _⟩

theorem drawn_copyLoop (source : Rect) (hr : r.Inside s.width s.height) :
    Drawn s { s with
      pixels := copyLoop s source r.x r.y r.width r.height
      damage := addDamage s.damage r } r := by
  rw [copyLoop]
  split_ifs with hbelow hright
  · exact drawn_storeLoop s hr (fun _ h => mem_descending.mp h) (fun _ h => mem_ascending.mp h) _
  · exact drawn_storeLoop s hr (fun _ h => mem_ascending.mp h) (fun _ h => mem_descending.mp h) _
  · exact drawn_storeLoop s hr (fun _ h => mem_ascending.mp h) (fun _ h => mem_ascending.mp h) _

theorem surfaceCopyRect_drawn (source : Rect) (destinationX destinationY : ℕ) :
    ∃ r, Drawn s (surfaceCopyRect s source destinationX destinationY).2 r := by
  refine drawn_guard fun hactive => ?_
  cases hsource : clipRectangle s source with
  | error status => exact ⟨_, drawn_refl s⟩
  | ok sourceClipped =>
    simp only
    split_ifs with hempty
    · exact ⟨_, drawn_refl s⟩
    · cases hclip : clipRectangle s ⟨destinationX, destinationY, source.width, source.height⟩ with
      | error status => exact ⟨_, drawn_refl s⟩
      | ok clipped =>
        obtain ⟨hx, hy, hclipped⟩ := clipRectangle_ok hclip
        -- an empty destination would have been an empty source
        have hinside : clipped.Inside s.width s.height := by
          refine hclipped.resolve_right fun hnone => hempty ?_
          rw [clipRectangle, if_pos hnone.1] at hsource
          cases hsource
          exact .inl rfl
        have hcopied : Rect.Inside { clipped with
            width := min sourceClipped.width clipped.width
            height := min sourceClipped.height clipped.height } s.width s.height :=
          ⟨(Nat.add_le_add_left (min_le_right _ _) _).trans hinside.1,
            (Nat.add_le_add_left (min_le_right _ _) _).trans hinside.2⟩
        have hdrawn := drawn_copyLoop s source hcopied
        simp only at hx hy
        simp only [hx, hy] at hdrawn ⊢
        exact ⟨_, hdrawn⟩

theorem surfacePixel_drawn (x y : ℕ) (pixel : UInt32) :
    ∃ r, Drawn s (surfacePixel s x y pixel).2 r := by
  rw [surfacePixel]
  split_ifs with hactive hout
  · exact ⟨_, drawn_refl s⟩
  · exact ⟨_, drawn_refl s⟩
  · refine ⟨⟨x, y, 1, 1⟩, rfl, rfl, rfl, rfl, ⟨by simp only; omega, by simp only; omega⟩, rfl, ?_⟩
    intro x' y' hx' hy' hnot
    refine Function.update_of_ne (fun heq => hnot ?_) _ _
    obtain ⟨rfl, rfl⟩ := offsetOf_inj s.wide hx' (by omega) heq
    exact ⟨⟨le_rfl, Nat.lt_succ_self _⟩, le_rfl, Nat.lt_succ_self _⟩

omit s

end OpenRFS.Surfaces
