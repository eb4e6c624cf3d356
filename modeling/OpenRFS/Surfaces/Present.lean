import OpenRFS.Surfaces.Drawing

/-!
# Presenting refines a full redraw

A surface and the framebuffer are followed along a run of drawing calls and presents.
The damage covers every pixel at which they differ, so that a present, which copies
the damage only, leaves the framebuffer as if it had copied the whole picture.
-/

namespace OpenRFS.Surfaces

open Refresh

variable {d : Display} {width height : ℕ}

inductive Call
  | fillRect (rectangle : Rect) (pixel : UInt32)
  | blit (destinationX destinationY : ℕ) (source : Pixels → ℕ → UInt32)
      (sourceWidth sourceHeight sourcePitch : ℕ)
  | copyRect (source : Rect) (destinationX destinationY : ℕ)
  | pixel (x y : ℕ) (pixel : UInt32)
  | present

structure Display where
  surface : Surface
  framebuffer : Framebuffer

def Display.step (d : Display) : Call → Display
  | .fillRect rectangle pixel =>
    { d with surface := (surfaceFillRect d.surface rectangle pixel).2 }
  | .blit destinationX destinationY source sourceWidth sourceHeight sourcePitch =>
    { d with surface := (surfaceBlit d.surface destinationX destinationY source sourceWidth
        sourceHeight sourcePitch).2 }
  | .copyRect source destinationX destinationY =>
    { d with surface := (surfaceCopyRect d.surface source destinationX destinationY).2 }
  | .pixel x y pixel => { d with surface := (surfacePixel d.surface x y pixel).2 }
  | .present =>
    { surface := (surfacePresent d.surface d.framebuffer).2.1
      framebuffer := (surfacePresent d.surface d.framebuffer).2.2 }

def Display.run (d : Display) (calls : List Call) : Display :=
  calls.foldl Display.step d

def Surface.drawn (s : Surface) (x y : ℕ) : UInt32 := s.pixels (offsetOf s.pitch x y)

def Framebuffer.visible (f : Framebuffer) (x y : ℕ) : UInt32 := f.memory (offsetOf f.pitch x y)

/-- A surface whose damage is inside it, with equal contents on the framebuffer. -/
structure Display.Ready (d : Display) : Prop where
  inside : d.surface.damage.Inside d.surface.width d.surface.height
  same : ∀ x y, x < d.surface.width → y < d.surface.height →
    d.framebuffer.visible x y = d.surface.drawn x y

/-! ### The invariant -/

abbrev Place (width height : ℕ) := { p : ℕ × ℕ // p.1 < width ∧ p.2 < height }

/-- The damage stays inside the surface and covers what is not yet presented. -/
structure Covered (width height : ℕ) (d : Display) : Prop where
  width_eq : d.surface.width = width
  height_eq : d.surface.height = height
  inside : d.surface.damage.Inside width height
  covers : Covers (fun p : Place width height => d.surface.drawn p.1.1 p.1.2)
    (fun p => d.framebuffer.visible p.1.1 p.1.2)
    {p | d.surface.damage.Contains p.1.1 p.1.2}

theorem Display.Ready.covered (h : d.Ready) : Covered d.surface.width d.surface.height d :=
  ⟨rfl, rfl, h.inside, covers_of_eq (fun p => h.same _ _ p.2.1 p.2.2) _⟩

theorem visible_storeLoop (s : Surface) (f : Framebuffer) {r : Rect}
    (hr : r.Inside f.width f.height) (x y : ℕ) (hx : x < f.width) :
    storeLoop f.pitch (ascending r.height) (ascending r.width) (r.x, r.y)
      (fun _ x y => s.pixels (offsetOf s.pitch (r.x + x) (r.y + y))) f.memory
      (offsetOf f.pitch x y) = if r.Contains x y then s.drawn x y else f.visible x y := by
  -- the value at an offset is that of the one pixel which is at this offset
  have hwrote := @storeLoop_wrote f.pitch (ascending r.height) (ascending r.width) (r.x, r.y)
    (fun _ x y => s.pixels (offsetOf s.pitch (r.x + x) (r.y + y)))
    (fun k value => ∀ x y, x < f.width → k = offsetOf f.pitch x y → value = s.drawn x y)
    (fun dy hdy dx hdx _ x y hx heq => by
      have hwidth : r.x + dx < f.width := by
        have := mem_ascending.mp hdx
        have := hr.1
        omega
      obtain ⟨rfl, rfl⟩ := offsetOf_inj f.wide hwidth hx heq
      rfl) f.memory
  split_ifs with hin
  · refine hwrote.written _ ?_ x y hx rfl
    obtain ⟨⟨hleft, hright⟩, htop, hbottom⟩ := hin
    refine ⟨y - r.y, mem_ascending.mpr (by omega), x - r.x, mem_ascending.mpr (by omega), ?_⟩
    congr 1 <;> omega
  · exact storeLoop_kept f.wide hr (fun _ h => mem_ascending.mp h) (fun _ h => mem_ascending.mp h)
      _ f.memory hx hin

variable (h : Covered width height d)
include h

theorem Covered.draw {s' : Surface} {r : Rect} (hdrawn : Drawn d.surface s' r) :
    Covered width height { d with surface := s' } := by
  have hr : r.Inside width height := by
    have := hdrawn.inside
    rwa [h.width_eq, h.height_eq] at this
  refine ⟨hdrawn.width.trans h.width_eq, hdrawn.height.trans h.height_eq, ?_, ?_⟩
  · rw [show s'.damage = _ from hdrawn.damage]
    exact addDamage_inside h.inside hr
  · refine h.covers.draw {p | r.Contains p.1.1 p.1.2} (fun p hp => ?_) ?_
    · have hx : p.1.1 < d.surface.width := h.width_eq ▸ p.2.1
      have hy : p.1.2 < d.surface.height := h.height_eq ▸ p.2.2
      simp only [Surface.drawn, hdrawn.pitch]
      exact hdrawn.kept _ _ hx hy hp
    · rintro p (hold | hnew)
      · rw [Set.mem_ofPred_eq, hdrawn.damage]
        exact Damage.Contains.add hold r
      · rw [Set.mem_ofPred_eq, hdrawn.damage]
        exact Rect.Contains.added hnew _

/-- A present is refused and changes nothing, or it succeeds, leaves no damage and
shows the surface as it is. -/
theorem surfacePresent_cases :
    ((surfacePresent d.surface d.framebuffer).1 ≠ .ok ∧
      (surfacePresent d.surface d.framebuffer).2 = (d.surface, d.framebuffer)) ∨
    (surfacePresent d.surface d.framebuffer).1 = .ok ∧
      d.framebuffer.width = width ∧ d.framebuffer.height = height ∧
      ∃ s' f', (surfacePresent d.surface d.framebuffer).2 = (s', f') ∧
        s'.width = d.surface.width ∧ s'.height = d.surface.height ∧
        s'.drawn = d.surface.drawn ∧ s'.damage.pending = false ∧ f'.width = width ∧
        f'.height = height ∧
        ∀ p : Place width height, f'.visible p.1.1 p.1.2 = d.surface.drawn p.1.1 p.1.2 := by
  rw [surfacePresent]
  by_cases hactive : (!d.surface.active)
  · rw [if_pos hactive]
    exact .inl ⟨nofun, rfl⟩
  rw [if_neg hactive]
  by_cases hframe : (!d.framebuffer.active)
  · rw [if_pos hframe]
    exact .inl ⟨nofun, rfl⟩
  rw [if_neg hframe]
  by_cases hsize : d.framebuffer.width ≠ d.surface.width ∨ d.framebuffer.height ≠ d.surface.height
  · rw [if_pos hsize]
    exact .inl ⟨nofun, rfl⟩
  have hwidth : d.framebuffer.width = width := by
    have := h.width_eq
    omega
  have hheight : d.framebuffer.height = height := by
    have := h.height_eq
    omega
  split_ifs with hpending
  · have hnone : d.surface.damage.pending = false := by simpa using hpending
    refine .inr ⟨rfl, hwidth, hheight, _, _, rfl, rfl, rfl, rfl, hnone, hwidth, hheight, fun p => ?_⟩
    by_contra hne
    have := (h.covers p hne).1
    rw [hnone] at this
    cases this
  · have hdamage : d.surface.damage.pending := by simpa using hpending
    refine .inr ⟨rfl, hwidth, hheight, _, _, rfl, rfl, rfl, rfl, rfl, hwidth, hheight, ?_⟩
    have hinside : d.surface.damage.rectangle.Inside d.framebuffer.width d.framebuffer.height := by
      rw [hwidth, hheight]
      exact h.inside hdamage
    have hshown := fun p : Place width height => visible_storeLoop d.surface d.framebuffer hinside
      p.1.1 p.1.2 (hwidth.symm ▸ p.2.1)
    refine h.covers.shown (fun p hp => ?_) (fun p hp => ?_)
    · exact (hshown p).trans (if_pos hp.2)
    · exact (hshown p).trans (if_neg fun hin => hp ⟨hdamage, hin⟩)

theorem Covered.present : Covered width height (d.step .present) := by
  rcases surfacePresent_cases h with ⟨-, hkept⟩ |
    ⟨-, -, -, s', f', heq, hwidth, hheight, hdrawn, hnone, -, -, hshown⟩
  · simp only [Display.step, hkept]
    exact h
  · simp only [Display.step, heq]
    refine ⟨hwidth.trans h.width_eq, hheight.trans h.height_eq, fun hpending => ?_,
      covers_of_eq (fun p => ?_) _⟩
    · rw [show s'.damage.pending = false from hnone] at hpending
      cases hpending
    · simp only [hdrawn]
      exact hshown p

theorem Covered.step (call : Call) : Covered width height (d.step call) := by
  cases call with
  | fillRect rectangle pixel =>
    obtain ⟨r, hr⟩ := surfaceFillRect_drawn d.surface rectangle pixel
    exact h.draw hr
  | blit destinationX destinationY source sourceWidth sourceHeight sourcePitch =>
    obtain ⟨r, hr⟩ := surfaceBlit_drawn d.surface destinationX destinationY source sourceWidth
      sourceHeight sourcePitch
    exact h.draw hr
  | copyRect source destinationX destinationY =>
    obtain ⟨r, hr⟩ := surfaceCopyRect_drawn d.surface source destinationX destinationY
    exact h.draw hr
  | pixel x y pixel =>
    obtain ⟨r, hr⟩ := surfacePixel_drawn d.surface x y pixel
    exact h.draw hr
  | present => exact h.present

theorem Covered.run (calls : List Call) : Covered width height (d.run calls) := by
  induction calls generalizing d with
  | nil => exact h
  | cons call calls ih => exact ih (h.step call)

/-! ### Full redraw -/

omit h

/-- Along every run from equal contents, a pixel at which the framebuffer and the
surface differ lies inside the pending damage, and after a present that succeeds the
visible framebuffer equals the surface and no damage is pending. -/
theorem present_refines_redraw (d : Display) (calls : List Call) (h : d.Ready) :
    (∀ x y, x < (d.run calls).surface.width → y < (d.run calls).surface.height →
      (d.run calls).framebuffer.visible x y ≠ (d.run calls).surface.drawn x y →
        (d.run calls).surface.damage.pending = true ∧
          (d.run calls).surface.damage.rectangle.Contains x y) ∧
    ∀ s' f', surfacePresent (d.run calls).surface (d.run calls).framebuffer = (.ok, s', f') →
      s'.damage.pending = false ∧ f'.width = s'.width ∧ f'.height = s'.height ∧
        ∀ x y, x < f'.width → y < f'.height → f'.visible x y = s'.drawn x y := by
  have hcovered := h.covered.run calls
  refine ⟨fun x y hx hy hne => ?_, fun s' f' hpresent => ?_⟩
  · rw [hcovered.width_eq] at hx
    rw [hcovered.height_eq] at hy
    exact hcovered.covers ⟨(x, y), hx, hy⟩ hne
  · rcases surfacePresent_cases hcovered with ⟨hrefused, -⟩ |
      ⟨-, -, -, s, f, heq, hwidth, hheight, hdrawn, hnone, hfwidth, hfheight, hshown⟩
    · rw [hpresent] at hrefused
      exact absurd rfl hrefused
    · rw [hpresent] at heq
      cases heq
      rw [hdrawn, hfwidth, hfheight, hwidth, hheight, hcovered.width_eq, hcovered.height_eq]
      exact ⟨hnone, rfl, rfl, fun x y hx hy => hshown ⟨(x, y), hx, hy⟩⟩

def sampleDisplay : Display where
  surface :=
    { active := true, width := 4, height := 3, pitch := 16, wide := by decide, pixels := fun _ => 0
      damage := clearDamage, presents := 0, lastPresentPixels := 0, presentedPixels := 0 }
  framebuffer :=
    { active := true, width := 4, height := 3, pitch := 20, wide := by decide,
      memory := fun _ => 0 }

def sampleCalls : List Call :=
  [.fillRect ⟨2, 1, 7, 1⟩ 5, .copyRect ⟨1, 1, 3, 2⟩ 2 0, .pixel 9 9 1]

theorem present_refines_redraw_sample :
    sampleDisplay.Ready ∧ ((sampleDisplay.run sampleCalls).framebuffer.visible 3 0 ≠
          (sampleDisplay.run sampleCalls).surface.drawn 3 0 ∧
        (sampleDisplay.run sampleCalls).surface.damage.pending = true) ∧
      (surfacePresent (sampleDisplay.run sampleCalls).surface
        (sampleDisplay.run sampleCalls).framebuffer).1 = .ok := by
  have hready : sampleDisplay.Ready := ⟨nofun, fun _ _ _ _ => rfl⟩
  have hne : (sampleDisplay.run sampleCalls).framebuffer.visible 3 0 ≠
      (sampleDisplay.run sampleCalls).surface.drawn 3 0 := by decide +kernel
  exact ⟨hready, ⟨hne, ((present_refines_redraw sampleDisplay sampleCalls hready).1 3 0
    (by decide +kernel) (by decide +kernel) hne).1⟩, by decide +kernel⟩

end OpenRFS.Surfaces
