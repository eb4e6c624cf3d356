import Mathlib

/-!
# Surfaces

A surface is a picture in ordinary memory with one rectangle that bounds what was
drawn since the last present. The drawing calls clip what they are given, write the
pixels and enlarge the rectangle; a present copies the rectangle to the framebuffer.

The pixels of a buffer are kept by the offset of their first byte. A row is at least
as long as its pixels, which is a field of the two structures, so that the pixels of
a buffer do not overlap. Coordinates are natural numbers: what a call computes with
them is bounded by the size of the surface, except for the sums that `clipRectangle`
refuses.
-/

namespace OpenRFS.Surfaces

def bytesPerPixel : ℕ := 4

def uint32Max : ℕ := 2 ^ 32 - 1

inductive Status
  | ok | notInitialized | outOfBounds | rectangleOverflow | badSourcePitch | noFramebuffer
  | framebufferMismatch
  deriving DecidableEq, Repr

structure Rect where
  x : ℕ
  y : ℕ
  width : ℕ
  height : ℕ
  deriving DecidableEq, Repr

structure Damage where
  pending : Bool
  rectangle : Rect
  deriving DecidableEq, Repr

abbrev Pixels := ℕ → UInt32

def offsetOf (pitch x y : ℕ) : ℕ := y * pitch + bytesPerPixel * x

structure Surface where
  active : Bool
  width : ℕ
  height : ℕ
  pitch : ℕ
  wide : bytesPerPixel * width ≤ pitch
  pixels : Pixels
  damage : Damage
  presents : ℕ
  lastPresentPixels : ℕ
  presentedPixels : ℕ

structure Framebuffer where
  active : Bool
  width : ℕ
  height : ℕ
  pitch : ℕ
  wide : bytesPerPixel * width ≤ pitch
  memory : Pixels

def clearDamage : Damage := { pending := false, rectangle := ⟨0, 0, 0, 0⟩ }

/-- `add_damage`: the bounding rectangle of what is pending and what is added. -/
def addDamage (damage : Damage) (rectangle : Rect) : Damage :=
  if rectangle.width = 0 ∨ rectangle.height = 0 then damage
  else if !damage.pending then { pending := true, rectangle := rectangle }
  else
    let old := damage.rectangle
    let left := min old.x rectangle.x
    let top := min old.y rectangle.y
    let right := max (old.x + old.width) (rectangle.x + rectangle.width)
    let bottom := max (old.y + old.height) (rectangle.y + rectangle.height)
    { damage with rectangle :=
        { x := left, y := top, width := right - left, height := bottom - top } }

def clipRectangle (surface : Surface) (requested : Rect) : Except Status Rect :=
  if requested.width = 0 ∨ requested.height = 0 then
    .ok { requested with width := 0, height := 0 }
  else if surface.width ≤ requested.x ∨ surface.height ≤ requested.y then .error .outOfBounds
  else if uint32Max - requested.x < requested.width ∨
      uint32Max - requested.y < requested.height then .error .rectangleOverflow
  else .ok { requested with
    width := min requested.width (surface.width - requested.x)
    height := min requested.height (surface.height - requested.y) }

def ascending (count : ℕ) : List ℕ := List.range count

def descending (count : ℕ) : List ℕ := (List.range count).reverse

/-- A loop over rows and, inside, over the columns of a row, that stores one pixel in
every step. The value may be read from the buffer the loop writes to. -/
def storeLoop (pitch : ℕ) (rows columns : List ℕ) (origin : ℕ × ℕ)
    (value : Pixels → ℕ → ℕ → UInt32) (pixels : Pixels) : Pixels :=
  rows.foldl (fun pixels y => columns.foldl (fun pixels x =>
    Function.update pixels (offsetOf pitch (origin.1 + x) (origin.2 + y)) (value pixels x y))
    pixels) pixels

def surfaceFillRect (surface : Surface) (rectangle : Rect) (pixel : UInt32) : Status × Surface :=
  if !surface.active then (.notInitialized, surface)
  else
    match clipRectangle surface rectangle with
    | .error status => (status, surface)
    | .ok clipped =>
      if clipped.width = 0 ∨ clipped.height = 0 then (.ok, surface)
      else (.ok, { surface with
        pixels := storeLoop surface.pitch (ascending clipped.height) (ascending clipped.width)
          (clipped.x, clipped.y) (fun _ _ _ => pixel) surface.pixels
        damage := addDamage surface.damage clipped })

/-- `surface_blit`. The source is what reading at an offset from the pointer that is
passed returns; the pointer may point into the surface itself, so this may depend on
the pixels of the surface. -/
def surfaceBlit (surface : Surface) (destinationX destinationY : ℕ)
    (source : Pixels → ℕ → UInt32) (sourceWidth sourceHeight sourcePitch : ℕ) :
    Status × Surface :=
  if !surface.active then (.notInitialized, surface)
  else if sourceWidth = 0 ∨ sourceHeight = 0 then (.ok, surface)
  else if uint32Max / bytesPerPixel < sourceWidth ∨ sourcePitch < sourceWidth * bytesPerPixel ∨
      sourcePitch % bytesPerPixel ≠ 0 then (.badSourcePitch, surface)
  else
    match clipRectangle surface ⟨destinationX, destinationY, sourceWidth, sourceHeight⟩ with
    | .error status => (status, surface)
    | .ok clipped => (.ok, { surface with
        pixels := storeLoop surface.pitch (ascending clipped.height) (ascending clipped.width)
          (clipped.x, clipped.y) (fun pixels x y => source pixels (offsetOf sourcePitch x y))
          surface.pixels
        damage := addDamage surface.damage clipped })

/-- The loops of `surface_copy_rect`: rows from the bottom if the destination is below
the source, and otherwise columns from the right if it is on the same row to the
right. -/
def copyLoop (surface : Surface) (source : Rect) (destinationX destinationY copyWidth
    copyHeight : ℕ) : Pixels :=
  let value := fun (pixels : Pixels) x y =>
    pixels (offsetOf surface.pitch (source.x + x) (source.y + y))
  if source.y < destinationY then
    storeLoop surface.pitch (descending copyHeight) (ascending copyWidth)
      (destinationX, destinationY) value surface.pixels
  else if destinationY = source.y ∧ source.x < destinationX then
    storeLoop surface.pitch (ascending copyHeight) (descending copyWidth)
      (destinationX, destinationY) value surface.pixels
  else
    storeLoop surface.pitch (ascending copyHeight) (ascending copyWidth)
      (destinationX, destinationY) value surface.pixels

def surfaceCopyRect (surface : Surface) (source : Rect) (destinationX destinationY : ℕ) :
    Status × Surface :=
  if !surface.active then (.notInitialized, surface)
  else
    match clipRectangle surface source with
    | .error status => (status, surface)
    | .ok sourceClipped =>
      if sourceClipped.width = 0 ∨ sourceClipped.height = 0 then (.ok, surface)
      else
        match clipRectangle surface ⟨destinationX, destinationY, source.width, source.height⟩ with
        | .error status => (status, surface)
        | .ok destinationClipped =>
          let copyWidth := min sourceClipped.width destinationClipped.width
          let copyHeight := min sourceClipped.height destinationClipped.height
          (.ok, { surface with
            pixels := copyLoop surface source destinationX destinationY copyWidth copyHeight
            damage := addDamage surface.damage
              { destinationClipped with width := copyWidth, height := copyHeight } })

def surfacePixel (surface : Surface) (x y : ℕ) (pixel : UInt32) : Status × Surface :=
  if !surface.active then (.notInitialized, surface)
  else if surface.width ≤ x ∨ surface.height ≤ y then (.outOfBounds, surface)
  else (.ok, { surface with
    pixels := Function.update surface.pixels (offsetOf surface.pitch x y) pixel
    damage := addDamage surface.damage ⟨x, y, 1, 1⟩ })

def surfacePresent (surface : Surface) (framebuffer : Framebuffer) :
    Status × Surface × Framebuffer :=
  if !surface.active then (.notInitialized, surface, framebuffer)
  else if !framebuffer.active then (.noFramebuffer, surface, framebuffer)
  else if framebuffer.width ≠ surface.width ∨ framebuffer.height ≠ surface.height then
    (.framebufferMismatch, surface, framebuffer)
  else if !surface.damage.pending then
    (.ok, { surface with lastPresentPixels := 0 }, framebuffer)
  else
    let damage := surface.damage.rectangle
    let copied := damage.width * damage.height
    (.ok, { surface with
      presents := surface.presents + 1
      lastPresentPixels := copied
      presentedPixels := surface.presentedPixels + copied
      damage := clearDamage }, { framebuffer with
      memory := storeLoop framebuffer.pitch (ascending damage.height) (ascending damage.width)
        (damage.x, damage.y)
        (fun _ x y => surface.pixels (offsetOf surface.pitch (damage.x + x) (damage.y + y)))
        framebuffer.memory })

end OpenRFS.Surfaces
