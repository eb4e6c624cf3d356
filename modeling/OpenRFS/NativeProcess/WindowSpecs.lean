import OpenRFS.NativeHandle.Runs
import OpenRFS.NativeProcess.SurfaceSpecs

/-!
# The steps of WINDOW_CREATE

Releasing the surface of a window that is being created either gives everything back or
leaves the window allocated, depending on whether every page had a record. A handle that
was installed leaves a trace in its slot, even if it is closed again: the generation of
the slot moves on. What the call answers does not depend on the counter of windows.
-/

namespace OpenRFS.NativeProcess

open NativeHandle Function Table

variable {d : Desk} {w w' : Desktop} {block : ℕ} {s : State} {any : Bool}

/-! ### Releasing the surface -/

theorem Desk.freeShadow_eq (hshadow : d.window.shadowPixels = some block) (hblock : block ∈ d.heap) :
    d.freeShadow = ((true, true),
      { d with heap := d.heap.erase block, window := { d.window with shadowPixels := none } }) := by
  unfold Desk.freeShadow
  rw [hshadow]
  exact if_pos hblock

theorem Desk.releaseSurface_complete (hallocated : d.window.allocated)
    (hevent : d.window.eventObjectOpen = false) (hshadow : d.window.shadowPixels = some block)
    (hblock : block ∈ d.heap)
    (hpages : d.state.releaseSurfacePages d.window.surfaceAddress
      (List.range (surfacePages d.window.surfaceBytes)) = ((true, any), s)) :
    d.releaseSurface =
      { d with state := s, uiOpen := false, heap := d.heap.erase block, window := .zero } := by
  have hfree : Desk.freeShadow { d with state := s, uiOpen := false } = _ :=
    Desk.freeShadow_eq hshadow hblock
  unfold Desk.releaseSurface Desk.releaseSurfaceReport
  simp only [hpages, hfree, WindowState.finalizeIfUnreferenced, hallocated, hevent]
  rfl

theorem Desk.releaseSurface_incomplete (hallocated : d.window.allocated)
    (hshadow : d.window.shadowPixels = some block) (hblock : block ∈ d.heap)
    (hpages : d.state.releaseSurfacePages d.window.surfaceAddress
      (List.range (surfacePages d.window.surfaceBytes)) = ((false, any), s)) :
    d.releaseSurface.window.allocated := by
  have hfree : Desk.freeShadow { d with state := s, uiOpen := false } = _ :=
    Desk.freeShadow_eq hshadow hblock
  unfold Desk.releaseSurface Desk.releaseSurfaceReport
  rw [if_pos hallocated]
  simp only [hpages, hfree]
  exact hallocated

/-! ### Handles -/

theorem installHandle_cases (h : w.table.Balanced) (granted : Bool) {type : UInt8}
    (htype : validType type) (resource : Resource) :
    ((granted ∧ w.table.activeHandles < w.table.limit) ∧ ∃ i o handle log,
      (w.table.slots i).active = false ∧ (w.table.installAt i o type resource).Balanced ∧
      installHandle granted type resource w =
        (some handle, { w with table := w.table.installAt i o type resource, log := log })) ∨
    (¬ (granted ∧ w.table.activeHandles < w.table.limit) ∧
      installHandle granted type resource w = (none, w)) := by
  unfold installHandle
  cases granted with
  | false => exact .inr ⟨fun hgranted => Bool.noConfusion hgranted.1, rfl⟩
  | true =>
    rcases install_cases h htype resource with
      ⟨hlt, i, o, ⟨hi, hilt⟩, ⟨ho, holt⟩, hinstall⟩ | ⟨hle, hinstall⟩
    · rw [hinstall]
      exact .inl ⟨⟨rfl, hlt⟩, i, o, _, _, hi, h.installAt hi hilt ho holt htype resource, rfl⟩
    · rw [hinstall]
      exact .inr ⟨fun hroom => absurd hroom.2 (not_lt.mpr hle), rfl⟩

theorem nextGeneration_ne (g : UInt32) : nextGeneration g ≠ g := by
  unfold nextGeneration
  split_ifs with h
  · rintro rfl
    exact absurd h (by decide)
  · intro hsame
    simp at hsame

/-- The slot was active with the generation `g`, and has been retired at most since. -/
def Spent (g : UInt32) (slot : Slot) : Prop :=
  slot.generation = g ∧ slot.active = true ∨
    slot.generation = Table.nextGeneration g ∧ slot.active = false

theorem Spent.not_fresh {g : UInt32} {slot : Slot} (h : Spent g slot)
    (hg : slot.generation = g) : slot.active := by
  rcases h with ⟨-, hactive⟩ | ⟨hnext, -⟩
  · exact hactive
  · exact absurd (hnext.symm.trans hg) (nextGeneration_ne g)

theorem Spent.closeHandle {g : UInt32} {i : Fin tableLimit} (h : Spent g (w.table.slots i))
    (handle : UInt64) : Spent g ((closeHandle w handle).table.slots i) := by
  rcases close_table (some closeResource) handle w with hsame | ⟨k, hk, hretired⟩
  · rwa [NativeProcess.closeHandle, hsame]
  · rw [NativeProcess.closeHandle, hretired]
    simp only [retireSlot]
    rcases eq_or_ne i k with rfl | hne
    · rw [update_self]
      rcases h with ⟨hg, -⟩ | ⟨-, hinactive⟩
      · exact .inr ⟨congrArg nextGeneration hg, rfl⟩
      · rw [hinactive] at hk
        cases hk
    · rwa [update_of_ne hne]

theorem presentWindow_cases (input : WindowInput) (windowHandle eventHandle : UInt64)
    (hui : w.context.uiOpen = false) :
    ((input.ui ∧ input.copied) ∧
      (presentWindow input windowHandle eventHandle w).1 = .ok (windowHandle, eventHandle)) ∨
    (¬ (input.ui ∧ input.copied) ∧ ∃ error w', presentWindow input windowHandle eventHandle w =
        (.error error, closeHandle (closeHandle w' eventHandle) windowHandle) ∧
      w'.table = w.table) := by
  unfold presentWindow Desk.openUi
  dsimp only
  rw [hui]
  cases hopen : input.ui with
  | false => exact .inr ⟨fun hall => Bool.noConfusion hall.1, _, _, rfl, rfl⟩
  | true =>
    cases hcopied : input.copied with
    | false => exact .inr ⟨fun hall => Bool.noConfusion hall.2, _, _, rfl, rfl⟩
    | true => exact .inl ⟨⟨rfl, rfl⟩, rfl⟩

/-! ### The answer of the call -/

/-- The tables differ at most in the resources of their objects. -/
structure SameShape (t t' : Table) : Prop where
  slots : t'.slots = t.slots
  active : ∀ o, (t'.objects o).active = (t.objects o).active
  limit : t'.limit = t.limit
  initialized : t'.initialized = t.initialized

theorem SameShape.refl (t : Table) : SameShape t t := ⟨rfl, fun _ => rfl, rfl, rfl⟩

theorem SameShape.installAt {t t' : Table} (h : SameShape t t') (i o : Fin tableLimit)
    (type : UInt8) (r r' : Resource) :
    SameShape (t.installAt i o type r) (t'.installAt i o type r') := by
  refine ⟨?_, fun k => ?_, h.limit, h.initialized⟩
  · simp only [Table.installAt, h.slots]
  · simp only [Table.installAt]
    rcases eq_or_ne k o with rfl | hne
    · rw [update_self, update_self]
    · rw [update_of_ne hne, update_of_ne hne, h.active]

theorem SameShape.installHandle (h : SameShape w.table w'.table) (granted : Bool) (type : UInt8)
    (r r' : Resource) :
    (installHandle granted type r' w').1 = (installHandle granted type r w).1 ∧
      SameShape (installHandle granted type r w).2.table
        (installHandle granted type r' w').2.table ∧
      (installHandle granted type r w).2.context = w.context ∧
      (installHandle granted type r' w').2.context = w'.context := by
  have hslot : w'.table.inactiveSlot = w.table.inactiveSlot := by
    rw [inactiveSlot, h.slots, h.limit, inactiveSlot]
  have hobject : w'.table.inactiveObject = w.table.inactiveObject := by
    rw [inactiveObject, funext h.active, h.limit, inactiveObject]
  unfold NativeProcess.installHandle install
  rw [hslot, hobject, h.initialized, h.slots]
  cases granted with
  | false => exact ⟨rfl, h, rfl, rfl⟩
  | true =>
    rw [if_pos rfl, if_pos rfl]
    cases !w.table.initialized with
    | true => exact ⟨rfl, h, rfl, rfl⟩
    | false =>
      cases !validType type with
      | true => exact ⟨rfl, h, rfl, rfl⟩
      | false =>
        cases w.table.inactiveSlot with
        | none => exact ⟨rfl, h, rfl, rfl⟩
        | some i =>
          cases w.table.inactiveObject with
          | none => exact ⟨rfl, h, rfl, rfl⟩
          | some o => exact ⟨rfl, h.installAt i o type r r', rfl, rfl⟩

/-- The desktops look the same to the rest of the call. -/
structure Alike (w w' : Desktop) : Prop where
  table : SameShape w.table w'.table
  state : w'.context.state = w.context.state
  uiOpen : w'.context.uiOpen = w.context.uiOpen
  surfaceBytes : w'.context.window.surfaceBytes = w.context.window.surfaceBytes

theorem presentWindow_congr (input : WindowInput) (h₁ h₂ : UInt64)
    (h : w'.context.uiOpen = w.context.uiOpen) :
    (presentWindow input h₁ h₂ w').1 = (presentWindow input h₁ h₂ w).1 := by
  unfold presentWindow Desk.openUi
  dsimp only
  rw [h]
  cases input.ui && !w.context.uiOpen with
  | false => rfl
  | true => cases input.copied <;> rfl

theorem publishWindow_congr (input : WindowInput) (h : Alike w w') :
    (publishWindow input w').1 = (publishWindow input w).1 := by
  obtain ⟨hwindow, hshape, hcontext, hcontext'⟩ := h.table.installHandle input.windowHandle
    handleWindow w.context.window.resource w'.context.window.resource
  unfold publishWindow
  generalize installHandle input.windowHandle handleWindow w.context.window.resource w = one at *
  generalize installHandle input.windowHandle handleWindow w'.context.window.resource w' = one' at *
  obtain ⟨handle, w₁⟩ := one
  obtain ⟨handle', w₁'⟩ := one'
  cases hwindow
  cases handle with
  | none => rfl
  | some handle =>
    dsimp only at *
    obtain ⟨hevent, -, hsame, hsame'⟩ := hshape.installHandle input.eventHandle
      handleEventQueue w₁.context.window.resource w₁'.context.window.resource
    generalize installHandle input.eventHandle handleEventQueue
      w₁.context.window.resource w₁ = two at *
    generalize installHandle input.eventHandle handleEventQueue
      w₁'.context.window.resource w₁' = two' at *
    obtain ⟨event, w₂⟩ := two
    obtain ⟨event', w₂'⟩ := two'
    cases hevent
    cases event with
    | none => rfl
    | some event =>
      refine presentWindow_congr input handle event ?_
      dsimp only at hsame hsame'
      rw [hsame, hsame', hcontext, hcontext', h.uiOpen]

theorem mapWindow_congr (input : WindowInput) (h : Alike w w') :
    (mapWindow input w').1 = (mapWindow input w).1 := by
  unfold mapWindow
  rw [h.state, h.surfaceBytes]
  cases w.context.state.buildSurface input.answers 0
    (surfacePages w.context.window.surfaceBytes) with
  | mk complete s =>
    cases complete with
    | false => rfl
    | true => exact publishWindow_congr input ⟨h.table, rfl, h.uiOpen, h.surfaceBytes⟩

end OpenRFS.NativeProcess
