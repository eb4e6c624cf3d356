import OpenRFS.NativeProcess.WindowSpecs

/-!
# When WINDOW_CREATE is atomic

A call that fails should leave no trace but in the counter of windows. It does if it
fails before the first page of the surface, at the leaf of the last page, or at the
handle of the window. A surface that stops at an earlier page is not recognised by the
routine that releases it: the window stays allocated, and every later call is refused.
After the handle of the window, the generation of its slot has moved on.
-/

namespace OpenRFS.NativeProcess

open Paging NativeHandle

/-- A process with its handle table. While it has no window, the record of the window is
zero, the user interface shows none and the region of the surface has no pages. -/
structure Session where
  desktop : Desktop
  others : Multiset Hold
  sound : desktop.context.state.Sound others
  balanced : desktop.table.Balanced
  idle : desktop.context.window.allocated = false →
    desktop.context.window = .zero ∧ desktop.context.uiOpen = false ∧
      ∀ q ∈ desktop.context.state.process.pages,
        ¬ (nativeSurfaceBase ≤ q.virtualAddress ∧ q.virtualAddress < nativeSurfaceEnd)

/-- All is as before, but for the counter of windows. -/
def Restored (w w' : Desktop) : Prop :=
  w'.table = w.table ∧ w'.context = { w.context with nextGeneration := w'.context.nextGeneration }

/-- A call that fails restores the desktop, so that the same request succeeds later if it
would have succeeded in its place. -/
def Atomic (w : Desktop) (input : WindowInput) : Prop :=
  ∀ error, (windowCreate input w).1 = .error error → Restored w (windowCreate input w).2 ∧
      ∀ later : WindowInput, later.request = input.request → later.title = input.title →
        ∀ handles, (windowCreate later w).1 = .ok handles →
          (windowCreate later (windowCreate input w).2).1 = .ok handles

structure Begins (w : Desktop) (input : WindowInput) (request : WindowRequest) (block : ℕ) :
    Prop where
  capability : w.context.state.process.capabilities &&& capWindow ≠ 0
  asked : input.request = some request
  accepted : request.malformed w.context.window input.title = false
  room : w.context.state.process.hasSurfaceRoom request.byteLength = true
  granted : input.block = some block
  fresh : block ∉ w.context.heap

/-- If the call begins a surface, then every page of it has a record, every page but the
last is mapped, and if all are mapped and the window has its handle, nothing fails any
more. -/
def Settles (w : Desktop) (input : WindowInput) : Prop :=
  ∀ request block, Begins w input request block →
    SurfaceGranted w.context.state input.answers (surfacePages request.byteLength) ∧
    (∀ k, k + 1 < surfacePages request.byteLength → input.answers.maps k = true) ∧
    (input.answers.maps (surfacePages request.byteLength - 1) = true →
      input.windowHandle = true ∧ w.table.activeHandles < w.table.limit →
      (input.eventHandle = true ∧ w.table.activeHandles + 1 < w.table.limit) ∧
        input.ui = true ∧ input.copied = true)

variable {w w' : Desktop} {input : WindowInput} {request : WindowRequest} {block : ℕ}

theorem Restored.state (h : Restored w w') : w'.context.state = w.context.state := by
  rw [h.2]

theorem Restored.window (h : Restored w w') : w'.context.window = w.context.window := by
  rw [h.2]

theorem Restored.heap (h : Restored w w') : w'.context.heap = w.context.heap := by
  rw [h.2]

theorem Restored.uiOpen (h : Restored w w') : w'.context.uiOpen = w.context.uiOpen := by
  rw [h.2]

def Desk.shadowed (d : Desk) (request : WindowRequest) (block : ℕ) : Desk :=
  { d.beginWindow request with
    heap := insert block d.heap
    window := { (d.beginWindow request).window with shadowPixels := some block } }

theorem allocateShadow_beginWindow (d : Desk) (request : WindowRequest) (block : ℕ) :
    (d.beginWindow request).allocateShadow (some block) =
      if block ∈ d.heap then none else some (d.shadowed request block) := rfl

theorem Restored.shadowed (h : Restored w w') (request : WindowRequest) (block : ℕ) :
    Alike { w with context := w.context.shadowed request block }
      { w' with context := w'.context.shadowed request block } :=
  ⟨h.1.symm ▸ .refl _, h.state, h.uiOpen, rfl⟩

theorem Restored.windowCreate (h : Restored w w') (input : WindowInput) :
    (windowCreate input w').1 = (windowCreate input w).1 := by
  unfold NativeProcess.windowCreate
  dsimp only
  rw [h.state, h.window]
  split_ifs
  · rfl
  cases input.request with
  | none => rfl
  | some request =>
    dsimp only
    split_ifs
    · rfl
    · cases input.block with
      | none => rfl
      | some block =>
        rw [allocateShadow_beginWindow, allocateShadow_beginWindow, h.heap]
        split_ifs
        · rfl
        · exact mapWindow_congr input (h.shadowed request block)
    · rfl

theorem atomic_iff : Atomic w input ↔
    ∀ error, (windowCreate input w).1 = .error error → Restored w (windowCreate input w).2 := by
  refine ⟨fun h error herror => (h error herror).1, fun h error herror => ⟨h error herror, ?_⟩⟩
  intro later _ _ handles hok
  rw [(h error herror).windowCreate later, hok]

def staged (w : Desktop) (request : WindowRequest) (block : ℕ) (s : State) : Desktop :=
  { w with context := { w.context.shadowed request block with state := s } }

theorem mapWindow_shadowed (w : Desktop) (input : WindowInput) (request : WindowRequest)
    (block : ℕ) : mapWindow input { w with context := w.context.shadowed request block } =
      match w.context.state.buildSurface input.answers 0 (surfacePages request.byteLength) with
      | (false, s) =>
        (.error .enomem, { staged w request block s with
          context := (staged w request block s).context.releaseSurface })
      | (true, s) => publishWindow input (staged w request block s) := rfl

theorem Begins.settles_iff (h : Begins w input request block) :
    Settles w input ↔
      SurfaceGranted w.context.state input.answers (surfacePages request.byteLength) ∧
      (∀ k, k + 1 < surfacePages request.byteLength → input.answers.maps k) ∧
      (input.answers.maps (surfacePages request.byteLength - 1) →
        input.windowHandle ∧ w.table.activeHandles < w.table.limit →
        (input.eventHandle ∧ w.table.activeHandles + 1 < w.table.limit) ∧
          input.ui ∧ input.copied) := by
  refine ⟨fun hsettles => hsettles request block h, fun hall request' block' h' => ?_⟩
  cases Option.some.inj (h.asked.symm.trans h'.asked)
  exact hall

/-! ### Before the surface -/

theorem WindowRequest.bounds {window : WindowState} {title : Option Bytes}
    (h : request.malformed window title = false) :
    request.width ≤ surfaceMaxWidth ∧ request.height ≤ surfaceMaxHeight ∧
      window.allocated = false := by
  simp only [WindowRequest.malformed, Bool.or_eq_false_iff, decide_eq_false_iff_not,
    UInt32.not_lt] at h
  obtain ⟨⟨⟨⟨⟨⟨-, hwidth⟩, -⟩, hheight⟩, -⟩, hallocated⟩, -⟩ := h
  exact ⟨hwidth, hheight, hallocated⟩

theorem surfacePages_le {window : WindowState} {title : Option Bytes}
    (h : request.malformed window title = false) : surfacePages request.byteLength ≤ 900 := by
  obtain ⟨hwidth, hheight, -⟩ := WindowRequest.bounds h
  have hwidth : request.width.toNat ≤ 1280 := UInt32.le_iff_toNat_le.mp hwidth
  have hheight : request.height.toNat ≤ 720 := UInt32.le_iff_toNat_le.mp hheight
  have hstride : request.strideBytes.toNat ≤ 5120 := by
    exact le_trans (Nat.mod_le _ _) (Nat.mul_le_mul_right 4 hwidth)
  have hbytes : request.byteLength ≤ 5120 * 720 := Nat.mul_le_mul hstride hheight
  simp only [surfacePages, pageSize]
  omega

theorem windowCreate_of_begins (h : Begins w input request block) :
    windowCreate input w =
      mapWindow input { w with context := w.context.shadowed request block } := by
  unfold windowCreate
  rw [if_neg h.capability, h.asked]
  dsimp only
  rw [h.accepted, if_neg Bool.false_ne_true, if_pos h.room, h.granted,
    allocateShadow_beginWindow, if_neg h.fresh]

theorem Session.restored_of_not_begins (session : Session)
    (h : ∀ request block, ¬ Begins session.desktop input request block) :
    Restored session.desktop (windowCreate input session.desktop).2 := by
  unfold windowCreate
  by_cases hcapability : session.desktop.context.state.process.capabilities &&& capWindow = 0
  · rw [if_pos hcapability]
    exact ⟨rfl, rfl⟩
  rw [if_neg hcapability]
  cases hasked : input.request with
  | none => exact ⟨rfl, rfl⟩
  | some request =>
    dsimp only
    cases haccepted : request.malformed session.desktop.context.window input.title with
    | true => exact ⟨rfl, rfl⟩
    | false =>
      rw [if_neg Bool.false_ne_true]
      -- the record of the window was zero, as it is afterwards
      obtain ⟨hzero, -, -⟩ := session.idle (WindowRequest.bounds haccepted).2.2
      cases hroom : session.desktop.context.state.process.hasSurfaceRoom request.byteLength with
      | false =>
        refine ⟨rfl, ?_⟩
        rw [if_neg Bool.false_ne_true, ← hzero]
      | true =>
        cases hblock : input.block with
        | none =>
          refine ⟨rfl, ?_⟩
          dsimp only [Desk.allocateShadow]
          rw [← hzero]
          rfl
        | some block =>
          rw [allocateShadow_beginWindow]
          by_cases hmem : block ∈ session.desktop.context.heap
          · rw [if_pos hmem]
            refine ⟨rfl, ?_⟩
            rw [← hzero]
            rfl
          · exact absurd ⟨hcapability, hasked, haccepted, hroom, hblock, hmem⟩
              (h request block)

/-! ### The surface -/

section Surface

variable (session : Session) (h : Begins session.desktop input request block)
include h

theorem Session.pages_le : surfacePages request.byteLength ≤ 900 := surfacePages_le h.accepted

theorem Session.pages_pos : 0 < surfacePages request.byteLength := by
  have hroom := h.room
  simp only [Process.hasSurfaceRoom, Bool.and_eq_true, decide_eq_true_eq] at hroom
  have hbytes := hroom.1.1
  simp only [surfacePages, pageSize]
  omega

theorem Session.records_le : session.desktop.context.state.process.pages.length +
    surfacePages request.byteLength ≤ processPageLimit := by
  have hroom := h.room
  simp only [Process.hasSurfaceRoom, Bool.and_eq_true, decide_eq_true_eq] at hroom
  have hle := session.pages_le h
  have hlimit : processPageLimit = 4096 := rfl
  omega

theorem Session.free (q : NativePage) (hq : q ∈ session.desktop.context.state.process.pages) :
    ¬ OnPages nativeSurfaceBase (List.range (surfacePages request.byteLength))
      q.virtualAddress := by
  rintro ⟨j, hj, hva⟩
  have hlt := lt_of_lt_of_le (List.mem_range.mp hj) (session.pages_le h)
  refine (session.idle (WindowRequest.bounds h.accepted).2.2).2.2 q hq ?_
  rw [hva]
  simp only [nativeSurfaceBase, nativeSurfaceEnd, pageSize]
  omega

/-- The desk is as before exactly if every page of the surface had a record. -/
theorem Session.restored_releaseSurface {s : State} {part : ℕ}
    (hpart : SurfacePart session.others session.desktop.context.state s part)
    (hle : part ≤ surfacePages request.byteLength) :
    Restored session.desktop { staged session.desktop request block s with
      context := (staged session.desktop request block s).context.releaseSurface } ↔
      part = surfacePages request.byteLength := by
  obtain ⟨hzero, hui, -⟩ := session.idle (WindowRequest.bounds h.accepted).2.2
  obtain ⟨all, any, hrelease, hall⟩ := hpart.release session.sound.wf hle (session.free h)
  rw [← hall]
  have hevent : session.desktop.context.window.eventObjectOpen = false := by
    rw [hzero]
    rfl
  cases all with
  | true =>
    refine iff_of_true ⟨rfl, ?_⟩ rfl
    rw [Desk.releaseSurface_complete (d := (staged session.desktop request block s).context)
      rfl hevent rfl (Finset.mem_insert_self _ _) hrelease]
    simp only [staged, Desk.shadowed, Desk.beginWindow, Finset.erase_insert h.fresh, ← hzero, ← hui]
  | false =>
    refine iff_of_false (fun hrestored => ?_) Bool.false_ne_true
    have hallocated := hrestored.window
    have hstays := Desk.releaseSurface_incomplete
      (d := (staged session.desktop request block s).context)
      rfl rfl (Finset.mem_insert_self _ _) hrelease
    rw [hallocated, hzero] at hstays
    cases hstays

/-- With a complete surface, the call restores the desktop if it fails exactly if it does
not fail after it has installed the handle of the window. -/
theorem Session.restored_publishWindow {s : State}
    (hpart : SurfacePart session.others session.desktop.context.state s
      (surfacePages request.byteLength)) :
    (∀ error, (publishWindow input (staged session.desktop request block s)).1 = .error error →
      Restored session.desktop (publishWindow input (staged session.desktop request block s)).2) ↔
      (input.windowHandle ∧ session.desktop.table.activeHandles < session.desktop.table.limit →
        (input.eventHandle ∧
          session.desktop.table.activeHandles + 1 < session.desktop.table.limit) ∧
        input.ui ∧ input.copied) := by
  obtain ⟨-, hui, -⟩ := session.idle (WindowRequest.bounds h.accepted).2.2
  generalize hw : staged session.desktop request block s = w
  have htable : w.table = session.desktop.table := by rw [← hw]; rfl
  have hopen : w.context.uiOpen = false := by rw [← hw]; exact hui
  unfold publishWindow
  rcases installHandle_cases (htable ▸ session.balanced) input.windowHandle
    (show validType handleWindow = true by decide) w.context.window.resource with
    ⟨hwindow, i, o, handle, log, hi, hbalanced, hinstall⟩ | ⟨hwindow, hinstall⟩
  swap
  · -- the table has no handle for the window: the surface is released
    rw [hinstall]
    refine iff_of_true (fun _ _ => ?_) fun hgranted => absurd (htable ▸ hgranted) hwindow
    rw [← hw]
    exact (session.restored_releaseSurface h hpart le_rfl).mpr rfl
  rw [hinstall]
  generalize hinstalled : w.table.installAt i o handleWindow w.context.window.resource = t at *
  -- the slot of the handle is not as it was in any table that comes after
  have hspent : ∀ w' : Desktop, Spent (w.table.slots i).generation (w'.table.slots i) →
      ¬ Restored session.desktop w' := by
    intro w' hspent hrestored
    rw [hrestored.1, ← htable] at hspent
    rw [hspent.not_fresh rfl] at hi
    cases hi
  have hslot : t.slots i = ⟨(w.table.slots i).generation, o, handleWindow, true⟩ := by
    rw [← hinstalled]
    exact Function.update_self _ _ _
  have hhandles : t.activeHandles = session.desktop.table.activeHandles + 1 ∧
      t.limit = session.desktop.table.limit := by
    rw [← hinstalled, ← htable]
    exact ⟨rfl, rfl⟩
  rw [htable] at hwindow
  dsimp only
  rcases installHandle_cases (w := { w with table := t, log := log }) hbalanced input.eventHandle
    (show validType handleEventQueue = true by decide) w.context.window.resource with
    ⟨hevent, j, o', event, log', hj, -, hsecond⟩ | ⟨hevent, hsecond⟩
  all_goals
    dsimp only at hevent
    rw [hhandles.1, hhandles.2] at hevent
  swap
  · rw [hsecond]
    refine iff_of_false (fun hall => ?_) fun himp => hevent (himp hwindow).1
    refine hspent _ (Spent.closeHandle ?_ handle) (hall _ rfl)
    exact .inl (by rw [hslot]; exact ⟨rfl, rfl⟩)
  rw [hsecond]
  -- the second handle has another slot
  have hij : i ≠ j := by
    rintro rfl
    rw [show ({ w with table := t, log := log } : Desktop).table.slots i = t.slots i from rfl,
      hslot] at hj
    cases hj
  have hslot' : (t.installAt j o' handleEventQueue w.context.window.resource).slots i =
      t.slots i := Function.update_of_ne hij _ _
  dsimp only
  rcases presentWindow_cases (w := { w with
      table := t.installAt j o' handleEventQueue w.context.window.resource, log := log' })
    input handle event hopen with ⟨hlast, hok⟩ | ⟨hlast, error, w', herror, hsame⟩
  · rw [hok]
    exact iff_of_true (nofun) fun _ => ⟨hevent, hlast⟩
  · rw [herror]
    refine iff_of_false (fun hall => ?_) fun himp => hlast (himp hwindow).2
    refine hspent _ (Spent.closeHandle (Spent.closeHandle ?_ event) handle) (hall _ rfl)
    rw [hsame, hslot', hslot]
    exact .inl ⟨rfl, rfl⟩

/-- A surface of which a page was refused: only the last leaf may be missing. -/
theorem Session.part_eq_iff_settles {k part : ℕ} (hk : k < surfacePages request.byteLength)
    (hrefused : SurfaceRefused session.desktop.context.state input.answers k part) :
    part = surfacePages request.byteLength ↔ Settles session.desktop input := by
  rw [h.settles_iff]
  cases hrefused with
  | page hnot =>
    exact iff_of_false hk.ne fun ⟨hgranted, _⟩ => hnot (hgranted.mono hk)
  | map hgranted hmaps hmap =>
    constructor
    · intro hlast
      rw [← hlast, Nat.add_sub_cancel]
      refine ⟨hgranted, fun j hj => hmaps j (Nat.lt_of_succ_lt_succ hj), fun htrue => ?_⟩
      rw [hmap] at htrue
      cases htrue
    · rintro ⟨-, hall, -⟩
      by_contra hne
      have hmapped := hall k (lt_of_le_of_ne hk hne)
      rw [hmap] at hmapped
      cases hmapped

end Surface

/-- A failing WINDOW_CREATE leaves no trace exactly if the call settles. -/
theorem window_create_atomic_iff (session : Session) (input : WindowInput) :
    Atomic session.desktop input ↔ Settles session.desktop input := by
  rw [atomic_iff]
  by_cases hbegins : ∃ request block, Begins session.desktop input request block
  swap
  · exact iff_of_true (fun _ _ => session.restored_of_not_begins fun request block h =>
      hbegins ⟨request, block, h⟩) fun request block h => absurd ⟨request, block, h⟩ hbegins
  obtain ⟨request, block, h⟩ := hbegins
  rw [windowCreate_of_begins h, mapWindow_shadowed]
  rcases buildSurface_cases session.sound.wf (session.records_le h) (session.free h)
    (surfacePages request.byteLength) 0 (zero_add _)
    (SurfaceBuilt.start session.sound input.answers) with
    ⟨s, hbuild, hbuilt⟩ | ⟨k, part, s, hk, hbuild, hrefused, hpart⟩
  · -- all pages are built, and the handles decide
    have hpos := session.pages_pos h
    rw [hbuild, h.settles_iff]
    refine (session.restored_publishWindow h hbuilt.part).trans ⟨fun hhandles => ?_, fun hall => ?_⟩
    · exact ⟨hbuilt.granted, fun j hj => hbuilt.maps j (by omega), fun _ => hhandles⟩
    · exact hall.2.2 (hbuilt.maps _ (by omega))
  · -- a page is refused, and what there is of the surface is released
    have hle : part ≤ surfacePages request.byteLength := by
      cases hrefused with
      | page => exact hk.le
      | map => exact hk
    rw [hbuild, ← session.part_eq_iff_settles h hk hrefused,
      ← session.restored_releaseSurface h hpart hle]
    exact ⟨fun hall => hall _ rfl, fun hrestored _ _ => hrestored⟩

def sampleTable : Table where
  slots index := { Slot.zero with generation := if index < 2 then 1 else 0 }
  objects _ := .zero
  limit := 2
  activeHandles := 0
  activeObjects := 0
  initialized := true

/-- A process without pages that may have four of them and a window. -/
def Session.sample : Session where
  desktop :=
    { table := sampleTable
      context :=
        { state := ⟨.zero, { Process.zero with
            memoryLimit := 4 * pageSize, capabilities := capWindow }⟩
          window := .zero
          heap := ∅
          uiOpen := false
          currentProcess := 0
          nextGeneration := 1 }
      log := [] }
  others := 0
  sound := ⟨.of_empty rfl rfl, Balanced.zero⟩
  balanced := Table.balanced_tableInitialize (show Table.tableInitialize 2 = .ok sampleTable from rfl)
  idle _ := ⟨rfl, rfl, fun _ hq => absurd hq List.not_mem_nil⟩

/-- The smallest window, with a surface of four pages. Everything is granted but the frames
that `frames` leaves out. -/
def sampleWindow (frames : ℕ → Option ℕ) : WindowInput where
  request := some ⟨40, abiVersion, 1, 64, 64, 1, 0, 0⟩
  title := some [0x77]
  block := some 0
  answers := ⟨frames, fun _ => true⟩
  windowHandle := true
  eventHandle := true
  ui := true
  copied := true

/-- One frame is refused. The window stays allocated, and the same request, which would
have succeeded at first, is refused from then on. -/
theorem window_create_leaks :
    let after := (windowCreate (sampleWindow fun j => if j = 1 then none else some j)
      Session.sample.desktop).2
    after.context.window.allocated = true ∧
      (windowCreate (sampleWindow some) Session.sample.desktop).1.isOk = true ∧
      (windowCreate (sampleWindow some) after).1 = .error .einval ∧
      ¬ Atomic Session.sample.desktop (sampleWindow fun j => if j = 1 then none else some j) := by
  have hfails : (windowCreate (sampleWindow fun j => if j = 1 then none else some j)
      Session.sample.desktop).1 = .error .enomem := by decide +kernel
  have hstuck : (windowCreate (sampleWindow fun j => if j = 1 then none else some j)
      Session.sample.desktop).2.context.window.allocated = true := by decide +kernel
  refine ⟨hstuck, by decide +kernel, by decide +kernel, fun hatomic => ?_⟩
  have hwindow := (hatomic _ hfails).1.window
  rw [hwindow] at hstuck
  cases hstuck

end OpenRFS.NativeProcess
