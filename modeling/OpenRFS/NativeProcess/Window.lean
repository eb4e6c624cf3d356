import OpenRFS.NativeHandle.Table
import OpenRFS.NativeProcess.MemoryCalls

/-!
# WINDOW_CREATE

A window of a native process has a shadow buffer on the kernel heap, a surface of pages
in the process, a window handle, a handle of its event queue and a window of the user
interface. `syscall_window_create` acquires them in this order. Whatever fails, the
surface is given back by the routine that also closes a complete window.
-/

namespace OpenRFS.NativeProcess

open Paging

def handleWindow : UInt8 := 3

def handleEventQueue : UInt8 := 4

structure WindowState where
  shadowPixels : Option ℕ
  surfaceAddress : ℕ
  surfaceBytes : ℕ
  generation : UInt64
  width : UInt32
  height : UInt32
  strideBytes : UInt32
  uiSlot : UInt32
  eventCount : ℕ
  allocated : Bool
  visible : Bool
  windowObjectOpen : Bool
  eventObjectOpen : Bool
  overflowPending : Bool
  deriving DecidableEq

def WindowState.zero : WindowState :=
  ⟨none, 0, 0, 0, 0, 0, 0, 0, 0, false, false, false, false, false⟩

/-- A process with its window, the blocks of the kernel heap, whether the user interface
shows a window in the slot of the process, and the global counter of windows. -/
structure Desk where
  state : State
  window : WindowState
  heap : Finset ℕ
  uiOpen : Bool
  currentProcess : UInt32
  nextGeneration : UInt64

abbrev Desktop := NativeHandle.World Desk

def WindowState.finalizeIfUnreferenced (window : WindowState) : WindowState :=
  if window.allocated && !window.windowObjectOpen && !window.eventObjectOpen then .zero else window

/-! ### Releasing a surface -/

/-- One page of a surface: whether it was released, and whether something of it was. -/
def State.releaseSurfacePage (s : State) (address : ℕ) : (Bool × Bool) × State :=
  match s.process.pageAt address with
  | none => ((false, false), s)
  | some record =>
    if record.kind ≠ .nativeSurface then ((false, false), s)
    else
      match if record.mapped then s.process.unmapUserPage .nativeSurface address
        else some s.process with
      | none => ((false, false), s)
      | some p =>
        match s.memory.releasePageFrame record with
        | none => ((false, true), ⟨s.memory, p.setMapped address false⟩)
        | some m =>
          match (p.setMapped address false).removePageRecord address with
          | none => ((false, true), ⟨m, p.setMapped address false⟩)
          | some (_, p') => ((true, true), ⟨m, p'⟩)

/-- All pages are tried; whether all were released, and whether anything was. -/
def State.releaseSurfacePages (s : State) (base : ℕ) : List ℕ → (Bool × Bool) × State
  | [] => ((true, false), s)
  | page :: rest =>
    let (one, s') := s.releaseSurfacePage (base + page * pageSize)
    let (all, s'') := s'.releaseSurfacePages base rest
    ((one.1 && all.1, one.2 || all.2), s'')

def surfacePages (bytes : ℕ) : ℕ := (bytes + pageSize - 1) / pageSize

/-- `heap_free` of the shadow buffer, if there is one: whether nothing went wrong, and
whether it was freed. -/
def Desk.freeShadow (d : Desk) : (Bool × Bool) × Desk :=
  match d.window.shadowPixels with
  | none => ((true, false), d)
  | some block =>
    if block ∈ d.heap then
      ((true, true),
        { d with heap := d.heap.erase block, window := { d.window with shadowPixels := none } })
    else ((false, false), d)

/-- `window_release_surface_report`: success, and whether the resource is consumed. A
window that the user interface shows can be closed. -/
def Desk.releaseSurfaceReport (d : Desk) : (Bool × Bool) × Desk :=
  if d.window.allocated then
    let (pages, s) := d.state.releaseSurfacePages d.window.surfaceAddress
      (List.range (surfacePages d.window.surfaceBytes))
    let (shadow, d') := { d with state := s, uiOpen := false }.freeShadow
    let released := pages.1 && shadow.1
    ((released, true),
      if released then
        { d' with
          window := WindowState.finalizeIfUnreferenced
            { d'.window with
              surfaceAddress := 0
              surfaceBytes := 0
              visible := false
              windowObjectOpen := false } }
      else d')
  else ((false, false), d)

def Desk.releaseSurface (d : Desk) : Desk := d.releaseSurfaceReport.2

def closeResource : NativeHandle.CloseFn Desk := fun type resource d =>
  if type = handleWindow then
    if !d.window.allocated || d.window.generation != resource.words 1 ||
        d.window.uiSlot.toUInt64 != resource.words 0 then (.retained, d)
    else
      match d.releaseSurfaceReport with
      | ((true, _), d') => (.closed, d')
      | ((false, true), d') => (.closedWithError, d')
      | ((false, false), d') => (.retained, d')
  else if type = handleEventQueue then
    if !d.window.allocated || d.window.generation != resource.words 1 then (.retained, d)
    else
      (.closed,
        { d with
          window := WindowState.finalizeIfUnreferenced
            { d.window with
              eventObjectOpen := false
              eventCount := 0
              overflowPending := false } })
  else (.retained, d)

/-! ### Creating a window -/

structure WindowRequest where
  size : UInt32
  version : UInt32
  titleLength : UInt32
  width : UInt32
  height : UInt32
  pixelFormat : UInt32
  flags : UInt32
  reserved : UInt32

/-- What the call meets: the request if it could be copied and the response range is
valid, the title if it could be copied, the block of the heap, the answers for the pages
of the surface, whether the two handles can be installed and the user interface opens a
window, and whether the response could be written. -/
structure WindowInput where
  request : Option WindowRequest
  title : Option Bytes
  block : Option ℕ
  answers : PageAnswers
  windowHandle : Bool
  eventHandle : Bool
  ui : Bool
  copied : Bool

def capWindow : UInt64 := 64

def surfaceMaxWidth : UInt32 := 1280
def surfaceMaxHeight : UInt32 := 720

def WindowRequest.malformed (request : WindowRequest) (window : WindowState)
    (title : Option Bytes) : Bool :=
  request.size != 40 || request.version != abiVersion || request.flags != 0 ||
    request.reserved != 0 || request.titleLength == 0 || decide (31 < request.titleLength) ||
    decide (request.width < 64) || decide (surfaceMaxWidth < request.width) ||
    decide (request.height < 64) || decide (surfaceMaxHeight < request.height) ||
    request.pixelFormat != 1 || window.allocated ||
    -- the title is printable
    match title with
    | none => true
    | some bytes => bytes.any fun b => decide (b < 0x20) || decide (0x7e < b)

def WindowRequest.strideBytes (request : WindowRequest) : UInt32 := request.width * 4

def WindowRequest.byteLength (request : WindowRequest) : ℕ :=
  request.strideBytes.toNat * request.height.toNat

def Process.hasSurfaceRoom (p : Process) (bytes : ℕ) : Bool :=
  decide (bytes ≠ 0) && decide (bytes ≤ p.memoryLimit) &&
    decide (p.pages.length ≤ processPageLimit - surfacePages bytes)

def Desk.beginWindow (d : Desk) (request : WindowRequest) : Desk :=
  { d with
    window := { d.window with
      allocated := true
      windowObjectOpen := true
      surfaceAddress := nativeSurfaceBase
      surfaceBytes := request.byteLength
      width := request.width
      height := request.height
      strideBytes := request.strideBytes
      uiSlot := d.currentProcess
      generation := d.nextGeneration }
    nextGeneration := if d.nextGeneration + 1 = 0 then 1 else d.nextGeneration + 1 }

def Desk.allocateShadow (d : Desk) : Option ℕ → Option Desk
  | none => none
  | some block =>
    if block ∈ d.heap then none
    else some { d with heap := insert block d.heap, window := { d.window with
      shadowPixels := some block } }

/-- The pages of a surface, up to the first that cannot be built. -/
def State.buildSurface (s : State) (answers : PageAnswers) (page : ℕ) : ℕ → Bool × State
  | 0 => (true, s)
  | left + 1 =>
    match s.buildPage .nativeSurface (nativeSurfaceBase + page * pageSize) (answers.frame page)
      (answers.maps page) with
    | (true, s') => s'.buildSurface answers (page + 1) left
    | (false, s') => (false, s')

def installHandle (granted : Bool) (type : UInt8) (resource : NativeHandle.Resource) (w : Desktop) :
    Option UInt64 × Desktop :=
  if granted then
    match NativeHandle.install type resource w with
    | (.ok handle, w') => (some handle, w')
    | (.error _, w') => (none, w')
  else (none, w)

def closeHandle (w : Desktop) (handle : UInt64) : Desktop :=
  (NativeHandle.close handle (some closeResource) w).2

/-- The resource of both handles: the slot and the generation of the window. -/
def WindowState.resource (window : WindowState) : NativeHandle.Resource :=
  ⟨fun i => if i = 0 then window.uiSlot.toUInt64 else if i = 1 then window.generation else 0⟩

def Desk.openUi (d : Desk) (granted : Bool) : Option Desk :=
  if granted && !d.uiOpen then some { d with uiOpen := true } else none

def presentWindow (input : WindowInput) (windowHandle eventHandle : UInt64) (w : Desktop) :
    Except Errno (UInt64 × UInt64) × Desktop :=
  let d := { w.context with window := { w.context.window with eventObjectOpen := true } }
  match d.openUi input.ui with
  | none =>
    (.error .eio, closeHandle (closeHandle { w with context := d } eventHandle) windowHandle)
  | some d =>
    let d := { d with window := { d.window with visible := true } }
    if input.copied then (.ok (windowHandle, eventHandle), { w with context := d })
    else
      (.error .efault, closeHandle (closeHandle { w with context := d } eventHandle) windowHandle)

def publishWindow (input : WindowInput) (w : Desktop) :
    Except Errno (UInt64 × UInt64) × Desktop :=
  match installHandle input.windowHandle handleWindow w.context.window.resource w with
  | (none, w) => (.error .enomem, { w with context := w.context.releaseSurface })
  | (some windowHandle, w) =>
    match installHandle input.eventHandle handleEventQueue w.context.window.resource w with
    | (none, w) => (.error .enomem, closeHandle w windowHandle)
    | (some eventHandle, w) => presentWindow input windowHandle eventHandle w

def mapWindow (input : WindowInput) (w : Desktop) : Except Errno (UInt64 × UInt64) × Desktop :=
  match w.context.state.buildSurface input.answers 0
      (surfacePages w.context.window.surfaceBytes) with
  | (false, s) =>
    (.error .enomem, { w with context := { w.context with state := s }.releaseSurface })
  | (true, s) => publishWindow input { w with context := { w.context with state := s } }

def windowCreate (input : WindowInput) (w : Desktop) : Except Errno (UInt64 × UInt64) × Desktop :=
  let d := w.context
  if d.state.process.capabilities &&& capWindow = 0 then (.error .eacces, w)
  else
    match input.request with
    | none => (.error .efault, w)
    | some request =>
      if request.malformed d.window input.title then (.error .einval, w)
      else if d.state.process.hasSurfaceRoom request.byteLength then
        match (d.beginWindow request).allocateShadow input.block with
        | none =>
          (.error .enomem, { w with context := { d.beginWindow request with window := .zero } })
        | some d => mapWindow input { w with context := d }
      else (.error .enomem, { w with context := { d with window := .zero } })

end OpenRFS.NativeProcess
