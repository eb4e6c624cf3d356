import OpenRFS.NativeProcess.MemoryCalls

/-!
# Threads, loading and cleanup

THREAD_CREATE gives a thread a stack in a region of its own. Loading records the pages
of the image, of the thread-local storage and of the main stack and then maps them all
at once. Cleanup gives everything back, unless a handle could not be closed.
-/

namespace OpenRFS.NativeProcess

open Paging

def stackPages : ℕ := 16

def threadLimit : ℕ := 8

def stackGuard (index : ℕ) : ℕ := nativeStackBase + index * (stackPages + 1) * pageSize

/-! ### THREAD_CREATE -/

def State.releaseRuntimePage (s : State) (kind : MappingKind) (address : ℕ) : Bool × State :=
  match s.process.pageAt address with
  | none => (false, s)
  | some record =>
    if record.kind ≠ kind then (false, s)
    else if record.mapped then
      match s.process.unmapUserPage kind address with
      | none => (false, s)
      | some p => State.releaseRecord ⟨s.memory, p⟩ address
    else s.releaseRecord address

def State.releaseRuntimePages (s : State) (kind : MappingKind) (base : ℕ) : List ℕ → Bool × State
  | [] => (true, s)
  | page :: rest =>
    let (released, s') := s.releaseRuntimePage kind (base + page * pageSize)
    let (success, s'') := s'.releaseRuntimePages kind base rest
    (released && success, s'')

structure ThreadCreateRequest where
  size : UInt32
  version : UInt32
  entry : UInt64
  tlsBase : UInt64
  stackBytes : UInt32
  flags : UInt32

def capThreads : UInt64 := 512

/-- The call meets the request if it could be copied, whether the byte at the base of the
thread-local storage is readable, the answers for the pages, whether the FPU state could
be initialized, and the new handle or the error of the handle table. -/
structure ThreadInput where
  request : Option ThreadCreateRequest
  tlsValid : Bool
  answers : PageAnswers
  fpu : Bool
  install : Except Errno UInt64

def ThreadCreateRequest.malformed (request : ThreadCreateRequest) (p : Process) (tlsValid : Bool) :
    Bool :=
  request.size != 40 || request.version != abiVersion || request.flags != 0 ||
    decide (request.entry.toNat < p.mappingStart) || decide (p.mappingEnd ≤ request.entry.toNat) ||
    decide ((p.pageAt request.entry.toNat).map NativePage.permissions ≠ some pagingExecute) ||
    decide (request.stackBytes.toNat < 4 * pageSize) ||
    decide (stackPages * pageSize < request.stackBytes.toNat) ||
    (request.tlsBase != 0 && !tlsValid)

def ThreadCreateRequest.pageCount (request : ThreadCreateRequest) : ℕ :=
  (request.stackBytes.toNat + pageSize - 1) / pageSize

def State.startThread (s : State) (pageCount : ℕ) (input : ThreadInput) :
    Except Errno UInt64 × State :=
  let stackBase := stackGuard s.process.threadCount + pageSize
  match s.buildPages .nativeStack stackBase input.answers 0 pageCount with
  | (false, s') => (.error .enomem, s')
  | (true, s') =>
    if input.fpu then
      match input.install with
      | .ok handle =>
        (.ok handle, ⟨s'.memory, { s'.process with threadCount := s'.process.threadCount + 1 }⟩)
      | .error e =>
        match s'.releaseRuntimePages .nativeStack stackBase (List.range pageCount) with
        | (true, s'') => (.error e, s'')
        | (false, s'') =>
          (.error .eio, ⟨s''.memory, { s''.process.fault with exitStatus := -5 }⟩)
    else
      (.error .eio, (s'.releaseRuntimePages .nativeStack stackBase (List.range pageCount)).2)

def State.threadCreate (s : State) (input : ThreadInput) : Except Errno UInt64 × State :=
  if s.process.capabilities &&& capThreads = 0 then (.error .eacces, s)
  else
    match input.request with
    | none => (.error .efault, s)
    | some request =>
      if request.malformed s.process input.tlsValid then (.error .einval, s)
      else if s.process.maxThreads ≤ s.process.threadCount ∨
          threadLimit ≤ s.process.threadCount then (.error .enomem, s)
      else if nativeStackEnd <
          stackGuard s.process.threadCount + pageSize + request.pageCount * pageSize then
        (.error .enomem, s)
      else s.startThread request.pageCount input

/-! ### Loading -/

/-- Private pages of one kind, up to the first that cannot be allocated. -/
def State.preparePages (s : State) (kind : MappingKind) (permissions : UInt32) (base : ℕ)
    (frame : ℕ → Option ℕ) : List ℕ → Bool × State
  | [] => (true, s)
  | page :: rest =>
    match s.allocatePage (base + page * pageSize) permissions kind (frame page) with
    | (none, s') => (false, s')
    | (some _, s') => s'.preparePages kind permissions base frame rest

def State.prepareMainStack (s : State) (frame : ℕ → Option ℕ) : Bool × State :=
  s.preparePages .nativeStack pagingWrite (stackGuard 0 + pageSize) frame (List.range stackPages)

def mainTlsBase : ℕ := nativeAnonBase + pageSize

def State.prepareMainTls (s : State) (pageCount : ℕ) (frame : ℕ → Option ℕ) : Bool × State :=
  if pageCount = 0 ∨ processPageLimit < pageCount ∨
      (nativeAnonEnd - mainTlsBase) / pageSize ≤ pageCount then (false, s)
  else s.preparePages .nativeTls pagingWrite mainTlsBase frame (List.range pageCount)

/-- The records are mapped one after the other, up to the first that is refused. -/
def Process.mapRecords (p : Process) (maps : ℕ → Bool) : List NativePage → Bool × Process
  | [] => (true, p)
  | page :: rest =>
    match p.mapUserPage page.kind page.virtualAddress page.physicalAddress page.permissions
      (maps page.virtualAddress) with
    | none => (false, p)
    | some p' => (p'.setMapped page.virtualAddress true).mapRecords maps rest

/-- `map_prepared_pages`. The address space can be built, and is found to be as expected,
or not. -/
def State.mapPreparedPages (s : State) (spaceBuilt : Bool) (maps : ℕ → Bool) (validated : Bool) :
    Bool × State :=
  if spaceBuilt then
    let (success, p) := s.process.mapRecords maps s.process.pages
    (success && validated, ⟨s.memory, p⟩)
  else (false, s)

/-- The end of `load_process`: the pages are mapped, and the main thread exists. -/
def State.finishLoad (s : State) (spaceBuilt : Bool) (maps : ℕ → Bool) (validated : Bool) : State :=
  match s.mapPreparedPages spaceBuilt maps validated with
  | (true, s') => ⟨s'.memory, { s'.process with threadCount := 1 }⟩
  | (false, s') => s'

/-! ### Cleanup -/

def Process.unmapAll (p : Process) : List NativePage → Bool × Process
  | [] => (true, p)
  | page :: rest =>
    if page.mapped then
      match p.unmapUserPage page.kind page.virtualAddress with
      | none => (false, (p.unmapAll rest).2)
      | some p' => p'.unmapAll rest
    else p.unmapAll rest

def Memory.releaseAll (m : Memory) : List NativePage → Bool × Memory
  | [] => (true, m)
  | page :: rest =>
    match m.releasePageFrame page with
    | none => (false, (m.releaseAll rest).2)
    | some m' => m'.releaseAll rest

/-- `process_cleanup`, from the last page to the first. A handle that stays open blocks
it. -/
def State.cleanup (s : State) (blocked : Bool) : Bool × State :=
  if blocked then (false, s)
  else
    let (unmapped, _) := s.process.unmapAll s.process.pages.reverse
    let (released, m) := s.memory.releaseAll s.process.pages.reverse
    (unmapped && released, ⟨m, .zero⟩)

end OpenRFS.NativeProcess
