import OpenRFS.Crash.Answers
import OpenRFS.PackageState.Sha256
import OpenRFS.Volume.Store

/-!
# Package uploads

`package_upload.c` keeps four slots for package files that are received by the kernel.
A slot holds a private file open, hashes what is written to it, is sealed when the
length and the digest are those expected, and is read through the same handle
afterwards. The filesystem is answered from outside: its calls are commands, and
what is assumed of their replies is `FsCall.Admits`.

A held file is represented by the contents of its inode. Nobody else writes it, so a
slot carries the contents along and the commands name them.
-/

namespace OpenRFS.PackageUpload

open Crash PackageState
open Volume (FsStatus)

abbrev slotLimit : ℕ := 4

def writeMax : ℕ := 4096

def maxBytes : ℕ := 16777216

def cleanupChunk : ℕ := 32 * 4096

inductive Status
  | ok | nullArgument | notInitialized | busy | noSlot | stale | state | range | length | digest
  | filesystem | durability
  deriving DecidableEq, Repr

def directory : Bytes := [0x70, 0x6b, 0x67, 0x73, 0x74, 0x61, 0x67, 0x65]

def slotPath (index : Fin slotLimit) : Bytes :=
  directory ++ [0x2f, 0x75, 0x30 + UInt8.ofNat index] ++ [0x2e, 0x73, 0x70, 0x6b]

/-! ### The calls of the filesystem -/

structure StatReply where
  status : FsStatus
  size : ℕ
  directory : Bool
  deriving DecidableEq

structure WriteReply where
  status : FsStatus
  written : ℕ
  held : Bytes
  deriving DecidableEq

structure PreadReply where
  status : FsStatus
  bytes : Bytes
  deriving DecidableEq

structure CloseReply where
  status : FsStatus
  consumed : Bool
  deriving DecidableEq

/-- The calls that the uploads make, on the data volume. Those on a held file name the
contents of its inode. -/
inductive FsCall
  | mkdir (path : Bytes)
  | statPath (path : Bytes)
  | truncate (path : Bytes) (size : ℕ)
  | unlink (path : Bytes)
  | openOptions (path : Bytes)
  | write (held bytes : Bytes)
  | fsync
  | sync
  | pread (held : Bytes) (capacity offset : ℕ)
  | unlinkHeldFile (path : Bytes)
  | closeReport
  deriving DecidableEq

@[reducible] def FsCall.Reply : FsCall → Type
  | .statPath _ => StatReply
  | .write _ _ => WriteReply
  | .pread _ _ _ => PreadReply
  | .closeReport => CloseReply
  | _ => FsStatus

/-- What is assumed of the filesystem: a successful write appends the bytes it reports,
and a successful read gives bytes of the inode, from the offset on and at most as many
as asked for. Every other reply is possible. -/
def FsCall.Admits : (c : FsCall) → c.Reply → Prop
  | .write held bytes, r =>
    r.status = .ok → r.written ≤ bytes.length → r.held = held ++ bytes.take r.written
  | .pread held capacity offset, r =>
    r.status = .ok → ∃ count ≤ capacity, r.bytes = (held.drop offset).take count
  | _, _ => True

abbrev Fs := Prog FsCall FsCall.Reply

abbrev FsLog := Prog.Log FsCall.Reply

/-! ### Slots and reports -/

/-- `struct upload_slot`. The handle `file` is the contents of the inode it is bound to. -/
structure Slot where
  sha256 : Sha256.Context
  file : Bytes
  owner : ℕ
  byteCount : ℕ
  digest : Digest
  generation : ℕ
  active : Bool
  fileOpen : Bool
  filePresent : Bool
  inodeBoundCleanup : Bool
  isSealed : Bool
  durable : Bool
  poisoned : Bool

def zeroDigest : Digest := ⟨List.replicate 32 0, by simp⟩

/-- A slot of zero bytes. A zeroed hash context is never read: `upload_open_owned`
stores an initialized one. -/
def Slot.zero : Slot where
  sha256 := Sha256.initialContext
  file := []
  owner := 0
  byteCount := 0
  digest := zeroDigest
  generation := 0
  active := false
  fileOpen := false
  filePresent := false
  inodeBoundCleanup := false
  isSealed := false
  durable := false
  poisoned := false

/-- The static variables. `atomicReplace` is what `rsdfs_has_atomic_replace` says of the
data volume. -/
structure State where
  slots : Fin slotLimit → Slot
  initialized : Bool
  servicing : Bool
  atomicReplace : Bool

def State.cold (atomicReplace : Bool) : State := ⟨fun _ => .zero, false, false, atomicReplace⟩

def State.put (s : State) (index : Fin slotLimit) (slot : Slot) : State :=
  { s with slots := Function.update s.slots index slot }

def encodeToken (index : Fin slotLimit) (generation : ℕ) : ℕ :=
  generation * 2 ^ 32 + (index + 1)

structure Report where
  status : Status
  filesystemStatus : FsStatus
  token : ℕ
  byteCount : ℕ
  sha256 : Digest
  isSealed : Bool
  durable : Bool

def Report.clear : Report := ⟨.state, .ok, 0, 0, zeroDigest, false, false⟩

/-- What a call returns: its status, the report and the values behind its other
pointers. -/
structure Answer where
  status : Status
  report : Report
  written : ℕ
  bytes : Bytes
  consumed : Bool

/-- `finish` without a slot. -/
def finish (status : Status) (filesystemStatus : FsStatus) : Answer where
  status := status
  report := { Report.clear with status := status, filesystemStatus := filesystemStatus }
  written := 0
  bytes := []
  consumed := false

def finishSlot (status : Status) (filesystemStatus : FsStatus) (slot : Slot)
    (index : Fin slotLimit) : Answer where
  status := status
  report :=
    { status := status
      filesystemStatus := filesystemStatus
      token := encodeToken index slot.generation
      byteCount := slot.byteCount
      sha256 := slot.digest
      isSealed := slot.isSealed
      durable := slot.durable }
  written := 0
  bytes := []
  consumed := false

def resolveSlot (s : State) (owner token : ℕ) : Except Status (Fin slotLimit) :=
  if s.initialized = false then .error .notInitialized
  else if h : owner = 0 ∨ token % 2 ^ 32 = 0 ∨ slotLimit < token % 2 ^ 32 ∨ token / 2 ^ 32 = 0 then
    .error .stale
  else
    let index : Fin slotLimit := ⟨token % 2 ^ 32 - 1, by omega⟩
    if (s.slots index).active = false ∨ (s.slots index).generation ≠ token / 2 ^ 32 ∨
        (s.slots index).owner ≠ owner then .error .stale
    else .ok index

/-- `release_slot`: the generation is a `uint32_t` that never becomes zero. -/
def releaseSlot (slot : Slot) : Slot :=
  let generation := (slot.generation + 1) % 2 ^ 32
  { Slot.zero with generation := if generation = 0 then 1 else generation }

/-- The loop of `remove_private_file`, with the `changed` flag of its caller. -/
def trim (path : Bytes) (size : ℕ) (changed : Bool) : Fs (FsStatus × Bool) :=
  if size = 0 then .done (.ok, changed)
  else
    let next := if size > cleanupChunk then size - cleanupChunk else 0
    .call (.truncate path next) fun status =>
      if status ≠ .ok then .done (status, changed) else trim path next true
  termination_by size
  decreasing_by
    unfold cleanupChunk
    split <;> omega

def removePrivateFile (path : Bytes) (changed : Bool) : Fs (FsStatus × Bool) :=
  .call (.statPath path) fun stat =>
    if stat.status = .notFound then .done (.ok, changed)
    else if stat.status ≠ .ok ∨ stat.directory then
      .done (if stat.status = .ok then .isDirectory else stat.status, changed)
    else
      trim path stat.size changed >>= fun trimmed =>
        if trimmed.1 ≠ .ok then .done trimmed
        else
          .call (.unlink path) fun status =>
            if status = .ok then .done (.ok, true)
            else .done (if status = .notFound then .ok else status, trimmed.2)

/-! ### The requests -/

def initializationFailure (status : Status) (filesystemStatus : FsStatus) (changed : Bool) :
    Fs Answer :=
  if changed then
    .call .sync fun syncStatus =>
      if syncStatus ≠ .ok then .done (finish .durability syncStatus)
      else .done (finish status filesystemStatus)
  else .done (finish status filesystemStatus)

def removeLeftovers : List (Fin slotLimit) → Bool → Fs (FsStatus × Bool)
  | [], changed => .done (.ok, changed)
  | index :: rest, changed =>
    removePrivateFile (slotPath index) changed >>= fun removed =>
      if removed.1 ≠ .ok then .done removed else removeLeftovers rest removed.2

def State.ready (s : State) : State :=
  { s with slots := fun _ => { Slot.zero with generation := 1 }, initialized := true }

def prepareSlots (s : State) (changed : Bool) : Fs (Answer × State) :=
  removeLeftovers (List.finRange slotLimit) changed >>= fun removed =>
    if removed.1 ≠ .ok then
      initializationFailure .filesystem removed.1 removed.2 >>= fun answer => .done (answer, s)
    else if removed.2 then
      .call .sync fun status =>
        if status ≠ .ok then .done (finish .durability status, s)
        else .done (finish .ok .ok, s.ready)
    else .done (finish .ok .ok, s.ready)

/-- `servicing` is set while a request is served and cleared at its end, so that a
request leaves it as it found it. -/
def uploadInitializeOwned (s : State) : Fs (Answer × State) :=
  if s.servicing then .done (finish .busy .ok, s)
  else if s.initialized then .done (finish .ok .ok, s)
  else
    .call (.mkdir directory) fun status =>
      if status = .ok then prepareSlots s true
      else if status ≠ .entryExists then
        initializationFailure .filesystem status false >>= fun answer => .done (answer, s)
      else prepareSlots s false

def openedSlot (s : State) (index : Fin slotLimit) (owner : ℕ) : Slot :=
  { Slot.zero with
    generation := (s.slots index).generation
    owner := owner
    file := []
    active := true
    fileOpen := true
    filePresent := true
    inodeBoundCleanup := s.atomicReplace
    sha256 := Sha256.initialContext }

def uploadOpenOwned (s : State) (owner : ℕ) : Fs (Answer × State) :=
  if owner = 0 then
    .done ({ finish .nullArgument .ok with report := Report.clear }, s)
  else if s.initialized = false then .done (finish .notInitialized .ok, s)
  else if s.servicing then .done (finish .busy .ok, s)
  else
    match (List.finRange slotLimit).find? fun index => !(s.slots index).active with
    | none => .done (finish .noSlot .ok, s)
    | some index =>
      .call (.openOptions (slotPath index)) fun status =>
        if status ≠ .ok then .done (finish .filesystem status, s)
        else
          .done (finishSlot .ok .ok (openedSlot s index owner) index,
            s.put index (openedSlot s index owner))

/-- What the loop of `upload_write_owned` leaves: the status and that of the
filesystem, the bytes written and the slot. -/
structure Written where
  status : Status
  filesystemStatus : FsStatus
  total : ℕ
  slot : Slot

def writeLoop (slot : Slot) (total : ℕ) (rest : Bytes) : Fs Written :=
  if hrest : rest = [] then .done ⟨.ok, .ok, total, slot⟩
  else
    .call (.write slot.file rest) fun r =>
      if r.written > rest.length ∨ (r.status = .ok ∧ r.written = 0) then
        .done ⟨.state, r.status, total, { slot with file := r.held, poisoned := true }⟩
      else if hzero : r.written = 0 then
        .done ⟨.filesystem, r.status, total, { slot with file := r.held, poisoned := true }⟩
      else
        match Sha256.update slot.sha256 (rest.take r.written) with
        | .error _ => .done ⟨.state, .ok, total, { slot with file := r.held, poisoned := true }⟩
        | .ok sha256 =>
          let slot :=
            { slot with
              file := r.held
              sha256 := sha256
              byteCount := slot.byteCount + r.written }
          if r.status ≠ .ok then
            .done ⟨.filesystem, r.status, total + r.written, { slot with poisoned := true }⟩
          else
            have : (rest.drop r.written).length < rest.length := by
              rw [List.length_drop]
              exact Nat.sub_lt (List.length_pos_of_ne_nil hrest) (Nat.pos_of_ne_zero hzero)
            writeLoop slot (total + r.written) (rest.drop r.written)
  termination_by rest.length

def uploadWriteOwned (s : State) (owner token : ℕ) (bytes : Bytes) : Fs (Answer × State) :=
  match resolveSlot s owner token with
  | .error status => .done (finish status .ok, s)
  | .ok index =>
    let slot := s.slots index
    if s.servicing then .done (finishSlot .busy .ok slot index, s)
    else if slot.fileOpen = false ∨ slot.isSealed ∨ slot.poisoned then
      .done (finishSlot .state .ok slot index, s)
    else if bytes.length > writeMax ∨ bytes.length > maxBytes - slot.byteCount then
      .done (finishSlot .range .ok slot index, s)
    else
      writeLoop slot 0 bytes >>= fun w =>
        .done ({ finishSlot w.status w.filesystemStatus w.slot index with written := w.total },
          s.put index w.slot)

def uploadSealOwned (s : State) (owner token expectedBytes : ℕ) (expectedSha256 : Digest) :
    Fs (Answer × State) :=
  match resolveSlot s owner token with
  | .error status => .done (finish status .ok, s)
  | .ok index =>
    let slot := s.slots index
    if s.servicing then .done (finishSlot .busy .ok slot index, s)
    else if slot.fileOpen = false ∨ slot.isSealed ∨ slot.poisoned then
      .done (finishSlot .state .ok slot index, s)
    else
      match Sha256.finish slot.sha256 with
      | .error _ =>
        let slot := { slot with poisoned := true }
        .done (finishSlot .state .ok slot index, s.put index slot)
      | .ok digest =>
        let slot :=
          { slot with sha256 := { slot.sha256 with finished := true }, digest := digest }
        let refused := { slot with poisoned := true }
        if slot.byteCount ≠ expectedBytes then
          .done (finishSlot .length .ok refused index, s.put index refused)
        else if digest ≠ expectedSha256 then
          .done (finishSlot .digest .ok refused index, s.put index refused)
        else
          .call .fsync fun status =>
            if status ≠ .ok then
              .done (finishSlot .durability status refused index, s.put index refused)
            else
              .call .sync fun status =>
                if status ≠ .ok then
                  .done (finishSlot .durability status refused index, s.put index refused)
                else
                  let slot := { slot with isSealed := true, durable := true }
                  .done (finishSlot .ok .ok slot index, s.put index slot)

/-- What `upload_read_owned` and `upload_inspect_owned` ask of a slot. -/
def Slot.Readable (slot : Slot) : Prop :=
  slot.isSealed = true ∧ slot.durable = true ∧ slot.poisoned = false ∧ slot.fileOpen = true

instance (slot : Slot) : Decidable slot.Readable := inferInstanceAs (Decidable (_ ∧ _))

def uploadReadOwned (s : State) (owner token offset capacity : ℕ) : Fs (Answer × State) :=
  match resolveSlot s owner token with
  | .error status => .done (finish status .ok, s)
  | .ok index =>
    let slot := s.slots index
    if s.servicing then .done (finishSlot .busy .ok slot index, s)
    else if ¬slot.Readable then .done (finishSlot .state .ok slot index, s)
    else if capacity > writeMax ∨ offset > slot.byteCount then
      .done (finishSlot .range .ok slot index, s)
    else
      let capacity := if capacity > slot.byteCount - offset then slot.byteCount - offset else capacity
      .call (.pread slot.file capacity offset) fun r =>
        let status := if r.status = .ok then .ok else .filesystem
        .done ({ finishSlot status r.status slot index with bytes := r.bytes }, s)

def uploadInspectOwned (s : State) (owner token : ℕ) : Fs (Answer × State) :=
  match resolveSlot s owner token with
  | .error status => .done (finish status .ok, s)
  | .ok index =>
    let slot := s.slots index
    if ¬slot.Readable then .done (finishSlot .state .ok slot index, s)
    else .done (finishSlot .ok .ok slot index, s)

/-- The first part of `upload_close_owned`: the name of the held inode is removed. The
status of a refusal that stops the close, and the slot. -/
def closeUnlink (path : Bytes) (slot : Slot) : Fs (Option FsStatus × Slot) :=
  if slot.inodeBoundCleanup ∧ slot.fileOpen ∧ slot.filePresent then
    .call (.unlinkHeldFile path) fun status =>
      if status ≠ .ok ∧ status ≠ .notFound ∧ status ≠ .staleHandle then .done (some status, slot)
      else .done (none, { slot with filePresent := false })
  else .done (none, slot)

/-- The second part: the handle is closed. The reply of the filesystem, which counts
as consumed when there is no handle left, and the slot. -/
def closeFile (slot : Slot) : Fs (CloseReply × Slot) :=
  if slot.fileOpen then
    .call .closeReport fun r =>
      if r.consumed = false then .done (r, slot)
      else .done (r, { slot with fileOpen := false, file := [] })
  else .done (⟨.ok, true⟩, slot)

def closeName (path : Bytes) (slot : Slot) : Fs (FsStatus × Slot) :=
  if slot.filePresent then
    removePrivateFile path false >>= fun removed =>
      if removed.1 ≠ .ok then .done (removed.1, slot)
      else .done (.ok, { slot with filePresent := false })
  else .done (.ok, slot)

def keepSlot (s : State) (index : Fin slotLimit) (status : Status) (filesystemStatus : FsStatus)
    (slot : Slot) : Answer × State :=
  (finishSlot status filesystemStatus slot index, s.put index slot)

def closeSlot (s : State) (index : Fin slotLimit) (slot : Slot) : Fs (Answer × State) :=
  closeUnlink (slotPath index) slot >>= fun unlinked =>
    match unlinked.1 with
    | some status => .done (keepSlot s index .filesystem status unlinked.2)
    | none =>
      closeFile unlinked.2 >>= fun closed =>
        if closed.1.consumed = false then
          .done (keepSlot s index .filesystem closed.1.status closed.2)
        else
          closeName (slotPath index) closed.2 >>= fun removed =>
            if removed.1 ≠ .ok then .done (keepSlot s index .filesystem removed.1 removed.2)
            else
              .call .sync fun status =>
                if status ≠ .ok then .done (keepSlot s index .durability status removed.2)
                else
                  let closeStatus := if closed.1.status = .ok then .ok else .filesystem
                  .done ({ finish closeStatus closed.1.status with consumed := true },
                    s.put index (releaseSlot removed.2))

def uploadCloseOwned (s : State) (owner token : ℕ) : Fs (Answer × State) :=
  match resolveSlot s owner token with
  | .error status => .done (finish status .ok, s)
  | .ok index =>
    let slot := s.slots index
    if s.servicing then .done (finishSlot .busy .ok slot index, s)
    else closeSlot s index { slot with poisoned := true, isSealed := false, durable := false }

/-! ### Runs -/

inductive Request
  | initializeUploads
  | openUpload (owner : ℕ)
  | write (owner token : ℕ) (bytes : Bytes)
  | sealUpload (owner token expectedBytes : ℕ) (expectedSha256 : Digest)
  | read (owner token offset capacity : ℕ)
  | inspect (owner token : ℕ)
  | close (owner token : ℕ)

def serve (s : State) : Request → Fs (Answer × State)
  | .initializeUploads => uploadInitializeOwned s
  | .openUpload owner => uploadOpenOwned s owner
  | .write owner token bytes => uploadWriteOwned s owner token bytes
  | .sealUpload owner token expectedBytes expectedSha256 =>
    uploadSealOwned s owner token expectedBytes expectedSha256
  | .read owner token offset capacity => uploadReadOwned s owner token offset capacity
  | .inspect owner token => uploadInspectOwned s owner token
  | .close owner token => uploadCloseOwned s owner token

/-- A request with its answer and the filesystem calls made for it. `contended` says
that another request had the claim. -/
structure Event where
  request : Request
  contended : Bool
  log : FsLog
  answer : Answer

/-- A request while another one has the claim is refused by `claim_request`; any other
is served. -/
inductive Step : State → Event → State → Prop
  | contended (s : State) (request : Request) :
      Step s ⟨request, true, [], finish .busy .ok⟩ s
  | served {s s' : State} {request : Request} {log : FsLog} {answer : Answer} :
      Prog.Answered FsCall.Admits (serve s request) log (answer, s') →
        Step s ⟨request, false, log, answer⟩ s'

/-- The events of a run, the latest last. -/
inductive Run (s : State) : List Event → State → Prop
  | start : Run s [] s
  | step {events : List Event} {e : Event} {s' s'' : State} :
      Run s events s' → Step s' e s'' → Run s (events ++ [e]) s''

end OpenRFS.PackageUpload
