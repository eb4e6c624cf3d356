import OpenRFS.PackageService.Machine

/-!
# Files of the package service

The helpers through which the service reads, writes and removes single files.
Every loop of the source reads or writes at least one byte in an iteration, so a
loop over `count` bytes is a recursion on that bound. A refused operation is
noted in the report as the filesystem status.
-/

namespace OpenRFS.PackageService

open Volume

/-- The bound on one write of the source. -/
def transactionBytes : ℕ := 32 * 4096

namespace Service

def invoke (c : Cmd) : Service (Reply c) := .call c .done

def statPath (p : Path) : Service (Except FsStatus Stat) := invoke (.stat p)
def openFile (p : Path) : Service FsStatus := invoke (.openFile p)
def createFile (p : Path) (mode : UInt16) : Service FsStatus := invoke (.create p mode)
def readAt (p : Path) (position count : ℕ) : Service (Except FsStatus Bytes) :=
  invoke (.read p position count)
def writeAt (p : Path) (position : ℕ) (bytes : Bytes) : Service (Except FsStatus ℕ) :=
  invoke (.write p position bytes)
def closeHandle (p : Path) : Service FsStatus := invoke (.close p)
def makeDirectory (p : Path) : Service FsStatus := invoke (.mkdir p)
def renameFile (p q : Path) : Service FsStatus := invoke (.rename p q)
def unlinkFile (p : Path) : Service FsStatus := invoke (.unlink p)
def syncVolume : Service FsStatus := invoke .sync
def driveInfo : Service Drive := invoke .drive
def heapIsActive : Service Bool := invoke .heapActive
def loadMemory : Service Memory := invoke .load
def alter (f : Memory → Memory) : Service Unit := invoke (.modify f)

def note (f : Report → Report) : Service Unit :=
  alter fun m => { m with report := f m.report }

end Service

open Service

/-- Goes on only after a success, as the source does with
`if (status == PACKAGE_SERVICE_STATUS_OK)`. -/
def andThen (status : Status) (next : Service Status) : Service Status :=
  if status = .ok then next else pure status

@[simp] theorem andThen_ok (next : Service Status) : andThen .ok next = next := rfl

theorem andThen_of_ne {status : Status} (h : status ≠ .ok) (next : Service Status) :
    andThen status next = .done status :=
  if_neg h

def filesystemFailure (e : FsStatus) : Service Status := do
  note fun r => { r with filesystemStatus := e }
  return .filesystem

def handleAcquired : Service Unit :=
  note fun r => { r with liveFileHandles := r.liveFileHandles + 1 }

def closeFile (p : Path) : Service Status := do
  let status ← closeHandle p
  note fun r => { r with liveFileHandles := r.liveFileHandles - 1 }
  if status = .ok then return .ok else filesystemFailure status

def readOpenLoop (p : Path) (count : ℕ) : ℕ → Bytes → Service (Status × Bytes)
  | 0, done => pure (.state, done)
  | fuel + 1, done => do
      if done.length < count then
        match ← readAt p done.length (count - done.length) with
        | .error e => return (← filesystemFailure e, done)
        | .ok bytes =>
          if bytes.length = 0 ∨ bytes.length > count - done.length then
            return (.state, done)
          else readOpenLoop p count fuel (done ++ bytes)
      else return (.ok, done)

def readOpenFile (p : Path) (count : ℕ) : Service (Status × Bytes) := do
  let (status, bytes) ← readOpenLoop p count (count + 1) []
  if status ≠ .ok then return (status, bytes)
  match ← readAt p count 1 with
  | .error e => return (← filesystemFailure e, bytes)
  | .ok extra => if extra.length ≠ 0 then return (.state, bytes) else return (.ok, bytes)

/-- The result of `read_exact_path`; the bytes count only after a success with a
file present. -/
structure ReadResult where
  status : Status
  present : Bool
  bytes : Bytes
  deriving DecidableEq

def readExactPath (p : Path) (expected : ℕ) (optional : Bool) : Service ReadResult := do
  match ← statPath p with
  | .error e =>
    if e = .notFound ∧ optional then return ⟨.ok, false, []⟩
    else return ⟨← filesystemFailure e, false, []⟩
  | .ok info =>
    if info.directory ∨ info.size ≠ expected then return ⟨.state, true, []⟩
    else
      let opened ← openFile p
      if opened ≠ .ok then return ⟨← filesystemFailure opened, true, []⟩
      else
        handleAcquired
        let (status, bytes) ← readOpenFile p expected
        let closed ← closeFile p
        return ⟨if status ≠ .ok then status else closed, true, bytes⟩

def syncData : Service Status := do
  let status ← syncVolume
  if status ≠ .ok then
    note fun r => { r with filesystemStatus := status }
    return .durability
  else return .ok

def ensureDirectory (p : Path) : Service Status := do
  match ← statPath p with
  | .ok info => return if info.directory then .ok else .nameSpace
  | .error .notFound =>
    let status ← makeDirectory p
    if status = .ok then return .ok else filesystemFailure status
  | .error e => filesystemFailure e

/-- The loop of `write_handle_bytes`: `bytes` is what is left to be written. -/
def writeHandleLoop (p : Path) : ℕ → ℕ → Bytes → Service Status
  | 0, _, _ => pure .filesystem
  | fuel + 1, position, bytes => do
      if bytes.length = 0 then return .ok
      else
        let chunk := bytes.take transactionBytes
        match ← writeAt p position chunk with
        | .error e => filesystemFailure e
        | .ok written =>
          if written = 0 ∨ written > chunk.length then return .filesystem
          else writeHandleLoop p fuel (position + written) (bytes.drop written)

def writeHandleBytes (p : Path) (position : ℕ) (bytes : Bytes) : Service Status :=
  writeHandleLoop p (bytes.length + 1) position bytes

def writeNewFile (p : Path) (bytes : Bytes) : Service Status := do
  let opened ← createFile p 0o644
  if opened ≠ .ok then filesystemFailure opened
  else
    handleAcquired
    let status ← writeHandleBytes p 0 bytes
    let closed ← closeFile p
    let status := if status = .ok then closed else status
    if status ≠ .ok then
      let _ ← unlinkFile p
      return status
    else return status

/-- `unlink_optional`: a file that is not there is no failure. -/
def unlinkOptional (p : Path) : Service Status := do
  let status ← unlinkFile p
  if status = .ok ∨ status = .notFound then return .ok else filesystemFailure status

/-- The frame of the calls on the floor: the report is cleared, the call is refused
while another one is in progress or the drive is not ready, and at the end leaks are
looked for. `writes` says that the call needs a volume it can write to. -/
def serviceCall {β : Type} (writes : Bool) (refused : β) (body : Service (Status × β)) :
    Service (Status × β) := do
  note fun _ => {}
  let before ← loadMemory
  if before.servicing then
    note fun r => { r with status := .busy }
    return (.busy, refused)
  alter fun m => { m with servicing := true }
  let drive ← driveInfo
  let active ← heapIsActive
  if !drive.present || !drive.mounted || !drive.healthy || (writes && drive.readOnly) || !active
  then
    note fun r => { r with status := .unavailable }
    alter fun m => { m with servicing := false }
    return (.unavailable, refused)
  let (status, value) ← body
  let memory ← loadMemory
  let status :=
    if memory.report.liveFileHandles ≠ 0 ∨ memory.report.liveAllocations ≠ 0 then .resource
    else status
  alter fun m => { m with servicing := false }
  note fun r => { r with status := status }
  return (status, if status = .ok then value else refused)

def statusCall (writes : Bool) (body : Service Status) : Service Status := do
  let (status, _) ← serviceCall writes () (do return (← body, ()))
  return status

end OpenRFS.PackageService
