import OpenRFS.PackageService.Files

/-!
# The repository rollback floor

The greatest repository version that was ever accepted is kept in the record
`repo.bin`. A new floor is written to `repo.new`, flushed, and then takes the
place of `repo.bin`; what an interrupted call has left behind is put in order by
the next one. The floor is the greater of the two records, and a record that is
present but not valid is refused.
-/

namespace OpenRFS.PackageService

open Codec Volume PackageState Service

/-! ### The layout of the package state -/

def stateDirectory : Path := [asciiText ['p', 'k', 'g', 's', 't', 'a', 't', 'e']]

def statePath (name : List Char) : Path := stateDirectory ++ [asciiText name]

def repositoryFloorPath : Path := statePath ['r', 'e', 'p', 'o', '.', 'b', 'i', 'n']
def repositoryFloorNewPath : Path := statePath ['r', 'e', 'p', 'o', '.', 'n', 'e', 'w']

theorem parentReady_statePath {s : Store} {name : List Char}
    (h : s.get? stateDirectory = some .directory) : s.parentReady (statePath name) := by
  intro _
  rwa [statePath, List.dropLast_concat]

theorem directory_of_statePath {s : Store} {name : List Char} {n : Node}
    (h : s.get? (statePath name) = some n) : s.get? stateDirectory = some .directory :=
  Store.get?_parent h (by simp [stateDirectory])

/-! ### Records -/

def repositoryFloorBytes : ℕ := 128

def repositoryFloorMagic : Bytes := asciiText ['R', 'S', 'D', 'R', 'E', 'P', '0', '1']

def repositoryFloorRecordParse (record : Bytes) : Option UInt64 :=
  if slice record 0 8 ≠ repositoryFloorMagic ∨ readU16 record 8 ≠ 1 ∨
      (readU16 record 10).toNat ≠ repositoryFloorBytes ∨ readU32 record 12 ≠ 0 ∨
      readU64 record 16 = 0 ∨ readU64 record 24 ≠ 0 ∨
      isZero (slice record 64 64) = false then none
  else
    match sha256 (slice record 0 32) with
    | .error _ => none
    | .ok digest => if slice record 32 32 ≠ digest.val then none else some (readU64 record 16)

def repositoryFloorBody (version : UInt64) : Bytes :=
  [repositoryFloorMagic, writeU16 1, writeU16 128, writeU32 0, writeU64 version, writeU64 0].flatten

def repositoryFloorRecordEncode (version : UInt64) : Option Bytes :=
  if version = 0 then none
  else
    match sha256 (repositoryFloorBody version) with
    | .error _ => none
    | .ok digest => some (repositoryFloorBody version ++ digest.val ++ zeros 64)

structure FloorCandidate where
  status : Status
  present : Bool
  version : UInt64

def readRepositoryFloorCandidate (p : Path) : Service FloorCandidate := do
  let found ← readExactPath p repositoryFloorBytes true
  if found.status ≠ .ok ∨ found.present = false then return ⟨found.status, found.present, 0⟩
  else
    match repositoryFloorRecordParse found.bytes with
    | none =>
      note fun r => { r with stateStatus := .mismatch }
      return ⟨.state, true, 0⟩
    | some version => return ⟨.ok, true, version⟩

structure FloorState where
  status : Status
  floor : UInt64
  currentPresent : Bool
  currentVersion : UInt64
  newPresent : Bool
  newVersion : UInt64

def repositoryFloorReadInternal : Service FloorState := do
  let current ← readRepositoryFloorCandidate repositoryFloorPath
  if current.status ≠ .ok then
    return ⟨current.status, 0, current.present, current.version, false, 0⟩
  else
    let new ← readRepositoryFloorCandidate repositoryFloorNewPath
    if new.status ≠ .ok then
      return ⟨new.status, 0, current.present, current.version, new.present, new.version⟩
    else
      let floor := if current.version > new.version then current.version else new.version
      note fun r => { r with repositoryFloor := floor }
      return ⟨.ok, floor, current.present, current.version, new.present, new.version⟩

def promoteRepositoryFloorNew (currentPresent : Bool) : Service Status := do
  let status ← if currentPresent then unlinkOptional repositoryFloorPath else pure .ok
  if status ≠ .ok then return status
  else
    let renamed ← renameFile repositoryFloorNewPath repositoryFloorPath
    if renamed ≠ .ok then filesystemFailure renamed else syncData

/-- The part of `repository_floor_advance_internal` that puts a candidate left by
an interrupted call in order. It gives the state of the current record. -/
def normalizeRepositoryFloor (found : FloorState) : Service (Status × Bool × UInt64) := do
  if found.newPresent ∧ (found.currentPresent = false ∨ found.newVersion > found.currentVersion)
  then
    let status ← promoteRepositoryFloorNew found.currentPresent
    return (status, true, found.newVersion)
  else if found.newPresent then
    let status ← unlinkOptional repositoryFloorNewPath
    let status ← andThen status syncData
    return (status, found.currentPresent, found.currentVersion)
  else return (.ok, found.currentPresent, found.currentVersion)

/-- The part that writes the new record and puts it in the place of the current one. -/
def stageRepositoryFloor (requested : UInt64) (currentPresent : Bool) : Service Status := do
  match repositoryFloorRecordEncode requested with
  | none => return .state
  | some record =>
    let status ← writeNewFile repositoryFloorNewPath record
    let status ← andThen status syncData
    let status ← andThen status (promoteRepositoryFloorNew currentPresent)
    if status = .ok then
      note fun r => { r with repositoryFloor := requested }
      return .ok
    else return status

def raiseRepositoryFloor (requested : UInt64) (found : FloorState) : Service Status := do
  if requested < found.floor then return .state
  let (status, currentPresent, currentVersion) ← normalizeRepositoryFloor found
  if status ≠ .ok then return status
  if currentPresent ∧ currentVersion = requested then
    note fun r => { r with repositoryFloor := requested }
    return .ok
  stageRepositoryFloor requested currentPresent

def repositoryFloorAdvanceInternal (requested : UInt64) : Service Status := do
  if requested = 0 then return .state
  let status ← ensureDirectory stateDirectory
  if status ≠ .ok then return status
  let found ← repositoryFloorReadInternal
  if found.status ≠ .ok then return found.status
  raiseRepositoryFloor requested found

def repositoryFloorRead : Service (Status × UInt64) :=
  serviceCall false 0 do
    let found ← repositoryFloorReadInternal
    return (found.status, found.floor)

def repositoryFloorAdvance (version : UInt64) : Service Status :=
  if version = 0 then pure .nullArgument
  else statusCall true (repositoryFloorAdvanceInternal version)

end OpenRFS.PackageService
