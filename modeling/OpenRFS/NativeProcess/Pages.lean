import OpenRFS.Codec.LittleEndian
import OpenRFS.Probe.Table
import OpenRFS.Sorted.Keyed

/-!
# Page records of native processes

`native_process.c` records every page of a process in a table sorted by virtual
address. A page is private, with a frame of its own, or it is a page of library code
whose frame is shared through a cache with reference counts. What may fail outside of
this file is an argument: the answer of the frame allocator, and whether the paging
layer could build the tables for a leaf.
-/

namespace OpenRFS.Paging

def pageSize : ℕ := 4096

def pagingRead : UInt32 := 0
def pagingWrite : UInt32 := 1
def pagingExecute : UInt32 := 2

end OpenRFS.Paging

namespace OpenRFS.NativeProcess

open Codec Paging

def processPageLimit : ℕ := 4096

def sharedCodeCacheCapacity : ℕ := 32768

def nativeImageBase : ℕ := 0x400000000000
def nativeImageEnd : ℕ := 0x400100000000
def nativeAnonBase : ℕ := 0x500000000000
def nativeAnonEnd : ℕ := 0x500040000000
def nativeSurfaceBase : ℕ := 0x580000000000
def nativeSurfaceEnd : ℕ := 0x580010000000
def nativeStackBase : ℕ := 0x600000000000
def nativeStackEnd : ℕ := 0x600001000000

inductive MappingKind where
  | nativeImage
  | nativeAnon
  | nativeTls
  | nativeSurface
  | nativeStack
  deriving DecidableEq

structure NativePage where
  virtualAddress : ℕ
  physicalAddress : ℕ
  /-- The cache slot of a shared page; a private page has none. -/
  sharedCodeSlot : Option (Fin sharedCodeCacheCapacity)
  permissions : UInt32
  kind : MappingKind
  mapped : Bool
  deriving DecidableEq

structure CodeKey where
  digest : Bytes
  pageOffset : UInt64
  deriving DecidableEq

structure SharedCodePage where
  physicalAddress : ℕ
  references : ℕ
  deriving DecidableEq

abbrev CodeCell := Probe.Cell CodeKey SharedCodePage

structure Memory where
  frames : Finset ℕ
  cache : Fin sharedCodeCacheCapacity → CodeCell
  livePages : ℕ

structure Leaf where
  frame : ℕ
  permissions : UInt32
  deriving DecidableEq

structure Process where
  pages : List NativePage
  leaves : ℕ → Option Leaf
  memoryLimit : ℕ
  maxThreads : ℕ
  capabilities : UInt64
  mappingStart : ℕ
  mappingEnd : ℕ
  threadCount : ℕ
  faulted : Bool
  exiting : Bool
  exitStatus : ℤ

def Process.zero : Process := ⟨[], fun _ => none, 0, 0, 0, 0, 0, 0, false, false, 0⟩

def Memory.zero : Memory := ⟨∅, fun _ => .empty, 0⟩

structure State where
  memory : Memory
  process : Process

/-! ### The table of records -/

def Process.lookup (p : Process) (virtualAddress : ℕ) : Option NativePage :=
  Sorted.lookup NativePage.virtualAddress p.pages virtualAddress

def Process.pageAt (p : Process) (virtualAddress : ℕ) : Option NativePage :=
  p.lookup (virtualAddress / pageSize * pageSize)

def Process.recordPage (p : Process) (page : NativePage) : Option Process :=
  if processPageLimit ≤ p.pages.length then none
  else if (p.lookup page.virtualAddress).isSome then none
  else
    some { p with
      pages := Sorted.insertAt p.pages
        (Sorted.lowerBound NativePage.virtualAddress p.pages page.virtualAddress) page }

def Process.removePageRecord (p : Process) (virtualAddress : ℕ) : Option (NativePage × Process) :=
  match p.lookup virtualAddress with
  | none => none
  | some removed =>
    some (removed, { p with
      pages := Sorted.removeAt p.pages
        (Sorted.lowerBound NativePage.virtualAddress p.pages virtualAddress) })

def NativePage.setMapped (virtualAddress : ℕ) (value : Bool) (page : NativePage) : NativePage :=
  if page.virtualAddress = virtualAddress then { page with mapped := value } else page

def Process.setMapped (p : Process) (virtualAddress : ℕ) (value : Bool) : Process :=
  { p with pages := p.pages.map (NativePage.setMapped virtualAddress value) }

/-! ### Frames and shared code -/

def Memory.frameAllocate (m : Memory) : Option ℕ → Option (ℕ × Memory)
  | none => none
  | some frame =>
    if frame ∈ m.frames then none else some (frame, { m with frames := insert frame m.frames })

def Memory.frameRelease (m : Memory) (frame : ℕ) : Option Memory :=
  if frame ∈ m.frames then some { m with frames := m.frames.erase frame } else none

def hashByte (hash : UInt64) (byte : UInt8) : UInt64 := (hash ^^^ byte.toUInt64) * 1099511628211

def sharedCodeHash (key : CodeKey) : Fin sharedCodeCacheCapacity :=
  ⟨((key.digest ++ writeU64 key.pageOffset).foldl hashByte 1469598103934665603).toNat %
    sharedCodeCacheCapacity, Nat.mod_lt _ (by decide)⟩

def Memory.sharedCodeFind (m : Memory) (key : CodeKey) : Probe.Place sharedCodeCacheCapacity :=
  Probe.find sharedCodeHash m.cache key

def Memory.setCell (m : Memory) (slot : Fin sharedCodeCacheCapacity) (cell : CodeCell) : Memory :=
  { m with cache := Function.update m.cache slot cell }

/-- A slot becomes a tombstone. With the last live page gone `reset_shared_code_cache`
clears the tombstones, too. -/
def Memory.bury (m : Memory) (slot : Fin sharedCodeCacheCapacity) : Memory :=
  if m.livePages - 1 = 0 then { m with cache := fun _ => .empty, livePages := 0 }
  else { m.setCell slot .tombstone with livePages := m.livePages - 1 }

def Memory.releasePageFrame (m : Memory) (page : NativePage) : Option Memory :=
  match page.sharedCodeSlot with
  | none => m.frameRelease page.physicalAddress
  | some slot =>
    match m.cache slot with
    | .live key entry =>
      if entry.physicalAddress ≠ page.physicalAddress ∨ entry.references = 0 then none
      else if entry.references - 1 ≠ 0 then
        some (m.setCell slot (.live key { entry with references := entry.references - 1 }))
      else (m.frameRelease entry.physicalAddress).map fun m' => m'.bury slot
    | _ => none

/-! ### Acquiring pages -/

def Process.admits (p : Process) : Bool := decide ((p.pages.length + 1) * pageSize ≤ p.memoryLimit)

def NativePage.ofPrivate (virtualAddress frame : ℕ) (permissions : UInt32) (kind : MappingKind) :
    NativePage :=
  ⟨virtualAddress, frame, none, permissions, kind, false⟩

def NativePage.ofShared (virtualAddress frame : ℕ) (slot : Fin sharedCodeCacheCapacity) :
    NativePage :=
  ⟨virtualAddress, frame, some slot, pagingExecute, .nativeImage, false⟩

/-- A record of a frame that has just been allocated. If it cannot be made, the frame
goes back. -/
def State.recordOrRelease (s : State) (m : Memory) (page : NativePage) (onRecord : Memory) :
    Option ℕ × State :=
  match s.process.recordPage page with
  | none => (none, { s with memory := (m.frameRelease page.physicalAddress).getD m })
  | some p => (some page.physicalAddress, ⟨onRecord, p⟩)

def State.allocatePage (s : State) (virtualAddress : ℕ) (permissions : UInt32) (kind : MappingKind)
    (answer : Option ℕ) : Option ℕ × State :=
  if s.process.admits then
    match s.memory.frameAllocate answer with
    | none => (none, s)
    | some (frame, m) =>
      s.recordOrRelease m (.ofPrivate virtualAddress frame permissions kind) m
  else (none, s)

/-- The largest count a `uint32_t` of references holds. -/
def referencesMax : ℕ := 2 ^ 32 - 1

/-- `acquire_shared_code_page`. `same` says that a cached frame holds the bytes of the
source. -/
def State.acquireSharedCodePage (s : State) (virtualAddress : ℕ) (key : CodeKey) (same : Bool)
    (answer : Option ℕ) : Option ℕ × State :=
  if s.process.admits then
    match s.memory.sharedCodeFind key with
    | .full => (none, s)
    | .found slot =>
      match s.memory.cache slot with
      | .live k entry =>
        if entry.references = referencesMax ∨ same = false then (none, s)
        else
          match s.process.recordPage (.ofShared virtualAddress entry.physicalAddress slot) with
          | none => (none, s)
          | some p =>
            (some entry.physicalAddress, ⟨s.memory.setCell slot
                (.live k { entry with references := entry.references + 1 }), p⟩)
      | _ => (none, s)
    | .vacant slot =>
      if s.memory.livePages = sharedCodeCacheCapacity then (none, s)
      else
        match s.memory.frameAllocate answer with
        | none => (none, s)
        | some (frame, m) =>
          s.recordOrRelease m (.ofShared virtualAddress frame slot)
            { m.setCell slot (.live key ⟨frame, 1⟩) with livePages := m.livePages + 1 }
  else (none, s)

/-! ### The address space -/

def pageWithin (base limit virtualAddress : ℕ) : Bool :=
  decide (base ≤ virtualAddress) && decide (virtualAddress < limit) &&
    decide (virtualAddress % pageSize = 0)

def mappingRequestValid (kind : MappingKind) (virtualAddress : ℕ) (permissions : UInt32) : Bool :=
  match kind with
  | .nativeImage =>
    pageWithin nativeImageBase nativeImageEnd virtualAddress &&
      (permissions == pagingRead || permissions == pagingWrite || permissions == pagingExecute)
  | .nativeAnon | .nativeTls =>
    pageWithin nativeAnonBase nativeAnonEnd virtualAddress && permissions == pagingWrite
  | .nativeSurface =>
    pageWithin nativeSurfaceBase nativeSurfaceEnd virtualAddress && permissions == pagingWrite
  | .nativeStack =>
    pageWithin nativeStackBase nativeStackEnd virtualAddress && permissions == pagingWrite

def unmapRequestValid (kind : MappingKind) (virtualAddress : ℕ) : Bool :=
  mappingRequestValid kind virtualAddress pagingRead ||
    mappingRequestValid kind virtualAddress pagingWrite ||
      mappingRequestValid kind virtualAddress pagingExecute

/-- `paging_process_map_user_page`. `answer` stands for what the paging layer may refuse
for reasons of its own. -/
def Process.mapUserPage (p : Process) (kind : MappingKind) (virtualAddress frame : ℕ)
    (permissions : UInt32) (answer : Bool) : Option Process :=
  if answer && mappingRequestValid kind virtualAddress permissions &&
      (p.leaves virtualAddress).isNone then
    some { p with leaves := Function.update p.leaves virtualAddress (some ⟨frame, permissions⟩) }
  else none

def Process.unmapUserPage (p : Process) (kind : MappingKind) (virtualAddress : ℕ) :
    Option Process :=
  if unmapRequestValid kind virtualAddress && (p.leaves virtualAddress).isSome then
    some { p with leaves := Function.update p.leaves virtualAddress none }
  else none

end OpenRFS.NativeProcess
