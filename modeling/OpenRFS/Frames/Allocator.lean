import OpenRFS.Region.Count

/-!
# The frame allocator

Physical memory below 4 GiB is handed out in frames of one page. Two bitmaps say
which frames may be handed out at all and which are in use; a bitmap is read here
as a function of the frame. Runs of frames are handed out as contiguous
allocations, each remembered in a record of a table of fixed capacity. The counters
that the allocator publishes are adjusted by every call, and recomputed from the
bitmaps when a range is reserved.

Arguments are 64-bit numbers as in the source; frames and counters are far below
that range and are natural numbers.
-/

namespace OpenRFS.Frames

def pageSize : ℕ := 4096

def earlyPhysicalLimit : ℕ := 0x100000000

def lowMemoryReservation : ℕ := 0x100000

def frameCount : ℕ := earlyPhysicalLimit / pageSize

def isaDmaFrameLimit : ℕ := 0x1000000 / pageSize

def contiguousAllocationCapacity : ℕ := 32

def uint64Max : ℕ := 2 ^ 64 - 1

inductive Status
  | ok | nullArgument | notInitialized | badMemoryMap | rangeOverflow | rangeOutsideLimit
  | outOfMemory | unalignedAddress | frameNotAllocatable | frameInUse | doubleFree
  | zeroPageCount | badAlignment | alignmentUnsatisfiable | addressBoundUnsatisfied
  | tooManyContiguousAllocations | badContiguousAllocation
  deriving DecidableEq, Repr

abbrev Bitmap := ℕ → Bool

def bitmapSet (bitmap : Bitmap) (frame : ℕ) (value : Bool) : Bitmap :=
  fun k => if k = frame then value else bitmap k

def bitmapSetRange (bitmap : Bitmap) (first past : ℕ) (value : Bool) : Bitmap :=
  (List.range' first (past - first)).foldl (fun bits frame => bitmapSet bits frame value) bitmap

structure Stats where
  addressableFrames : ℕ
  allocatableFrames : ℕ
  freeFrames : ℕ
  allocatedFrames : ℕ
  reservedFrames : ℕ
  highestAllocatableAddress : ℕ
  deriving DecidableEq, Repr

structure ContiguousRecord where
  physicalBase : UInt64
  pageCount : UInt64
  identifier : UInt64
  active : Bool
  deriving DecidableEq, Repr

structure ContiguousRequest where
  pageCount : UInt64
  alignment : UInt64
  maximumPhysicalAddress : UInt64
  deriving DecidableEq, Repr

structure ContiguousAllocation where
  physicalBase : UInt64
  pageCount : UInt64
  alignment : UInt64
  maximumPhysicalAddress : UInt64
  identifier : UInt64
  active : Bool
  deriving DecidableEq, Repr

structure State where
  eligible : Bitmap
  used : Bitmap
  stats : Stats
  nextSearchIndex : ℕ
  initialized : Bool
  records : List ContiguousRecord
  nextIdentifier : UInt64

structure BootMemoryRegion where
  baseAddress : UInt64
  length : UInt64
  type : UInt32

/-- What the initialization reads: the memory map, the place of the boot
information, and the place of the kernel that the linker gives. -/
structure BootInformation where
  memoryMap : List BootMemoryRegion
  informationStart : UInt64
  informationEnd : UInt64
  kernelStart : UInt64
  kernelEnd : UInt64

def memoryAvailable : UInt32 := 1

/-! ### Ranges of frames -/

def availableFrameBounds (base length : UInt64) : Except Status (ℕ × ℕ) :=
  let stop := base.toNat + length.toNat
  if uint64Max < stop then .error .rangeOverflow
  else if length = 0 ∨ earlyPhysicalLimit ≤ base.toNat then .ok (0, 0)
  else
    let clippedEnd := min stop earlyPhysicalLimit
    let alignedBase := (base.toNat + pageSize - 1) / pageSize * pageSize
    if clippedEnd ≤ alignedBase then .ok (0, 0)
    else .ok (alignedBase / pageSize, clippedEnd / pageSize)

def coveringFrameBounds (base length : UInt64) : Except Status (ℕ × ℕ) :=
  let stop := base.toNat + length.toNat
  if uint64Max < stop then .error .rangeOverflow
  else if length = 0 then .ok (0, 0)
  else if earlyPhysicalLimit ≤ base.toNat then .error .rangeOutsideLimit
  else
    let clippedEnd := min stop earlyPhysicalLimit
    let past := clippedEnd / pageSize
    .ok (base.toNat / pageSize, if clippedEnd % pageSize ≠ 0 then past + 1 else past)

def markAvailableFrames (s : State) (first past : ℕ) : State :=
  { s with
    eligible := bitmapSetRange s.eligible first past true
    used := bitmapSetRange s.used first past false }

def markReservedFrames (s : State) (first past : ℕ) : State :=
  { s with
    eligible := bitmapSetRange s.eligible first past false
    used := bitmapSetRange s.used first past true }

def reserveInternal (s : State) (base length : UInt64) : Except Status State := do
  let (first, past) ← coveringFrameBounds base length
  return markReservedFrames s first past

/-! ### The counters -/

def countFrame (eligible used : Bitmap) (stats : Stats) (frame : ℕ) : Stats :=
  if !eligible frame then { stats with reservedFrames := stats.reservedFrames + 1 }
  else
    let stats := { stats with
      allocatableFrames := stats.allocatableFrames + 1
      highestAllocatableAddress := (frame + 1) * pageSize }
    if used frame then { stats with allocatedFrames := stats.allocatedFrames + 1 }
    else { stats with freeFrames := stats.freeFrames + 1 }

/-- What `recompute_stats` computes from the bitmaps. It is a loop over a million
frames, which a proof has no business to unroll. -/
@[irreducible] def recount (eligible used : Bitmap) : Stats :=
  (List.range frameCount).foldl (countFrame eligible used)
    { addressableFrames := frameCount, allocatableFrames := 0, freeFrames := 0,
      allocatedFrames := 0, reservedFrames := 0, highestAllocatableAddress := 0 }

def recomputeStats (s : State) : State := { s with stats := recount s.eligible s.used }

/-! ### Initialization -/

def applyRegion (availablePass : Bool) (s : State) (region : BootMemoryRegion) :
    Except Status State :=
  let available := region.type == memoryAvailable
  if availablePass != available then .ok s
  else if available then do
    let (first, past) ← availableFrameBounds region.baseAddress region.length
    return markAvailableFrames s first past
  else
    match coveringFrameBounds region.baseAddress region.length with
    | .error .rangeOutsideLimit => .ok s
    | .error status => .error status
    | .ok (first, past) => .ok (markReservedFrames s first past)

def applyMemoryMap (s : State) (memoryMap : List BootMemoryRegion) : Except Status State := do
  let s ← memoryMap.foldlM (applyRegion true) s
  memoryMap.foldlM (applyRegion false) s

def resetState (s : State) : State :=
  { s with
    initialized := false
    nextSearchIndex := 0
    nextIdentifier := 1
    eligible := fun _ => false
    used := fun _ => true
    records := List.replicate contiguousAllocationCapacity
      { physicalBase := 0, pageCount := 0, identifier := 0, active := false } }

/-- The ranges `frame_allocator_initialize` sets up, before it counts them. -/
def applyBootInformation (s : State) (boot : BootInformation) : Except Status State := do
  let s ← applyMemoryMap (resetState s) boot.memoryMap
  let s ← reserveInternal s 0 (UInt64.ofNat lowMemoryReservation)
  if boot.kernelEnd < boot.kernelStart then .error .rangeOverflow
  else do
    let s ← reserveInternal s boot.kernelStart (boot.kernelEnd - boot.kernelStart)
    reserveInternal s boot.informationStart (boot.informationEnd - boot.informationStart)

/-- `frame_allocator_initialize`, for a boot information with a memory map. A
status other than `ok` leaves the allocator uninitialized. -/
def frameAllocatorInitialize (s : State) (boot : BootInformation) : Except Status State := do
  let s ← applyBootInformation s boot
  let s := recomputeStats s
  if s.stats.freeFrames = 0 then .error .outOfMemory
  else
    return { s with
      nextSearchIndex := lowMemoryReservation / pageSize
      initialized := true }

/-! ### Calls -/

def frameInContiguousAllocation (records : List ContiguousRecord) (frame : ℕ) : Bool :=
  records.any fun record =>
    let first := record.physicalBase.toNat / pageSize
    record.active && decide (first ≤ frame) && decide (frame - first < record.pageCount.toNat)

def available (s : State) (frame : ℕ) : Bool := s.eligible frame && !s.used frame

def searchPass (s : State) (first past : ℕ) : List ℕ :=
  let count := past - first
  let start := if first ≤ s.nextSearchIndex ∧ s.nextSearchIndex < past then s.nextSearchIndex
    else first
  (List.range count).map fun step => first + (start - first + step) % count

/-- `frame_allocate`: its status, or the address of the frame. -/
def frameAllocate (s : State) : Except Status UInt64 × State :=
  if !s.initialized then (.error .notInitialized, s)
  else if s.stats.freeFrames = 0 then (.error .outOfMemory, s)
  else
    match (searchPass s isaDmaFrameLimit frameCount ++ searchPass s 0 isaDmaFrameLimit).find?
        (available s) with
    | none => (.error .outOfMemory, s)
    | some frame =>
      (.ok (UInt64.ofNat (frame * pageSize)), { s with
        used := bitmapSet s.used frame true
        stats := { s.stats with
          freeFrames := s.stats.freeFrames - 1
          allocatedFrames := s.stats.allocatedFrames + 1 }
        nextSearchIndex := if frame + 1 = frameCount then isaDmaFrameLimit else frame + 1 })

def frameRelease (s : State) (physicalAddress : UInt64) : Status × State :=
  if !s.initialized then (.notInitialized, s)
  else if physicalAddress.toNat % pageSize ≠ 0 then (.unalignedAddress, s)
  else if earlyPhysicalLimit ≤ physicalAddress.toNat then (.rangeOutsideLimit, s)
  else
    let frame := physicalAddress.toNat / pageSize
    if !s.eligible frame then (.frameNotAllocatable, s)
    else if !s.used frame then (.doubleFree, s)
    else if frameInContiguousAllocation s.records frame then (.frameInUse, s)
    else
      (.ok, { s with
        used := bitmapSet s.used frame false
        stats := { s.stats with
          freeFrames := s.stats.freeFrames + 1
          allocatedFrames := s.stats.allocatedFrames - 1 }
        nextSearchIndex := if frame < s.nextSearchIndex then frame else s.nextSearchIndex })

def powerOfTwo (value : UInt64) : Bool := value != 0 && (value &&& (value - 1)) == 0

/-- The checks of `frame_allocate_contiguous` on its request. They end with the
first frame behind the addresses that the request admits. -/
def checkRequest (request : ContiguousRequest) : Except Status ℕ :=
  let pageCount := request.pageCount.toNat
  let maximum := request.maximumPhysicalAddress.toNat
  if pageCount = 0 then .error .zeroPageCount
  else if !powerOfTwo request.alignment || decide (request.alignment.toNat < pageSize) ||
      request.alignment.toNat % pageSize != 0 then .error .badAlignment
  else if earlyPhysicalLimit < request.alignment.toNat ∨
      maximum + (if maximum ≠ uint64Max then 1 else 0) < request.alignment.toNat then
    .error .alignmentUnsatisfiable
  else if uint64Max / pageSize < pageCount then .error .rangeOverflow
  else if maximum < pageCount * pageSize - 1 then .error .addressBoundUnsatisfied
  else
    let boundEnd := min (if maximum = uint64Max then uint64Max else maximum + 1) earlyPhysicalLimit
    if boundEnd / pageSize < pageCount then .error .addressBoundUnsatisfied
    else .ok (boundEnd / pageSize)

/-- Whether the run that starts at a frame can be handed out for a request. -/
def runAvailable (s : State) (request : ContiguousRequest) (first : ℕ) : Bool :=
  ((first * pageSize) &&& (request.alignment.toNat - 1)) == 0 &&
    (List.range request.pageCount.toNat).all fun offset => available s (first + offset)

/-- `frame_allocate_contiguous`: its status, or the allocation it fills in. -/
def frameAllocateContiguous (s : State) (request : ContiguousRequest) :
    Except Status ContiguousAllocation × State :=
  if !s.initialized then (.error .notInitialized, s)
  else
    match checkRequest request with
    | .error status => (.error status, s)
    | .ok maximumPastFrame =>
      match s.records.findIdx? fun record => !record.active with
      | none => (.error .tooManyContiguousAllocations, s)
      | some index =>
        match (List.range (maximumPastFrame - request.pageCount.toNat + 1)).find?
            (runAvailable s request) with
        | none => (.error .outOfMemory, s)
        | some first =>
          let past := first + request.pageCount.toNat
          let base := UInt64.ofNat (first * pageSize)
          (.ok { physicalBase := base
                 pageCount := request.pageCount
                 alignment := request.alignment
                 maximumPhysicalAddress := request.maximumPhysicalAddress
                 identifier := s.nextIdentifier
                 active := true },
            { s with
              used := bitmapSetRange s.used first past true
              records := s.records.set index
                { physicalBase := base
                  pageCount := request.pageCount
                  identifier := s.nextIdentifier
                  active := true }
              nextIdentifier :=
                if s.nextIdentifier + 1 = 0 then 1 else s.nextIdentifier + 1
              stats := { s.stats with
                freeFrames := s.stats.freeFrames - request.pageCount.toNat
                allocatedFrames := s.stats.allocatedFrames + request.pageCount.toNat }
              nextSearchIndex := if frameCount ≤ past then 0 else past })

/-- `frame_release_contiguous`. The source clears the flag `active` of the caller's
allocation when it succeeds; that is left to the caller here. -/
def frameReleaseContiguous (s : State) (allocation : ContiguousAllocation) : Status × State :=
  if !s.initialized then (.notInitialized, s)
  else if !allocation.active then (.doubleFree, s)
  else
    match s.records.findIdx? fun record =>
        record.active && record.identifier == allocation.identifier with
    | none => (.doubleFree, s)
    | some index =>
      match s.records[index]? with
      | none => (.doubleFree, s)
      | some record =>
        if record.physicalBase ≠ allocation.physicalBase ∨
            record.pageCount ≠ allocation.pageCount then (.badContiguousAllocation, s)
        else
          let first := record.physicalBase.toNat / pageSize
          let count := record.pageCount.toNat
          if !(List.range count).all fun offset =>
              s.eligible (first + offset) && s.used (first + offset) then
            (.badContiguousAllocation, s)
          else
            (.ok, { s with
              used := bitmapSetRange s.used first (first + count) false
              stats := { s.stats with
                freeFrames := s.stats.freeFrames + count
                allocatedFrames := s.stats.allocatedFrames - count }
              nextSearchIndex := if first < s.nextSearchIndex then first
                else s.nextSearchIndex
              records := s.records.set index { record with active := false } })

def frameReserveRange (s : State) (base length : UInt64) : Status × State :=
  if !s.initialized then (.notInitialized, s)
  else
    match coveringFrameBounds base length with
    | .error status => (status, s)
    | .ok (first, past) =>
      if (List.range' first (past - first)).any fun frame => s.eligible frame && s.used frame then
        (.frameInUse, s)
      else (.ok, recomputeStats (markReservedFrames s first past))

end OpenRFS.Frames
