import OpenRFS.Heap.TableSpecs

/-!
# The kernel heap

The heap hands out blocks of a window of virtual addresses. The window is backed
by frames page by page, at the time it grows, and a growth that fails part way is
unwound. Whether a frame is available and whether a page can be mapped is not up
to the heap: `Backing` holds the answers of the frame allocator and of the page
tables during one call, by the offset of the page. A call asks each of them at
most once for a page, so that the answers are arbitrary.
-/

namespace OpenRFS.Heap

def heapBase : ℕ := 0x400000000

def heapSize : ℕ := 16 * 1024 * 1024

def pagingPageSize : ℕ := 4096

inductive Status
  | ok | nullArgument | alreadyInitialized | notInitialized | interruptsEnabled | pagingInactive
  | guardMapped | zeroSize | tooLarge | outOfMemory | outOfBlocks | mappingFailure | badPointer
  | doubleFree | validationFailure
  deriving DecidableEq, Repr

structure State where
  blocks : List Block
  baseAddress : ℕ
  size : ℕ
  committedBytes : ℕ
  allocatedBytes : ℕ
  blockCount : ℕ
  liveAllocations : ℕ
  mappedPages : ℕ
  active : Bool
  deriving DecidableEq, Repr

/-- What `frame_allocate`, `paging_map`, `paging_translate` and `paging_unmap`
answer during one call for the page at an offset of the window. -/
structure Backing where
  frameAllocate : ℕ → Bool
  pagingMap : ℕ → Bool
  pagingTranslate : ℕ → Bool
  pagingUnmap : ℕ → Bool

/-- What `heap_initialize` finds: whether paging is active and interrupts are
enabled, and whether the two guard pages are unmapped. -/
structure Platform where
  pagingActive : Bool
  interruptsEnabled : Bool
  guardBelowNotMapped : Bool
  guardAboveNotMapped : Bool

/-- The page offsets a loop from one offset up to another one goes through. -/
def pageOffsets (start stop : ℕ) : List ℕ :=
  List.range' start ((stop - start + pagingPageSize - 1) / pagingPageSize) pagingPageSize

/-- `release_pages`: what remains of the count of mapped pages. A page whose
mapping stays keeps its frame. -/
def releasePages (backing : Backing) (start stop mappedPages : ℕ) : ℕ :=
  (pageOffsets start stop).foldl (fun mapped offset =>
    if backing.pagingTranslate offset && backing.pagingUnmap offset then mapped - 1 else mapped)
    mappedPages

def commitPagesFrom (backing : Backing) (start : ℕ) : List ℕ → ℕ → Status × ℕ
  | [], mapped => (.ok, mapped)
  | offset :: rest, mapped =>
    if !backing.frameAllocate offset then
      (.outOfMemory, releasePages backing start offset mapped)
    else if !backing.pagingMap offset then
      (.mappingFailure, releasePages backing start offset mapped)
    else commitPagesFrom backing start rest (mapped + 1)

def commitPages (backing : Backing) (start stop mappedPages : ℕ) : Status × ℕ :=
  commitPagesFrom backing start (pageOffsets start stop) mappedPages

/-- `grow_for`: the committed range is extended until a block of the size exists.
A free block at the end is extended; otherwise a new one is appended. -/
def growFor (backing : Backing) (s : State) (size : ℕ) : Except Status ℕ × State :=
  let last := s.blocks.getLast?.filter fun block => !block.used
  let trailing := last.elim 0 Block.size
  let growth := alignUp (size - trailing) pagingPageSize
  if heapSize - s.committedBytes < growth then (.error .outOfMemory, s)
  else if last.isNone && s.blocks.length == heapMaxBlocks then (.error .outOfBlocks, s)
  else
    let (status, mapped) :=
      commitPages backing s.committedBytes (s.committedBytes + growth) s.mappedPages
    let s := { s with mappedPages := mapped }
    if status ≠ .ok then (.error status, s)
    else
      let blocks := if last.isSome then
          s.blocks.modify (s.blocks.length - 1) fun block =>
            { block with size := block.size + growth }
        else s.blocks ++ [{ offset := s.committedBytes, size := growth, used := false }]
      (.ok (blocks.length - 1), { s with
        blocks := blocks
        committedBytes := s.committedBytes + growth })

def refreshState (s : State) : State :=
  { s with
    blockCount := s.blocks.length
    allocatedBytes := ((s.blocks.filter (·.used)).map Block.size).sum
    liveAllocations := (s.blocks.filter (·.used)).length }

def heapInitialize (platform : Platform) (s : State) : Status × State :=
  if s.active then (.alreadyInitialized, s)
  else if !platform.pagingActive then (.pagingInactive, s)
  else if platform.interruptsEnabled then (.interruptsEnabled, s)
  else if !platform.guardBelowNotMapped || !platform.guardAboveNotMapped then (.guardMapped, s)
  else
    (.ok, refreshState { s with
      blocks := []
      baseAddress := heapBase
      size := heapSize
      committedBytes := 0
      mappedPages := 0
      active := true })

def allocateAt (s : State) (index requested : ℕ) : Except Status UInt64 × State :=
  match splitBlock s.blocks index requested with
  | none => (.error .outOfBlocks, s)
  | some blocks =>
    let s := refreshState { s with blocks := blocks }
    (.ok (UInt64.ofNat (heapBase + (blocks[index]?.map Block.offset).getD 0)), s)

/-- `heap_allocate`: its status, or the pointer it returns with the status `ok`. -/
def heapAllocate (backing : Backing) (s : State) (size : UInt64) : Except Status UInt64 × State :=
  if !s.active then (.error .notInitialized, s)
  else if size = 0 then (.error .zeroSize, s)
  else if heapSize < size.toNat then (.error .tooLarge, s)
  else
    let requested := alignUp size.toNat heapAlignment
    if heapSize < requested then (.error .tooLarge, s)
    else
      match findFit s.blocks requested with
      | some index => allocateAt s index requested
      | none =>
        match growFor backing s requested with
        | (.error status, s) => (.error status, s)
        | (.ok index, s) => allocateAt s index requested

def heapFree (s : State) (pointer : UInt64) : Status × State :=
  if !s.active then (.notInitialized, s)
  else if pointer = 0 then (.nullArgument, s)
  else
    let address := pointer.toNat
    if address < heapBase ∨ heapBase + s.committedBytes ≤ address then (.badPointer, s)
    else
      match blockIndexForOffset s.blocks (address - heapBase) with
      | none => (.badPointer, s)
      | some index =>
        match s.blocks[index]? with
        | none => (.badPointer, s)
        | some block =>
          if !block.used then (.doubleFree, s)
          else (.ok, refreshState { s with
            blocks := mergeFreeNeighbours (s.blocks.set index { block with used := false })
              index })

end OpenRFS.Heap
