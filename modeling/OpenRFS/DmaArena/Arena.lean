import OpenRFS.Region.Coalesced

/-!
# The DMA arena

An arena hands out parts of one contiguous allocation that a device may reach. Its
blocks stand in a table of fixed capacity in ascending order, here the list of the
blocks in use. An allocation takes the first free block in which an aligned start
leaves enough room, and cuts it into up to three blocks; a release gives a block
back and joins it with the free blocks next to it.

Addresses and sizes are natural numbers. The backing allocation ends below `2 ^ 64`,
so that only `roundUp` can leave the range of the source's integers, and it refuses
to.
-/

namespace OpenRFS.DmaArena

def maxBlocks : ℕ := 1024

def minimumAlignment : ℕ := 16

def pageSize : ℕ := 4096

/-- `enum dma_arena_status`, without the values that are never returned. -/
inductive Status
  | ok | nullArgument | alreadyActive | notActive | badSize | dmaFailure | badPointer | doubleFree
  | corrupt
  deriving DecidableEq, Repr

structure Block where
  offset : ℕ
  size : ℕ
  used : Bool
  deriving DecidableEq, Repr

structure Arena where
  base : ℕ
  size : ℕ
  allocatedBytes : ℕ
  peakBytes : ℕ
  failedAllocations : ℕ
  liveAllocations : ℕ
  blocks : List Block
  active : Bool
  deriving DecidableEq, Repr

abbrev Memory := ℕ → UInt8

/-- What `dma_allocate` returns for a number of pages: memory that neither starts
at the null address nor reaches the end of the address space. -/
structure DmaAllocation (pageCount : ℕ) where
  cpuAddress : ℕ
  notNull : 0 < cpuAddress
  within : cpuAddress + pageCount * pageSize < 2 ^ 64

/-- What the DMA foundation answers while an arena is created. -/
structure Foundation where
  dmaAllocate : (pageCount : ℕ) → Option (DmaAllocation pageCount)
  dmaMarkInitialized : Bool
  dmaTransferToDevice : Bool

def zeroBytes (memory : Memory) (pointer length : ℕ) : Memory := fun address =>
  if pointer ≤ address ∧ address < pointer + length then 0 else memory address

def powerOfTwo (value : ℕ) : Bool := value != 0 && value &&& (value - 1) == 0

def roundUp (value alignment : ℕ) : Option ℕ :=
  if 2 ^ 64 - 1 - (alignment - 1) < value then none
  else some ((value + (alignment - 1)) / alignment * alignment)

def viewReset (arena : Arena) : Arena :=
  { arena with
    blocks := [{ offset := 0, size := arena.size, used := false }]
    allocatedBytes := 0
    peakBytes := 0
    failedAllocations := 0
    liveAllocations := 0 }

def insertBlock (blocks : List Block) (index : ℕ) (block : Block) : Bool × List Block :=
  if maxBlocks ≤ blocks.length ∨ blocks.length < index then (false, blocks)
  else (true, blocks.insertIdx index block)

def removeBlock (blocks : List Block) (index : ℕ) : List Block := blocks.eraseIdx index

/-- The test of one block in the loop of `dma_arena_allocate`: the space in front of
the first aligned address, if the block is free and has room behind it. -/
def padOf (base rounded alignment : ℕ) (block : Block) : Option ℕ :=
  if block.used then none
  else
    match roundUp (base + block.offset) alignment with
    | none => none
    | some aligned =>
      let pad := aligned - (base + block.offset)
      if block.size < pad ∨ block.size - pad < rounded then none else some pad

/-- The loop of `dma_arena_allocate` up to the first block that fits: its index, the
block and the space in front. -/
def findFit (base rounded alignment : ℕ) : List Block → Option (ℕ × Block × ℕ)
  | [] => none
  | block :: blocks =>
    match padOf base rounded alignment block with
    | some pad => some (0, block, pad)
    | none => (findFit base rounded alignment blocks).map fun found => (found.1 + 1, found.2)

/-- The edit of `dma_arena_allocate`: the block that was found is shrunk to the space
in front, or reused where there is none, and what is left behind becomes a block of
its own. The first component says whether both insertions had room. -/
def splitFound (blocks : List Block) (index : ℕ) (block : Block) (pad rounded : ℕ) :
    Bool × List Block :=
  let usedOffset := block.offset + pad
  let tailOffset := usedOffset + rounded
  let tail := block.size - pad - rounded
  let (inserted, blocks) :=
    if pad ≠ 0 then
      insertBlock (blocks.set index { block with size := pad }) (index + 1)
        { offset := usedOffset, size := rounded, used := true }
    else (true, blocks.set index { block with size := rounded, used := true })
  let index := if pad ≠ 0 then index + 1 else index
  if !inserted then (false, blocks)
  else if tail ≠ 0 then
    insertBlock blocks (index + 1) { offset := tailOffset, size := tail, used := false }
  else (true, blocks)

def countFailure (arena : Arena) : Arena :=
  { arena with failedAllocations := arena.failedAllocations + 1 }

def allocateAt (arena : Arena) (memory : Memory) (index : ℕ) (block : Block) (pad rounded : ℕ) :
    Option ℕ × Arena × Memory :=
  let tail := block.size - pad - rounded
  let needed := (if pad ≠ 0 then 1 else 0) + (if tail ≠ 0 then 1 else 0)
  if maxBlocks < arena.blocks.length + needed then (none, countFailure arena, memory)
  else
    match splitFound arena.blocks index block pad rounded with
    | (false, blocks) => (none, { arena with blocks := blocks }, memory)
    | (true, blocks) =>
      let pointer := arena.base + (block.offset + pad)
      (some pointer, { arena with
        blocks := blocks
        allocatedBytes := arena.allocatedBytes + rounded
        peakBytes := max arena.peakBytes (arena.allocatedBytes + rounded)
        liveAllocations := arena.liveAllocations + 1 }, zeroBytes memory pointer rounded)

def raiseAlignment (alignment : ℕ) : ℕ :=
  if alignment < minimumAlignment then minimumAlignment else alignment

/-- `dma_arena_allocate`; no pointer stands for `NULL`. -/
def dmaArenaAllocate (arena : Arena) (memory : Memory) (size alignment : ℕ) :
    Option ℕ × Arena × Memory :=
  if !arena.active || size == 0 || decide (arena.size < size) then (none, arena, memory)
  else if !powerOfTwo (raiseAlignment alignment) then (none, countFailure arena, memory)
  else
    match roundUp size minimumAlignment with
    | none => (none, countFailure arena, memory)
    | some rounded =>
      match findFit arena.base rounded (raiseAlignment alignment) arena.blocks with
      | none => (none, countFailure arena, memory)
      | some (index, block, pad) => allocateAt arena memory index block pad rounded

/-- The loop of `dma_arena_free` up to the block at an offset. The table ascends, so
the loop stops at the first block behind the offset. -/
def findOffset (offset : ℕ) : List Block → Option (ℕ × Block)
  | [] => none
  | block :: blocks =>
    if block.offset ≠ offset then
      if offset < block.offset then none
      else (findOffset offset blocks).map fun found => (found.1 + 1, found.2)
    else some (0, block)

/-- `dma_arena_free` joins the block with the one that follows it, if that is free. -/
def joinNext (blocks : List Block) (index : ℕ) : List Block :=
  match blocks[index]?, blocks[index + 1]? with
  | some block, some next =>
    if next.used then blocks
    else removeBlock (blocks.set index { block with size := block.size + next.size })
      (index + 1)
  | _, _ => blocks

/-- `dma_arena_free` joins the block with the one before it, if that is free. -/
def joinPrevious (blocks : List Block) : ℕ → List Block
  | 0 => blocks
  | index + 1 =>
    match blocks[index]?, blocks[index + 1]? with
    | some previous, some block =>
      if previous.used then blocks
      else removeBlock
        (blocks.set index { previous with size := previous.size + block.size }) (index + 1)
    | _, _ => blocks

def dmaArenaFree (arena : Arena) (pointer : ℕ) : Status × Arena :=
  if pointer = 0 then (.nullArgument, arena)
  else if !arena.active then (.notActive, arena)
  else if pointer < arena.base ∨ arena.base + arena.size ≤ pointer then (.badPointer, arena)
  else
    match findOffset (pointer - arena.base) arena.blocks with
    | none => (.badPointer, arena)
    | some (index, block) =>
      if !block.used then (.doubleFree, arena)
      else
        let freed := arena.blocks.set index { block with used := false }
        (.ok, { arena with
          blocks := joinPrevious (joinNext freed index) index
          allocatedBytes := arena.allocatedBytes - block.size
          liveAllocations := arena.liveAllocations - 1 })

def allocationSizeIn (offset : ℕ) : List Block → ℕ
  | [] => 0
  | block :: blocks =>
    if block.offset = offset then if block.used then block.size else 0
    else if offset < block.offset then 0
    else allocationSizeIn offset blocks

/-- `dma_arena_allocation_size`: the size of the live block at a pointer, or zero. -/
def dmaArenaAllocationSize (arena : Arena) (pointer : ℕ) : ℕ :=
  if !arena.active || pointer == 0 || decide (pointer < arena.base) ||
      decide (arena.base + arena.size ≤ pointer) then 0
  else allocationSizeIn (pointer - arena.base) arena.blocks

/-- The loop of `dma_arena_verify`: the offset it expects, the block before, and the
bytes and blocks in use so far. -/
def verifyFrom (arena : Arena) :
    List Block → ℕ → Option Block → ℕ → ℕ → Status
  | [], expectedOffset, _, usedBytes, usedBlocks =>
    if expectedOffset ≠ arena.size ∨ usedBytes ≠ arena.allocatedBytes ∨
        usedBlocks ≠ arena.liveAllocations then .corrupt
    else .ok
  | block :: blocks, expectedOffset, previous, usedBytes, usedBlocks =>
    if block.offset ≠ expectedOffset ∨ block.size = 0 ∨
        arena.size - block.offset < block.size then .corrupt
    else if previous.any (fun p => !p.used) && !block.used then .corrupt
    else verifyFrom arena blocks (expectedOffset + block.size) (some block)
      (if block.used then usedBytes + block.size else usedBytes)
      (if block.used then usedBlocks + 1 else usedBlocks)

def dmaArenaVerify (arena : Arena) : Status :=
  if !arena.active then .notActive
  else if arena.blocks.length = 0 ∨ maxBlocks < arena.blocks.length then .corrupt
  else verifyFrom arena arena.blocks 0 none 0 0

def dmaArenaCreate (foundation : Foundation) (arena : Arena) (memory : Memory) (pageCount : ℕ) :
    Status × Arena × Memory :=
  if arena.active then (.alreadyActive, arena, memory)
  else if pageCount = 0 ∨ (2 ^ 64 - 1) / pageSize < pageCount then (.badSize, arena, memory)
  else
    match foundation.dmaAllocate pageCount with
    | none => (.dmaFailure, arena, memory)
    | some allocation =>
      let size := pageCount * pageSize
      let memory := zeroBytes memory allocation.cpuAddress size
      if !foundation.dmaMarkInitialized || !foundation.dmaTransferToDevice then
        (.dmaFailure, { arena with base := 0, size := 0 }, memory)
      else (.ok, { viewReset { arena with base := allocation.cpuAddress, size := size } with
        active := true }, memory)

end OpenRFS.DmaArena
