import OpenRFS.Region.Coalesced

/-!
# The block table of the kernel heap

The heap's window is divided into blocks, listed in ascending order in a table of
fixed capacity; here the table is the list of the blocks in use. An allocation
takes the front of a free block (`splitBlock`), a release gives a block back and
absorbs the free blocks next to it (`mergeFreeNeighbours`). `validateTable` is the
source's own check of a table, and `TableValid` says what it checks.

Every number is at most the size of the window, which is far below the range of
the source's 64-bit integers, so that natural numbers are faithful.
-/

namespace OpenRFS.Heap

open Region

def heapAlignment : ℕ := 16

def heapMaxBlocks : ℕ := 256

structure Block where
  offset : ℕ
  size : ℕ
  used : Bool
  deriving DecidableEq, Repr

def alignUp (value alignment : ℕ) : ℕ := (value + alignment - 1) / alignment * alignment

def findFit (table : List Block) (size : ℕ) : Option ℕ :=
  table.findIdx? fun block => !block.used && decide (size ≤ block.size)

def blockIndexForOffset (table : List Block) (offset : ℕ) : Option ℕ :=
  table.findIdx? fun block => block.offset == offset

def removeBlock (table : List Block) (index : ℕ) : List Block := table.eraseIdx index

/-- `split_block`: the front of a free block becomes used. The remainder, if there
is one, becomes a block of its own, for which the table may have no room. -/
def splitBlock (table : List Block) (index size : ℕ) : Option (List Block) :=
  match table[index]? with
  | none => none
  | some block =>
    let remainder := block.size - size
    if heapAlignment ≤ remainder then
      if table.length = heapMaxBlocks then none
      else some (table.take index ++ { block with size := size, used := true } ::
        { offset := block.offset + size, size := remainder, used := false } ::
          table.drop (index + 1))
    else some (table.set index { block with used := true })

/-- The first part of `merge_free_neighbours`: a free block behind is absorbed. -/
def absorbNext (table : List Block) (index : ℕ) : List Block :=
  match table[index]?, table[index + 1]? with
  | some block, some next =>
    if next.used then table
    else removeBlock (table.set index { block with size := block.size + next.size })
      (index + 1)
  | _, _ => table

/-- The second part of `merge_free_neighbours`: a free block in front absorbs. -/
def absorbPrevious (table : List Block) : ℕ → List Block
  | 0 => table
  | index + 1 =>
    match table[index]?, table[index + 1]? with
    | some previous, some block =>
      if previous.used then table
      else removeBlock (table.set index { previous with size := previous.size + block.size })
        (index + 1)
    | _, _ => table

/-- `merge_free_neighbours`. Merging forwards first keeps the index valid. -/
def mergeFreeNeighbours (table : List Block) (index : ℕ) : List Block :=
  absorbPrevious (absorbNext table index) index

/-- The loop of `validate_table`, with the offset it expects and the block before. -/
def validateTableFrom (committed : ℕ) : List Block → ℕ → Option Block → Bool
  | [], expectedOffset, _ => expectedOffset == committed
  | block :: table, expectedOffset, previous =>
    if block.offset != expectedOffset || block.size == 0 ||
        block.size % heapAlignment != 0 then false
    else if previous.any (fun p => !p.used) && !block.used then false
    else validateTableFrom committed table (expectedOffset + block.size) (some block)

def validateTable (table : List Block) (committed : ℕ) : Bool :=
  if heapMaxBlocks < table.length then false
  else if table.length = 0 then committed == 0
  else validateTableFrom committed table 0 none

/-- The blocks of a table tile the committed range in aligned sizes. -/
structure Laid (table : List Block) (committed : ℕ) : Prop where
  tiles : Tiles Block.offset Block.size 0 table committed
  aligned : ∀ block ∈ table, heapAlignment ∣ block.size

structure TableValid (table : List Block) (committed : ℕ) : Prop extends
    Laid table committed where
  coalesced : table.IsChain (Spaced Block.used)
  bounded : table.length ≤ heapMaxBlocks

end OpenRFS.Heap
