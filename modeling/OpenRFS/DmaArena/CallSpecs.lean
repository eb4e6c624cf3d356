import OpenRFS.DmaArena.Edits

/-!
# What the calls of the arena do

`Valid` is what `dma_arena_verify` checks, with what is known of the backing
allocation. A call that returns a pointer adds one block in use and zeroes it, a
release that succeeds takes one away, and a call that is refused leaves everything
but the count of failures as it was.
-/

namespace OpenRFS.DmaArena

open Region List

def usedBytes (blocks : List Block) : ℕ := ((usedBlocks blocks).map Block.size).sum

structure Valid (arena : Arena) : Prop where
  active : arena.active = true
  notNull : 0 < arena.base
  positive : 0 < arena.size
  laid : Laid arena.blocks arena.size
  bounded : arena.blocks.length ≤ maxBlocks
  bytes : arena.allocatedBytes = usedBytes arena.blocks
  count : arena.liveAllocations = (usedBlocks arena.blocks).length

/-- The bytes and the number of the blocks in use, after one more is in use. -/
theorem usedBytes_insert {blocks blocks' xs ys : List Block} {block : Block}
    (hold : usedBlocks blocks = xs ++ ys) (hnew : usedBlocks blocks' = xs ++ block :: ys) :
    usedBytes blocks' = usedBytes blocks + block.size ∧
      (usedBlocks blocks').length = (usedBlocks blocks).length + 1 := by
  simp only [usedBytes, hold, hnew, map_append, map_cons, sum_append, sum_cons,
    length_append, length_cons]
  omega

/-! ### Verification -/

variable {arena : Arena}

theorem verifyFrom_eq_ok {blocks : List Block} {expected bytes count : ℕ} {previous : Option Block}
    (htiles : Tiles Block.offset Block.size expected blocks arena.size)
    (hspaced : blocks.IsChain (Spaced Block.used))
    (hprevious : ∀ p ∈ previous, ∀ b ∈ blocks.head?, Spaced Block.used p b)
    (hbytes : arena.allocatedBytes = bytes + usedBytes blocks)
    (hcount : arena.liveAllocations = count + (usedBlocks blocks).length) :
    verifyFrom arena blocks expected previous bytes count = .ok := by
  induction blocks generalizing expected bytes count previous with
  | nil =>
    rw [verifyFrom, if_neg]
    have hend := tiles_nil.mp htiles
    simp only [usedBytes, usedBlocks, taken_nil, map_nil, sum_nil,
      length_nil, Nat.add_zero] at hbytes hcount
    omega
  | cons block blocks ih =>
    obtain ⟨hoffset, hpos, hrest⟩ := htiles
    have hend := hrest.le
    obtain ⟨hhead, htail⟩ := isChain_cons.mp hspaced
    rw [verifyFrom, if_neg (by omega), if_neg]
    · refine ih hrest htail (fun p hp b hb => ?_) ?_ ?_
      · cases Option.some.inj hp
        exact hhead b hb
      all_goals
        cases hused : block.used with
        | true =>
          simp only [usedBytes, usedBlocks, taken_cons_of_used hused, map_cons, sum_cons,
            length_cons, if_true] at hbytes hcount ⊢
          omega
        | false =>
          simp only [usedBytes, usedBlocks, taken_cons_of_free hused, Bool.false_eq_true,
            if_false] at hbytes hcount ⊢
          assumption
    · simp only [Bool.and_eq_true, Option.any_eq_true, Bool.not_eq_true']
      rintro ⟨⟨p, hp, hpfree⟩, hfree⟩
      exact (hprevious p hp block rfl).not_free ⟨hpfree, hfree⟩

theorem Valid.blocks_ne_nil (h : Valid arena) : arena.blocks ≠ [] := by
  intro hnil
  have htiles := h.laid.tiles
  rw [hnil, tiles_nil] at htiles
  exact absurd h.positive (by omega)

theorem Valid.verify (h : Valid arena) : dmaArenaVerify arena = .ok := by
  have hlength := length_pos_iff.mpr h.blocks_ne_nil
  have hbounded := h.bounded
  rw [dmaArenaVerify, if_neg (by simp [h.active]), if_neg (by omega)]
  refine verifyFrom_eq_ok h.laid.tiles h.laid.spaced (by simp) ?_ ?_
  · rw [h.bytes, Nat.zero_add]
  · rw [h.count, Nat.zero_add]

theorem dmaArenaCreate_ok {foundation : Foundation} {created : Arena} {memory after : Memory}
    {pageCount : ℕ} (h : dmaArenaCreate foundation arena memory pageCount = (.ok, created, after)) :
    Valid created ∧ usedBlocks created.blocks = [] := by
  rw [dmaArenaCreate] at h
  by_cases hactive : arena.active
  · rw [if_pos hactive] at h
    cases h
  rw [if_neg hactive] at h
  by_cases hsize : pageCount = 0 ∨ (2 ^ 64 - 1) / pageSize < pageCount
  · rw [if_pos hsize] at h
    cases h
  rw [if_neg hsize] at h
  cases hallocate : foundation.dmaAllocate pageCount with
  | none => simp [hallocate] at h
  | some allocation =>
    simp only [hallocate] at h
    split_ifs at h with hdevice
    · cases h
    · cases h
      have hpages : 0 < pageCount * pageSize := Nat.mul_pos (by omega) (by decide)
      exact ⟨⟨rfl, allocation.notNull, hpages, ⟨by simpa [viewReset] using hpages,
        isChain_singleton _⟩, by simp [viewReset, maxBlocks], rfl, rfl⟩, rfl⟩

/-! ### Allocation -/

/-- What an allocation that returns a pointer does: one block in use is added, where
no block in use was, and it is zeroed. -/
structure Granted (arena : Arena) (memory : Memory) (size alignment pointer : ℕ) (arena' : Arena)
    (memory' : Memory) (block : Block) : Prop where
  pointer_eq : pointer = arena.base + block.offset
  enough : size ≤ block.size
  aligned : raiseAlignment alignment ∣ pointer
  power : powerOfTwo (raiseAlignment alignment) = true
  base_eq : arena'.base = arena.base
  size_eq : arena'.size = arena.size
  used : ∃ xs ys, usedBlocks arena.blocks = xs ++ ys ∧ usedBlocks arena'.blocks = xs ++ block :: ys
  zeroed : ∀ address, pointer ≤ address → address < pointer + block.size → memory' address = 0
  kept : ∀ address, address < pointer ∨ pointer + block.size ≤ address →
    memory' address = memory address

theorem raiseAlignment_pos (alignment : ℕ) : 0 < raiseAlignment alignment := by
  rw [raiseAlignment, minimumAlignment]
  split_ifs <;> omega

def grantedBlock (block : Block) (pad rounded : ℕ) : Block :=
  { offset := block.offset + pad, size := rounded, used := true }

theorem allocateAt_spec (h : Valid arena) (memory : Memory) {front back : List Block}
    {block : Block} {pad rounded : ℕ} (hblocks : arena.blocks = front ++ block :: back)
    (hfree : block.used = false) (hroom : pad + rounded ≤ block.size) (hpositive : 0 < rounded) :
    allocateAt arena memory front.length block pad rounded = (none, countFailure arena, memory) ∨
      ∃ arena', allocateAt arena memory front.length block pad rounded =
          (some (arena.base + (block.offset + pad)), arena',
            zeroBytes memory (arena.base + (block.offset + pad)) rounded) ∧
        Valid arena' ∧ arena'.base = arena.base ∧ arena'.size = arena.size ∧
        usedBlocks arena.blocks = usedBlocks front ++ usedBlocks back ∧
        usedBlocks arena'.blocks =
          usedBlocks front ++ grantedBlock block pad rounded :: usedBlocks back := by
  rw [allocateAt]
  by_cases hfull : maxBlocks < arena.blocks.length + ((if pad ≠ 0 then 1 else 0) +
      (if block.size - pad - rounded ≠ 0 then 1 else 0))
  · exact .inl (if_pos hfull)
  · right
    rw [if_neg hfull]
    have hfit := not_lt.mp hfull
    rw [hblocks] at hfit
    have hlaid := h.laid
    rw [hblocks] at hlaid
    have hused : usedBlocks (front ++ carved block pad rounded ++ back) =
        usedBlocks front ++ grantedBlock block pad rounded :: usedBlocks back := by
      have hcarved : taken Block.used (carved block pad rounded) =
          [grantedBlock block pad rounded] := usedBlocks_carved hfree
      rw [usedBlocks, taken_append, taken_append, hcarved, append_assoc]
      rfl
    have hold : usedBlocks arena.blocks = usedBlocks front ++ usedBlocks back := by
      rw [hblocks, usedBlocks, taken_append, taken_cons_of_free hfree]
    rw [hblocks, splitFound_cut hfit]
    refine ⟨_, rfl, ⟨h.active, h.notNull, h.positive, hlaid.carve hfree hroom hpositive, ?_, ?_, ?_⟩,
      rfl, rfl, hblocks ▸ hold, hused⟩
    · have hlength := @length_carved block pad rounded
      simp only [length_append, length_cons] at hfit ⊢
      omega
    · exact (congrArg (· + rounded) h.bytes).trans (usedBytes_insert hold hused).1.symm
    · exact (congrArg (· + 1) h.count).trans (usedBytes_insert hold hused).2.symm

theorem dmaArenaAllocate_spec (h : Valid arena) (memory : Memory) (size alignment : ℕ) :
    (∃ arena', dmaArenaAllocate arena memory size alignment = (none, arena', memory) ∧
      (arena' = arena ∨ arena' = countFailure arena)) ∨
    ∃ pointer arena' memory' block,
      dmaArenaAllocate arena memory size alignment = (some pointer, arena', memory') ∧
        Valid arena' ∧ Granted arena memory size alignment pointer arena' memory' block := by
  rw [dmaArenaAllocate]
  by_cases hrefused : (!arena.active || size == 0 || decide (arena.size < size))
  · rw [if_pos hrefused]
    exact .inl ⟨arena, rfl, .inl rfl⟩
  rw [if_neg hrefused]
  by_cases hpower : (!powerOfTwo (raiseAlignment alignment))
  · rw [if_pos hpower]
    exact .inl ⟨_, rfl, .inr rfl⟩
  rw [if_neg hpower]
  cases hround : roundUp size minimumAlignment with
  | none => exact .inl ⟨_, rfl, .inr rfl⟩
  | some rounded =>
    simp only
    cases hfit : findFit arena.base rounded (raiseAlignment alignment) arena.blocks with
    | none => exact .inl ⟨_, rfl, .inr rfl⟩
    | some found =>
      obtain ⟨index, block, pad⟩ := found
      simp only
      obtain ⟨front, back, hblocks, rfl, hpad⟩ := findFit_cut hfit
      obtain ⟨hfree, hroom, haligned⟩ := padOf_eq_some hpad
      have hsize := (roundUp_eq_some hround (by decide)).1
      have hpositive : 0 < rounded := by
        simp only [Bool.or_eq_true, beq_iff_eq, not_or] at hrefused
        omega
      rcases allocateAt_spec h memory hblocks hfree hroom hpositive with hfull | hcut
      · exact .inl ⟨_, hfull, .inr rfl⟩
      · obtain ⟨arena', hresult, hvalid, hbase, hsame, hold, hnew⟩ := hcut
        refine .inr ⟨_, arena', _, grantedBlock block pad rounded, hresult, hvalid, ?_⟩
        exact {
          pointer_eq := rfl
          enough := hsize
          aligned := haligned (raiseAlignment_pos alignment)
          power := by simpa using hpower
          base_eq := hbase
          size_eq := hsame
          used := ⟨_, _, hold, hnew⟩
          zeroed := fun address hle hlt => if_pos ⟨hle, hlt⟩
          kept := fun address hout => if_neg fun hin => by
            have hlt : address < arena.base + (block.offset + pad) + rounded := hin.2
            rcases hout with hout | hout
            · exact absurd hin.1 (by omega)
            · have hge : arena.base + (block.offset + pad) + rounded ≤ address := hout
              omega }

/-! ### Release -/

/-- A release succeeds for the pointer of a block in use, which it takes out; for any
other pointer it changes nothing. -/
theorem dmaArenaFree_spec (h : Valid arena) (pointer : ℕ) :
    (∃ block ∈ usedBlocks arena.blocks, pointer = arena.base + block.offset ∧
      ∃ arena', dmaArenaFree arena pointer = (.ok, arena') ∧ Valid arena' ∧
        arena'.base = arena.base ∧ arena'.size = arena.size ∧
        ∃ xs ys, usedBlocks arena.blocks = xs ++ block :: ys ∧
          usedBlocks arena'.blocks = xs ++ ys) ∨
    (∀ block ∈ usedBlocks arena.blocks, pointer ≠ arena.base + block.offset) ∧
      ∃ status, status ≠ .ok ∧ dmaArenaFree arena pointer = (status, arena) := by
  have houtside : ∀ block ∈ usedBlocks arena.blocks, arena.base + block.offset < arena.base + arena.size := by
    intro block hblock
    have hmem := (mem_taken.mp hblock).1
    have hbounds := h.laid.tiles.bounds hmem
    have hpos := h.laid.tiles.pos hmem
    omega
  rw [dmaArenaFree]
  by_cases hnull : pointer = 0
  · rw [if_pos hnull]
    refine .inr ⟨fun block _ heq => ?_, .nullArgument, by simp, rfl⟩
    have := h.notNull
    omega
  rw [if_neg hnull, if_neg (by simp [h.active])]
  by_cases hrange : pointer < arena.base ∨ arena.base + arena.size ≤ pointer
  · rw [if_pos hrange]
    refine .inr ⟨fun block hblock heq => ?_, .badPointer, by simp, rfl⟩
    have := houtside block hblock
    omega
  rw [if_neg hrange]
  cases hfind : findOffset (pointer - arena.base) arena.blocks with
  | none =>
    refine .inr ⟨fun block hblock heq => ?_, .badPointer, by simp, rfl⟩
    exact (findOffset_eq_none h.laid.tiles).mp hfind block (mem_taken.mp hblock).1 (by omega)
  | some found =>
    obtain ⟨index, block⟩ := found
    obtain ⟨front, back, hblocks, rfl, hoffset⟩ := findOffset_cut hfind
    have hmem : block ∈ arena.blocks := by simp [hblocks]
    simp only
    cases hused : block.used with
    | false =>
      refine .inr ⟨fun other hother heq => ?_, .doubleFree, by simp, rfl⟩
      obtain ⟨hin, huse⟩ := mem_taken.mp hother
      have hsame : other = block := h.laid.tiles.eq_of_offset_eq hin hmem (by omega)
      rw [hsame, hused] at huse
      cases huse
    | true =>
      have hold : usedBlocks arena.blocks = usedBlocks front ++ block :: usedBlocks back := by
        rw [hblocks, usedBlocks, taken_append, taken_cons_of_used hused]
      have hlaid := h.laid
      rw [hblocks] at hlaid
      obtain ⟨hafter, hlength, hnew⟩ := hlaid.release
      rw [hblocks]
      refine .inl ⟨block, by rw [← hblocks, hold]; simp, by omega, _, rfl,
        ⟨h.active, h.notNull, h.positive, hafter, ?_, ?_, ?_⟩, rfl, rfl, _, _, hblocks ▸ hold, hnew⟩
      · have := h.bounded
        rw [hblocks] at this
        exact hlength.trans this
      · exact Nat.sub_eq_of_eq_add (h.bytes.trans (usedBytes_insert hnew hold).1)
      · exact Nat.sub_eq_of_eq_add (h.count.trans (usedBytes_insert hnew hold).2)

end OpenRFS.DmaArena
