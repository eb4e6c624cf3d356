import OpenRFS.Heap.Allocator

/-!
# What single calls of the kernel heap do

`HeapValid` is the invariant of an initialized heap. Every call keeps it, whatever
the frame allocator and the page tables answer, and each has one specification: an
allocation adds at most one used block, a release takes out the block its pointer
names, and a call that is refused leaves the used blocks alone.
-/

namespace OpenRFS.Heap

open Region Option

theorem le_alignUp (value : ℕ) {alignment : ℕ} (h : 0 < alignment) :
    value ≤ alignUp value alignment := by
  have hdiv := Nat.div_add_mod (value + alignment - 1) alignment
  have hmod := Nat.mod_lt (value + alignment - 1) h
  rw [alignUp, Nat.mul_comm]
  omega

theorem dvd_alignUp (value alignment : ℕ) : alignment ∣ alignUp value alignment :=
  Nat.dvd_mul_left _ _

structure HeapValid (s : State) : Prop where
  active : s.active = true
  table : TableValid s.blocks s.committedBytes
  pages : pagingPageSize ∣ s.committedBytes
  within : s.committedBytes ≤ heapSize

def pointerOf (block : Block) : UInt64 := UInt64.ofNat (heapBase + block.offset)

variable {s s' : State} {size : ℕ} {result : Except Status UInt64}

theorem toNat_pointerOf (h : HeapValid s) {block : Block} (hb : block ∈ s.blocks) :
    (pointerOf block).toNat = heapBase + block.offset := by
  have hbound := (h.table.tiles.bounds hb).2
  have hwithin := h.within
  have hlt : heapBase + block.offset < 2 ^ 64 := by
    simp only [heapBase, heapSize] at *
    omega
  exact Nat.mod_eq_of_lt hlt

@[simp] theorem refreshState_blocks (s : State) : (refreshState s).blocks = s.blocks := rfl

/-- The table of a heap may be exchanged for another valid one. -/
theorem HeapValid.exchange (h : HeapValid s) {table : List Block}
    (htable : TableValid table s.committedBytes) :
    HeapValid (refreshState { s with blocks := table }) :=
  { h with table := htable }

/-! ### Growth -/

theorem growFor_error {backing : Backing} {status : Status}
    (h : growFor backing s size = (.error status, s')) :
    s' = s ∨ ∃ count, (commitPages backing s.committedBytes
        (s.committedBytes + count * pagingPageSize) s.mappedPages).1 ≠ .ok ∧
      s' = { s with mappedPages := (commitPages backing s.committedBytes
        (s.committedBytes + count * pagingPageSize) s.mappedPages).2 } := by
  simp only [growFor] at h
  split_ifs at h with hroom hfull hstatus hlast
  · cases h
    exact .inl rfl
  · cases h
    exact .inl rfl
  · cases h
    exact .inr ⟨_, hstatus, rfl⟩
  · cases h
  · cases h

theorem growFor_ok {backing : Backing} {index : ℕ} (hs : HeapValid s)
    (hfit : findFit s.blocks size = none) (hpos : 0 < size)
    (h : growFor backing s size = (.ok index, s')) :
    HeapValid s' ∧ taken Block.used s'.blocks = taken Block.used s.blocks ∧
      ∃ front block, s'.blocks = front ++ [block] ∧ front.length = index ∧
        block.used = false ∧ size ≤ block.size := by
  have hwithin := hs.within
  have hunit : heapAlignment ∣ pagingPageSize := by decide
  simp only [growFor] at h
  split_ifs at h with hroom hfull hstatus hlast
  · cases h
  · cases h
  · cases h
  · -- the free block at the end is extended
    obtain ⟨block, hsome⟩ := isSome_iff_exists.mp hlast
    obtain ⟨hblock, hfree⟩ := filter_eq_some_iff.mp hsome
    simp only [Bool.not_eq_true'] at hfree
    obtain ⟨front, hblocks⟩ := List.getLast?_eq_some_iff.mp hblock
    rw [hsome, elim_some] at hroom h
    have hshort := lt_of_findFit_eq_none hfit (hblocks ▸ by simp) hfree
    have hgrow := le_alignUp (size - block.size) (show 0 < pagingPageSize by decide)
    have hdvd := dvd_alignUp (size - block.size) pagingPageSize
    generalize alignUp (size - block.size) pagingPageSize = growth at *
    have hresult : s.blocks.modify (s.blocks.length - 1)
        (fun b => { b with size := b.size + growth }) =
          front ++ [{ block with size := block.size + growth }] := by
      rw [hblocks, List.modify_eq_take_drop]
      simp
    rw [hresult] at h
    cases h
    have htable := (hblocks ▸ hs.table).extendLast (Nat.dvd_trans hunit hdvd)
    refine ⟨⟨hs.active, htable, Nat.dvd_add hs.pages hdvd, ?_⟩, ?_, front, _, rfl, by simp, hfree,
      ?_⟩
    · dsimp only
      omega
    · rw [hblocks]
      simp [hfree]
    · dsimp only
      omega
  · -- a new block is appended
    have hnone := not_isSome_iff_eq_none.mp hlast
    rw [hnone] at hroom hfull h
    simp only [elim_none, Nat.sub_zero, isNone_none, Bool.true_and, beq_iff_eq] at hroom hfull h
    have hgrow := le_alignUp size (show 0 < pagingPageSize by decide)
    have hdvd := dvd_alignUp size pagingPageSize
    generalize alignUp size pagingPageSize = growth at *
    cases h
    have htable := hs.table.appendFree growth
      (fun b hb => by simpa using filter_eq_none_iff.mp hnone b hb)
      (lt_of_le_of_ne hs.table.bounded hfull) (by omega) (Nat.dvd_trans hunit hdvd)
    refine ⟨⟨hs.active, htable, Nat.dvd_add hs.pages hdvd, ?_⟩, by simp, s.blocks, _, rfl,
      by simp, rfl, hgrow⟩
    dsimp only
    omega

/-! ### Single calls -/

/-- What an allocation of at least `size` bytes does to the used blocks: it adds the
block it returns, or it fails and changes none. -/
def Hands (size : ℕ) (s s' : State) : Except Status UInt64 → Prop
  | .error _ => taken Block.used s'.blocks = taken Block.used s.blocks
  | .ok pointer => ∃ block, pointer = pointerOf block ∧ size ≤ block.size ∧
      ∃ xs ys, taken Block.used s.blocks = xs ++ ys ∧ taken Block.used s'.blocks = xs ++ block :: ys

theorem Hands.mono {size' : ℕ} (h : Hands size' s s' result) (hsize : size ≤ size') :
    Hands size s s' result := by
  cases result with
  | error _ => exact h
  | ok pointer =>
    obtain ⟨block, hp, hlarge, hblocks⟩ := h
    exact ⟨block, hp, hsize.trans hlarge, hblocks⟩

theorem Hands.congr {t : State} (h : Hands size t s' result)
    (hused : taken Block.used t.blocks = taken Block.used s.blocks) : Hands size s s' result := by
  cases result with
  | error _ => exact Eq.trans h hused
  | ok pointer =>
    obtain ⟨block, hp, hsize, xs, ys, hold, hnew⟩ := h
    exact ⟨block, hp, hsize, xs, ys, hused ▸ hold, hnew⟩

theorem allocateAt_spec {requested : ℕ} {front back : List Block} {block : Block} (hs : HeapValid s)
    (hblocks : s.blocks = front ++ block :: back) (hfree : block.used = false)
    (hsize : requested ≤ block.size) (hpos : 0 < requested) (hdvd : heapAlignment ∣ requested)
    (h : allocateAt s front.length requested = (result, s')) :
    HeapValid s' ∧ Hands requested s s' result := by
  simp only [allocateAt] at h
  split at h
  · cases h
    exact ⟨hs, rfl⟩
  · rename_i table hsplit
    cases h
    have hvalid := hs.table
    rw [hblocks] at hsplit hvalid
    obtain ⟨htable, block', hoffset, hlarge, hget, hused⟩ :=
      splitBlock_spec hvalid hfree hsize hpos hdvd hsplit
    refine ⟨hs.exchange htable, block', ?_, hlarge, taken Block.used front, taken Block.used back,
      ?_, hused⟩
    · simp [hget, pointerOf]
    · simp [hblocks, hfree]

/-- What one call of `heap_allocate` does: it keeps the heap valid, and the used
blocks change only if it succeeds, by the block that it returns. -/
theorem heapAllocate_spec (hs : HeapValid s) (backing : Backing) (size : UInt64) :
    HeapValid (heapAllocate backing s size).2 ∧
      Hands size.toNat s (heapAllocate backing s size).2 (heapAllocate backing s size).1 := by
  generalize h : heapAllocate backing s size = call
  obtain ⟨result, s'⟩ := call
  have hround : size.toNat ≤ alignUp size.toNat heapAlignment := le_alignUp size.toNat (by decide)
  simp only [heapAllocate] at h
  split_ifs at h with hactive hzero hlarge hrounded
  iterate 4
    · cases h
      exact ⟨hs, rfl⟩
  have hpos : 0 < size.toNat := Nat.pos_of_ne_zero fun h0 => hzero (UInt64.toNat_inj.mp h0)
  cases hfit : findFit s.blocks (alignUp size.toNat heapAlignment) with
  | some index =>
    rw [hfit] at h
    obtain ⟨front, block, back, hblocks, rfl, hfree, hfits⟩ := findFit_cut hfit
    obtain ⟨hvalid, hhands⟩ := allocateAt_spec hs hblocks hfree hfits (hpos.trans_le hround)
      (dvd_alignUp _ _) h
    exact ⟨hvalid, hhands.mono hround⟩
  | none =>
    simp only [hfit] at h
    split at h
    · rename_i status t hgrow
      cases h
      obtain rfl | ⟨count, -, rfl⟩ := growFor_error hgrow
      · exact ⟨hs, rfl⟩
      · exact ⟨{ hs with }, rfl⟩
    · rename_i index t hgrow
      obtain ⟨ht, hused, front, block, hblocks, rfl, hfree, hfits⟩ :=
        growFor_ok hs hfit (hpos.trans_le hround) hgrow
      obtain ⟨hvalid, hhands⟩ := allocateAt_spec ht hblocks hfree hfits (hpos.trans_le hround)
        (dvd_alignUp _ _) h
      exact ⟨hvalid, (hhands.mono hround).congr hused⟩

/-- What one call of `heap_free` does: it succeeds for the pointers to used blocks
and takes that block out; otherwise it changes nothing. -/
theorem heapFree_spec (hs : HeapValid s) (pointer : UInt64) :
    (∃ block, pointer = pointerOf block ∧ (heapFree s pointer).1 = .ok ∧
      HeapValid (heapFree s pointer).2 ∧ ∃ xs ys, taken Block.used s.blocks = xs ++ block :: ys ∧
        taken Block.used (heapFree s pointer).2.blocks = xs ++ ys) ∨
    ((∀ block ∈ taken Block.used s.blocks, pointer ≠ pointerOf block) ∧
      (pointer = 0 ∧ heapFree s pointer = (.nullArgument, s) ∨
        pointer ≠ 0 ∧ (heapFree s pointer = (.doubleFree, s) ∨
          heapFree s pointer = (.badPointer, s)))) := by
  have haddress : ∀ block ∈ s.blocks, pointer = pointerOf block →
      pointer.toNat = heapBase + block.offset :=
    fun block hb h => h ▸ toNat_pointerOf hs hb
  rw [heapFree, if_neg (by simp [hs.active])]
  by_cases hnull : pointer = 0
  · refine .inr ⟨fun block hb h => ?_, .inl ⟨hnull, if_pos hnull⟩⟩
    have := haddress block (mem_taken.mp hb).1 h
    rw [hnull] at this
    exact absurd this (by simp [heapBase]; omega)
  rw [if_neg hnull]
  by_cases hwindow : pointer.toNat < heapBase ∨ heapBase + s.committedBytes ≤ pointer.toNat
  · rw [if_pos hwindow]
    refine .inr ⟨fun block hb h => ?_, .inr ⟨hnull, .inr rfl⟩⟩
    have hmem := (mem_taken.mp hb).1
    have := haddress block hmem h
    have := hs.table.tiles.bounds hmem
    have := hs.table.tiles.pos hmem
    omega
  rw [if_neg hwindow]
  have hsum : heapBase + (pointer.toNat - heapBase) = pointer.toNat := by omega
  cases hindex : blockIndexForOffset s.blocks (pointer.toNat - heapBase) with
  | none =>
    refine .inr ⟨fun block hb h => ?_, .inr ⟨hnull, .inr rfl⟩⟩
    have hmem := (mem_taken.mp hb).1
    refine blockIndexForOffset_eq_none.mp hindex block hmem ?_
    have := haddress block hmem h
    omega
  | some index =>
    obtain ⟨front, block, back, hblocks, rfl, hoffset⟩ := exists_cut_of_findIdx? hindex
    replace hoffset := beq_iff_eq.mp hoffset
    have hget : s.blocks[front.length]? = some block := by simp [hblocks]
    have hmem : block ∈ s.blocks := hblocks ▸ by simp
    simp only [hget]
    cases hused : block.used with
    | false =>
      refine .inr ⟨fun other hb h => ?_, .inr ⟨hnull, .inl rfl⟩⟩
      have hother := mem_taken.mp hb
      have heq : other = block := hs.table.tiles.eq_of_offset_eq hother.1 hmem (by
        have := haddress other hother.1 h
        omega)
      exact absurd hother.2 (by simp [heq, hused])
    | true =>
      have hvalid := hs.table
      rw [hblocks] at hvalid
      obtain ⟨htable, hresult⟩ := mergeFreeNeighbours_spec hvalid
      have hset : s.blocks.set front.length { block with used := false } =
          front ++ { block with used := false } :: back := by
        rw [hblocks, List.set_append_right _ _ le_rfl]
        simp
      refine .inl ⟨block, ?_, rfl, ?_, taken Block.used front, taken Block.used back, ?_, ?_⟩
      · rw [pointerOf, hoffset, hsum, UInt64.ofNat_toNat]
      · exact hs.exchange (hset ▸ htable)
      · simp [hblocks, hused]
      · simpa [hset] using hresult

end OpenRFS.Heap
