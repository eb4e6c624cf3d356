import OpenRFS.Heap.Live

/-!
# Allocations that are refused

A growth that fails part way gives back the pages it has mapped, so that it leaves no trace.
An allocation can also fail behind a growth that succeeded: if the new block takes the last
place of the table and is larger than what was asked for, the remainder has no place. The
growth then stays, and the published counters do not know of it.
-/

namespace OpenRFS.Heap

open List

/-- What `heap_verify` finds in the page tables: the guards, and which pages of the window are
writable and nothing else. -/
structure PageTables where
  guardBelowNotMapped : Bool
  guardAboveNotMapped : Bool
  writable : ℕ → Bool

def heapVerify (tables : PageTables) (s : State) : Status :=
  if !s.active then .notInitialized
  else if heapSize < s.committedBytes ∨ s.committedBytes % pagingPageSize ≠ 0 ∨
      s.mappedPages ≠ s.committedBytes / pagingPageSize then .validationFailure
  else if !validateTable s.blocks s.committedBytes then .validationFailure
  else if !tables.guardBelowNotMapped || !tables.guardAboveNotMapped then .guardMapped
  else if !(pageOffsets 0 s.committedBytes).all tables.writable then .validationFailure
  else if ((s.blocks.filter (·.used)).map Block.size).sum ≠ s.allocatedBytes ∨
      (s.blocks.filter (·.used)).length ≠ s.liveAllocations ∨ s.blocks.length ≠ s.blockCount then
    .validationFailure
  else .ok

/-- Two states of the page tables with the same guards and the same committed pages. -/
structure PageTables.Agree (committed : ℕ) (tables tables' : PageTables) : Prop where
  below : tables.guardBelowNotMapped = tables'.guardBelowNotMapped
  above : tables.guardAboveNotMapped = tables'.guardAboveNotMapped
  writable : ∀ offset ∈ pageOffsets 0 committed, tables.writable offset = tables'.writable offset

theorem PageTables.Agree.heapVerify {s : State} {tables tables' : PageTables}
    (h : Agree s.committedBytes tables tables') : heapVerify tables s = heapVerify tables' s := by
  have hall : (pageOffsets 0 s.committedBytes).all tables.writable =
      (pageOffsets 0 s.committedBytes).all tables'.writable := by
    rw [Bool.eq_iff_iff, all_eq_true, all_eq_true]
    exact forall₂_congr fun offset hoffset => by rw [h.writable offset hoffset]
  rw [Heap.heapVerify, Heap.heapVerify, h.below, h.above, hall]

/-- A page that was mapped can be unmapped. -/
def Backing.Releases (backing : Backing) : Prop :=
  ∀ offset, backing.frameAllocate offset = true → backing.pagingMap offset = true →
    backing.pagingTranslate offset = true ∧ backing.pagingUnmap offset = true

section Growth

variable {backing : Backing} {s : State}

theorem pageOffsets_mul (start k : ℕ) :
    pageOffsets start (start + k * pagingPageSize) = List.range' start k pagingPageSize := by
  rw [pageOffsets, Nat.add_sub_cancel_left, Nat.add_sub_assoc (by decide),
    Nat.add_comm, Nat.add_mul_div_right _ _ (by decide)]
  simp [pagingPageSize]

theorem releasePages_eq {start k mapped : ℕ}
    (h : ∀ offset ∈ List.range' start k pagingPageSize,
      backing.pagingTranslate offset ∧ backing.pagingUnmap offset) :
    releasePages backing start (start + k * pagingPageSize) (mapped + k) = mapped := by
  rw [releasePages, pageOffsets_mul]
  induction k generalizing start with
  | zero => rfl
  | succ k ih =>
    rw [List.range'_succ, forall_mem_cons] at h
    rw [List.range'_succ, foldl_cons, if_pos (by simp [h.1])]
    exact ih h.2

/-- The loop of `commit_pages` behind `k` pages that it has mapped. -/
theorem commitPagesFrom_refused (hbacking : backing.Releases) {start k count mapped : ℕ}
    (hmapped : ∀ offset ∈ List.range' start k pagingPageSize,
      backing.pagingTranslate offset ∧ backing.pagingUnmap offset)
    (h : (commitPagesFrom backing start
      (List.range' (start + k * pagingPageSize) count pagingPageSize) (mapped + k)).1 ≠ .ok) :
    (commitPagesFrom backing start
      (List.range' (start + k * pagingPageSize) count pagingPageSize) (mapped + k)).2 = mapped := by
  induction count generalizing k with
  | zero => exact absurd rfl h
  | succ count ih =>
    rw [List.range'_succ, commitPagesFrom] at h ⊢
    split_ifs at h ⊢ with hframe hmap
    · exact releasePages_eq hmapped
    · exact releasePages_eq hmapped
    · have hnext : start + k * pagingPageSize + pagingPageSize =
          start + (k + 1) * pagingPageSize := by
        rw [Nat.add_assoc, ← Nat.succ_mul]
      rw [hnext, Nat.add_assoc] at h ⊢
      refine ih (fun offset hoffset => ?_) h
      rw [List.range'_concat, mem_append, mem_singleton] at hoffset
      rcases hoffset with hoffset | rfl
      · exact hmapped offset hoffset
      · rw [Nat.mul_comm]
        exact hbacking _ (by simpa using hframe) (by simpa using hmap)

theorem commitPages_refused (hbacking : backing.Releases) {start count mapped : ℕ}
    (h : (commitPages backing start (start + count * pagingPageSize) mapped).1 ≠ .ok) :
    (commitPages backing start (start + count * pagingPageSize) mapped).2 = mapped := by
  rw [commitPages, pageOffsets_mul] at h ⊢
  have hstart : start + 0 * pagingPageSize = start := by simp
  rw [← hstart] at h
  have hrefused := commitPagesFrom_refused hbacking (k := 0) (by simp) h
  simpa using hrefused

theorem growFor_refused (hbacking : backing.Releases) {size : ℕ} {status : Status} {s' : State}
    (h : growFor backing s size = (.error status, s')) : s' = s := by
  obtain rfl | ⟨count, hstatus, rfl⟩ := growFor_error h
  · rfl
  · rw [commitPages_refused hbacking hstatus]

end Growth

/-- A growth for the request takes the last place of the table, and its block is too large. -/
def Stranded (backing : Backing) (s : State) (size : UInt64) : Prop :=
  let requested := alignUp size.toNat heapAlignment
  size ≠ 0 ∧ requested ≤ heapSize ∧ findFit s.blocks requested = none ∧
    ∃ index t block, growFor backing s requested = (.ok index, t) ∧
      t.blocks.length = heapMaxBlocks ∧ t.blocks.getLast? = some block ∧ block.size ≠ requested

/-- An allocation that is refused changes nothing, and `heap_verify` still succeeds. -/
def LeavesNoTrace (backing : Backing) (s : State) (size : UInt64) : Prop :=
  ∀ status s', heapAllocate backing s size = (.error status, s') →
    s' = s ∧ ∀ tables tables', PageTables.Agree s.committedBytes tables tables' →
      heapVerify tables s = .ok → heapVerify tables' s' = .ok

section Refused

variable {backing : Backing} {s : State} {size : UInt64}

theorem allocateAt_error {index requested : ℕ} {status : Status} {s' : State}
    (h : allocateAt s index requested = (.error status, s')) :
    s' = s ∧ splitBlock s.blocks index requested = none := by
  rw [allocateAt] at h
  split at h
  · cases h
    exact ⟨rfl, ‹_›⟩
  · cases h

/-- The block of a growth cannot be split if its remainder needs a place in a full table. -/
theorem splitBlock_grown {front : List Block} {block : Block} {requested committed : ℕ}
    (hvalid : TableValid (front ++ [block]) committed) (hsize : requested ≤ block.size)
    (hdvd : heapAlignment ∣ requested) :
    splitBlock (front ++ [block]) front.length requested = none ↔
      (front ++ [block]).length = heapMaxBlocks ∧ block.size ≠ requested := by
  have hmultiple := Nat.dvd_sub (hvalid.aligned block (by simp)) hdvd
  rw [splitBlock_cut]
  split_ifs with hremainder hfull
  · have hlarge : 0 < block.size - requested := lt_of_lt_of_le (by decide) hremainder
    exact ⟨fun _ => ⟨hfull, by omega⟩, fun _ => rfl⟩
  · exact ⟨nofun, fun h => absurd h.1 hfull⟩
  · have hnone := Nat.eq_zero_of_dvd_of_lt hmultiple (lt_of_not_ge hremainder)
    exact ⟨nofun, fun h => absurd (by omega) h.2⟩

theorem leavesNoTrace_iff (hs : HeapValid s) (hbacking : backing.Releases) :
    LeavesNoTrace backing s size ↔ ¬ Stranded backing s size := by
  have hround : size.toNat ≤ alignUp size.toNat heapAlignment := le_alignUp _ (by decide)
  have hdvd := dvd_alignUp size.toNat heapAlignment
  constructor
  · rintro hkept ⟨hzero, hlarge, hfit, index, t, block, hgrow, hfull, hblock, hremainder⟩
    have hpos : 0 < size.toNat := Nat.pos_of_ne_zero fun h0 => hzero (UInt64.toNat_inj.mp h0)
    obtain ⟨ht, -, front, last, hblocks, rfl, hfree, hfits⟩ :=
      growFor_ok hs hfit (hpos.trans_le hround) hgrow
    obtain rfl : last = block := by simpa [hblocks] using hblock
    have hsplit := (splitBlock_grown (hblocks ▸ ht.table) hfits hdvd).mpr
      ⟨hblocks ▸ hfull, hremainder⟩
    have hcall : heapAllocate backing s size = (.error .outOfBlocks, t) := by
      rw [heapAllocate, if_neg (by simp [hs.active]), if_neg hzero, if_neg (by omega)]
      dsimp only
      rw [if_neg (by omega), hfit]
      simp only [hgrow, allocateAt, hblocks, hsplit]
    -- the grown heap has a block that fits, and the heap before had none
    obtain ⟨rfl, -⟩ := hkept _ _ hcall
    exact absurd hfits (lt_of_findFit_eq_none hfit (hblocks ▸ by simp) hfree).not_ge
  · intro hstranded status s' h
    suffices heq : s' = s by
      subst heq
      exact ⟨rfl, fun tables tables' hagree hverify => hagree.heapVerify ▸ hverify⟩
    simp only [heapAllocate] at h
    split_ifs at h with hactive hzero hsize hrounded
    iterate 4
      · cases h
        rfl
    have hpos : 0 < size.toNat := Nat.pos_of_ne_zero fun h0 => hzero (UInt64.toNat_inj.mp h0)
    cases hfit : findFit s.blocks (alignUp size.toNat heapAlignment) with
    | some index =>
      rw [hfit] at h
      exact (allocateAt_error h).1
    | none =>
      simp only [hfit] at h
      split at h
      · rename_i hgrow
        cases h
        exact growFor_refused hbacking hgrow
      · rename_i index t hgrow
        obtain ⟨ht, -, front, block, hblocks, rfl, -, hfits⟩ :=
          growFor_ok hs hfit (hpos.trans_le hround) hgrow
        have hsplit := (allocateAt_error h).2
        rw [hblocks] at hsplit
        obtain ⟨hfull, hremainder⟩ := (splitBlock_grown (hblocks ▸ ht.table) hfits hdvd).mp hsplit
        exact absurd ⟨hzero, le_of_not_gt hrounded, hfit, _, t, block, hgrow,
          hblocks ▸ hfull, by simp [hblocks], hremainder⟩ hstranded

/-- In every state of a run, an allocation that is refused leaves no trace exactly if it is not
refused behind its own growth. -/
theorem refused_leavesNoTrace_iff (platform : Platform) (cold s : State) (calls : List Call)
    (h : heapInitialize platform cold = (.ok, s)) (hbacking : backing.Releases) (size : UInt64) :
    LeavesNoTrace backing (run s calls) size ↔ ¬ Stranded backing (run s calls) size :=
  leavesNoTrace_iff ((heapInitialize_valid h).1.run calls) hbacking

end Refused

def scarceBacking : Backing :=
  { fullBacking with frameAllocate := fun offset => decide (offset < 0x5000) }

/-- Two pages are committed, three more are mapped and given back. -/
theorem refused_leavesNoTrace_someCalls :
    (heapAllocate scarceBacking (run freshState someCalls) 0x8000).1 = .error .outOfMemory ∧
      LeavesNoTrace scarceBacking (run freshState someCalls) 0x8000 := by
  refine ⟨rfl, (refused_leavesNoTrace_iff readyPlatform coldState freshState someCalls rfl
    (fun _ _ _ => ⟨rfl, rfl⟩) 0x8000).mpr ?_⟩
  rintro ⟨-, -, -, index, t, block, hgrow, -⟩
  have hrefused : (growFor scarceBacking (run freshState someCalls)
      (alignUp (0x8000 : UInt64).toNat heapAlignment)).1.toOption = none := by decide +kernel
  rw [hgrow] at hrefused
  cases hrefused

def pageCalls : List Call := List.replicate 255 (.allocate fullBacking 4096)

def soundTables : PageTables := ⟨true, true, fun _ => true⟩

set_option maxRecDepth 20000 in
/-- The next page takes the last place. The heap has grown, and does not verify any more. -/
theorem heapAllocate_stranded :
    (heapAllocate fullBacking (run freshState pageCalls) 16).1.toOption = none ∧
      heapVerify soundTables (run freshState pageCalls) = .ok ∧
      heapVerify soundTables (heapAllocate fullBacking (run freshState pageCalls) 16).2 =
        .validationFailure ∧
      (heapAllocate fullBacking (run freshState pageCalls) 16).2.committedBytes =
        (run freshState pageCalls).committedBytes + 4096 := by
  decide +kernel

end OpenRFS.Heap
