import OpenRFS.Heap.CallSpecs

/-!
# Runs of the kernel heap

A run is followed together with the list of the allocations that were returned and
not yet released. The used blocks of the table are exactly these allocations, so
that they do not overlap and a release succeeds for them and for nothing else.
-/

namespace OpenRFS.Heap

open Region

/-- A call of the heap's interface, with the answers the rest of the kernel gives
during it. -/
inductive Call
  | allocate (backing : Backing) (size : UInt64)
  | free (pointer : UInt64)

def step (s : State) : Call → State
  | .allocate backing size => (heapAllocate backing s size).2
  | .free pointer => (heapFree s pointer).2

def run (s : State) (calls : List Call) : State := calls.foldl step s

variable {s : State}

theorem HeapValid.step (h : HeapValid s) (call : Call) : HeapValid (step s call) := by
  cases call with
  | allocate backing size => exact (heapAllocate_spec h backing size).1
  | free pointer =>
    rcases heapFree_spec h pointer with ⟨_, _, _, hvalid, _⟩ | ⟨_, hnull | hother⟩
    · exact hvalid
    · rw [Heap.step, hnull.2]
      exact h
    · rw [Heap.step]
      rcases hother.2 with heq | heq <;> rw [heq] <;> exact h

theorem HeapValid.run (h : HeapValid s) (calls : List Call) : HeapValid (run s calls) := by
  induction calls generalizing s with
  | nil => exact h
  | cons call calls ih => exact ih (h.step call)

theorem heapInitialize_valid {platform : Platform} {cold : State}
    (h : heapInitialize platform cold = (.ok, s)) : HeapValid s ∧ s.blocks = [] := by
  simp only [heapInitialize] at h
  split_ifs at h <;> cases h
  exact ⟨⟨rfl, ⟨⟨rfl, by simp⟩, List.IsChain.nil, by simp⟩, Nat.dvd_zero _, Nat.zero_le _⟩, rfl⟩

/-- After an initialization that succeeded and any calls, the table of the heap
tiles the committed range in ascending order by aligned blocks of which no two
neighbours are free, it has not more blocks than its capacity, and the committed
range is a whole number of pages inside the window. -/
theorem heap_valid_of_run (platform : Platform) (cold s : State) (calls : List Call)
    (h : heapInitialize platform cold = (.ok, s)) :
    Tiles Block.offset Block.size 0 (run s calls).blocks (run s calls).committedBytes ∧
      (∀ block ∈ (run s calls).blocks, 0 < block.size ∧ heapAlignment ∣ block.size) ∧
      (run s calls).blocks.IsChain (fun a b => ¬ (a.used = false ∧ b.used = false)) ∧
      pagingPageSize ∣ (run s calls).committedBytes ∧ (run s calls).committedBytes ≤ heapSize ∧
      (run s calls).blocks.length ≤ heapMaxBlocks := by
  obtain ⟨_, htable, hpages, hwithin⟩ := (heapInitialize_valid h).1.run calls
  refine ⟨htable.tiles, fun b hb => ⟨htable.tiles.pos hb, htable.aligned b hb⟩,
    htable.coalesced.imp fun _ _ => Spaced.not_free, hpages, hwithin, htable.bounded⟩

def coldState : State :=
  { blocks := [], baseAddress := 0, size := 0, committedBytes := 0, allocatedBytes := 0,
    blockCount := 0, liveAllocations := 0, mappedPages := 0, active := false }

def readyPlatform : Platform :=
  { pagingActive := true, interruptsEnabled := false, guardBelowNotMapped := true,
    guardAboveNotMapped := true }

/-- Frames and mappings without end. -/
def fullBacking : Backing :=
  { frameAllocate := fun _ => true, pagingMap := fun _ => true, pagingTranslate := fun _ => true,
    pagingUnmap := fun _ => true }

def freshState : State := (heapInitialize readyPlatform coldState).2

def someCalls : List Call :=
  [.allocate fullBacking 40, .allocate fullBacking 5000, .free 0x400000000]

theorem heap_valid_of_someCalls : heapInitialize readyPlatform coldState = (.ok, freshState) ∧
    (run freshState someCalls).committedBytes = 8192 ∧
    Tiles Block.offset Block.size 0 (run freshState someCalls).blocks 8192 :=
  ⟨rfl, by decide +kernel, by
    have := (heap_valid_of_run readyPlatform coldState freshState someCalls rfl).1
    rwa [show (run freshState someCalls).committedBytes = 8192 by decide +kernel] at this⟩

/-! ### The live allocations -/

/-- An allocation that was returned: its pointer and the size that was asked for. -/
structure Allocation where
  pointer : UInt64
  size : UInt64
  deriving DecidableEq, Repr

structure Tracked where
  state : State
  live : List Allocation

def Tracked.step (t : Tracked) (call : Call) : Tracked where
  state := Heap.step t.state call
  live := match call with
    | .allocate backing size =>
      match (heapAllocate backing t.state size).1 with
      | .ok pointer => { pointer, size } :: t.live
      | .error _ => t.live
    | .free pointer =>
      if (heapFree t.state pointer).1 = .ok then t.live.filter (·.pointer != pointer) else t.live

def track (s : State) (calls : List Call) : Tracked :=
  calls.foldl Tracked.step { state := s, live := [] }

structure Owns (t : Tracked) : Prop where
  valid : HeapValid t.state
  nodup : (t.live.map Allocation.pointer).Nodup
  fits : ∀ a ∈ t.live, ∃ block ∈ taken Block.used t.state.blocks,
    a.pointer = pointerOf block ∧ a.size.toNat ≤ block.size
  covers : ∀ block ∈ taken Block.used t.state.blocks, ∃ a ∈ t.live, a.pointer = pointerOf block

theorem HeapValid.nodup_starts (h : HeapValid s) :
    ((taken Block.used s.blocks).map pointerOf).Nodup := by
  refine h.table.tiles.nodup_starts fun a ha b hb heq => ?_
  have hA := toNat_pointerOf h ha
  have hB := toNat_pointerOf h hb
  rw [heq] at hA
  omega

variable {t : Tracked}

theorem Owns.holds (h : Owns t) :
    Holds Allocation.pointer pointerOf (fun a block => a.size.toNat ≤ block.size) t.live
      (taken Block.used t.state.blocks) := ⟨h.nodup, h.fits, h.covers⟩

theorem Owns.step (h : Owns t) (call : Call) : Owns (t.step call) := by
  have hvalid : HeapValid (t.step call).state := h.valid.step call
  have hholds := h.holds
  suffices hafter : Holds Allocation.pointer pointerOf (fun a block => a.size.toNat ≤ block.size)
      (t.step call).live (taken Block.used (t.step call).state.blocks) from
    ⟨hvalid, hafter.nodup, hafter.fits, hafter.covers⟩
  cases call with
  | allocate backing size =>
    obtain ⟨-, hresult⟩ := heapAllocate_spec h.valid backing size
    simp only [Tracked.step, Heap.step] at hvalid ⊢
    cases hcall : (heapAllocate backing t.state size).1 with
    | error status =>
      rw [hcall] at hresult
      rwa [hresult]
    | ok pointer =>
      rw [hcall] at hresult
      obtain ⟨block, rfl, hsize, xs, ys, hold, hnew⟩ := hresult
      have hstarts := hvalid.nodup_starts
      rw [hnew] at hstarts ⊢
      rw [hold] at hholds
      exact hholds.cons hstarts rfl hsize
  | free pointer =>
    simp only [Tracked.step, Heap.step]
    rcases heapFree_spec h.valid pointer with
      ⟨block, rfl, hok, -, xs, ys, hold, hnew⟩ | ⟨-, hnull | hother⟩
    · have hstarts := h.valid.nodup_starts
      rw [hold] at hstarts hholds
      rw [if_pos hok, hnew]
      exact hholds.filter hstarts
    · rw [hnull.2]
      exact hholds
    · rcases hother.2 with heq | heq <;> rw [heq] <;> exact hholds

theorem Owns.track (h : Owns t) (calls : List Call) : Owns (calls.foldl Tracked.step t) := by
  induction calls generalizing t with
  | nil => exact h
  | cons call calls ih => exact ih (h.step call)

theorem owns_of_heapInitialize {platform : Platform} {cold : State}
    (h : heapInitialize platform cold = (.ok, s)) (calls : List Call) :
    Owns (Heap.track s calls) := by
  obtain ⟨hvalid, hblocks⟩ := heapInitialize_valid h
  have hinitial : Owns { state := s, live := [] } :=
    ⟨hvalid, List.nodup_nil, by simp, by simp [hblocks]⟩
  exact hinitial.track calls

theorem Owns.bounds (h : Owns t) {a : Allocation} (ha : a ∈ t.live) :
    heapAlignment ∣ a.pointer.toNat ∧ heapBase ≤ a.pointer.toNat ∧
      a.pointer.toNat + a.size.toNat ≤ heapBase + t.state.committedBytes := by
  obtain ⟨block, hused, hp, hsize⟩ := h.fits a ha
  have hblock := (mem_taken.mp hused).1
  have hbounds := h.valid.table.tiles.bounds hblock
  have hoffset := h.valid.table.tiles.dvd_offset (Nat.dvd_zero _) h.valid.table.aligned hblock
  rw [hp, toNat_pointerOf h.valid hblock]
  exact ⟨Nat.dvd_add (by decide) hoffset, Nat.le_add_right _ _, by omega⟩

theorem Owns.disjoint (h : Owns t) :
    t.live.Pairwise fun a b => a.pointer.toNat + a.size.toNat ≤ b.pointer.toNat ∨
      b.pointer.toNat + b.size.toNat ≤ a.pointer.toNat := by
  refine (List.pairwise_map.mp h.nodup).imp_of_mem fun {a b} ha hb hne => ?_
  obtain ⟨x, hx, hpx, hsx⟩ := h.fits a ha
  obtain ⟨y, hy, hpy, hsy⟩ := h.fits b hb
  have hxmem := (mem_taken.mp hx).1
  have hymem := (mem_taken.mp hy).1
  have hxy : x ≠ y := fun heq => hne (hpx.trans (heq ▸ hpy.symm))
  rw [hpx, hpy, toNat_pointerOf h.valid hxmem, toNat_pointerOf h.valid hymem]
  have hapart := h.valid.table.tiles.apart hxmem hymem hxy
  omega

/-- A release succeeds exactly for the live pointers. -/
theorem Owns.free_iff (h : Owns t) (pointer : UInt64) :
    (heapFree t.state pointer).1 = .ok ↔ ∃ a ∈ t.live, a.pointer = pointer := by
  rcases heapFree_spec h.valid pointer with ⟨block, hp, hok, -, xs, ys, hold, -⟩ | ⟨hnone, hstatus⟩
  · refine iff_of_true hok ?_
    obtain ⟨a, ha, hpa⟩ := h.covers block (hold ▸ by simp)
    exact ⟨a, ha, hpa.trans hp.symm⟩
  · refine iff_of_false ?_ ?_
    · rcases hstatus with ⟨-, heq⟩ | ⟨-, heq | heq⟩ <;> simp [heq]
    · rintro ⟨a, ha, rfl⟩
      obtain ⟨block, hblock, hp, -⟩ := h.fits a ha
      exact hnone block hblock hp

theorem TableValid.eq_of_taken_eq_nil {table : List Block} {committed : ℕ}
    (h : TableValid table committed) (hused : taken Block.used table = []) :
    table = if committed = 0 then [] else [{ offset := 0, size := committed, used := false }] := by
  split_ifs with hzero
  · cases table with
    | nil => rfl
    | cons b table =>
      have hpos := h.tiles.2.1
      have hle := h.tiles.2.2.le
      omega
  · obtain ⟨⟨offset, size, used⟩, rfl, hoffset, hsize, hfree⟩ :=
      h.tiles.eq_singleton_of_taken_eq_nil h.coalesced hused (Nat.pos_of_ne_zero hzero)
    simp only [Nat.zero_add] at hoffset hsize hfree
    rw [hoffset, hsize, hfree]

/-- Along every run the live allocations are pairwise disjoint, aligned and inside
the committed part of the window; a release succeeds exactly for a live pointer and
changes nothing for any other one, which it refuses as a null pointer, a double
free or a bad pointer; and when nothing is live the table is one free block over the
committed range, or empty while nothing is committed. -/
theorem live_allocations_of_run (platform : Platform) (cold s : State) (calls : List Call)
    (h : heapInitialize platform cold = (.ok, s)) :
    ((track s calls).live.Pairwise fun a b => a.pointer.toNat + a.size.toNat ≤ b.pointer.toNat ∨
      b.pointer.toNat + b.size.toNat ≤ a.pointer.toNat) ∧
    (∀ a ∈ (track s calls).live, heapAlignment ∣ a.pointer.toNat ∧ heapBase ≤ a.pointer.toNat ∧
      a.pointer.toNat + a.size.toNat ≤ heapBase + (track s calls).state.committedBytes) ∧
    (∀ pointer, ((heapFree (track s calls).state pointer).1 = .ok ↔
      ∃ a ∈ (track s calls).live, a.pointer = pointer)) ∧
    (∀ pointer, (∀ a ∈ (track s calls).live, a.pointer ≠ pointer) →
      heapFree (track s calls).state pointer =
          (if pointer = 0 then .nullArgument else .doubleFree, (track s calls).state) ∨
        pointer ≠ 0 ∧ heapFree (track s calls).state pointer =
          (.badPointer, (track s calls).state)) ∧
    ((track s calls).live = [] → (track s calls).state.blocks =
      if (track s calls).state.committedBytes = 0 then []
      else [{ offset := 0, size := (track s calls).state.committedBytes, used := false }]) := by
  have howns := owns_of_heapInitialize h calls
  refine ⟨howns.disjoint, fun a ha => howns.bounds ha, howns.free_iff, fun pointer hnot => ?_,
    fun hlive => ?_⟩
  · rcases heapFree_spec howns.valid pointer with ⟨block, rfl, -, -, xs, ys, hold, -⟩ | ⟨-, hstatus⟩
    · obtain ⟨a, ha, hpa⟩ := howns.covers block (hold ▸ by simp)
      exact absurd hpa (hnot a ha)
    · rcases hstatus with ⟨hnull, heq⟩ | ⟨hne, heq | heq⟩
      · exact .inl (by rw [heq, if_pos hnull])
      · exact .inl (by rw [heq, if_neg hne])
      · exact .inr ⟨hne, heq⟩
  · exact howns.valid.table.eq_of_taken_eq_nil (howns.holds.eq_nil hlive)

theorem live_allocations_of_someCalls :
    heapInitialize readyPlatform coldState = (.ok, freshState) ∧
      (track freshState someCalls).live = [{ pointer := 0x400000030, size := 5000 }] ∧
      ((heapFree (track freshState someCalls).state 0x400000030).1 = .ok ↔
        ∃ a ∈ (track freshState someCalls).live, a.pointer = 0x400000030) :=
  ⟨rfl, by decide +kernel,
    (live_allocations_of_run readyPlatform coldState freshState someCalls rfl).2.2.1 0x400000030⟩

/-- The null pointer is refused as such, and the table of a heap on which nothing
was ever committed is empty. -/
theorem heapFree_null_freshState :
    (track freshState []).live = [] ∧ ¬ ((heapFree (track freshState []).state 0).1 = .doubleFree ∨
        (heapFree (track freshState []).state 0).1 = .badPointer) ∧
      (track freshState []).state.blocks ≠
        [{ offset := 0, size := (track freshState []).state.committedBytes, used := false }] := by
  decide +kernel

end OpenRFS.Heap
