import OpenRFS.DmaArena.CallSpecs

/-!
# Runs of the DMA arena

A run is followed together with the allocations that were returned and not yet
released. The blocks in use are exactly these allocations. Between the calls the
drivers and the device write to the memory as they like.

An alignment below the minimum is raised to it before anything is checked, so that
an alignment that is no power of two is accepted if it is small enough.
-/

namespace OpenRFS.DmaArena

open Region List

variable {s : Session}

inductive Call
  | allocate (size alignment : ℕ)
  | free (pointer : ℕ)
  | store (address : ℕ) (byte : UInt8)

structure Grant where
  pointer : ℕ
  size : ℕ
  alignment : ℕ
  deriving DecidableEq, Repr

structure Session where
  arena : Arena
  memory : Memory
  live : List Grant

def Session.step (s : Session) : Call → Session
  | .allocate size alignment =>
    match dmaArenaAllocate s.arena s.memory size alignment with
    | (none, arena, memory) => { s with arena := arena, memory := memory }
    | (some pointer, arena, memory) =>
      { arena := arena, memory := memory, live := { pointer, size, alignment } :: s.live }
  | .free pointer =>
    match dmaArenaFree s.arena pointer with
    | (.ok, arena) =>
      { s with arena := arena, live := s.live.filter (·.pointer != pointer) }
    | (_, arena) => { s with arena := arena }
  | .store address byte => { s with memory := Function.update s.memory address byte }

/-- The session after a sequence of calls on an arena that was just created. -/
def session (arena : Arena) (memory : Memory) (calls : List Call) : Session :=
  calls.foldl Session.step { arena := arena, memory := memory, live := [] }

/-- The address is a multiple of the alignment that was asked for, if any was. -/
def Grant.Aligned (g : Grant) : Prop := g.alignment = 0 ∨ g.alignment ∣ g.pointer

instance (g : Grant) : Decidable g.Aligned := inferInstanceAs (Decidable (_ ∨ _))

/-- The alignments for which an allocation keeps its promise or refuses. -/
def Honoured (alignment : ℕ) : Prop :=
  alignment = 0 ∨ powerOfTwo alignment = true ∨ minimumAlignment ≤ alignment

theorem dvd_of_honoured {alignment pointer : ℕ} (h : Honoured alignment)
    (hpointer : raiseAlignment alignment ∣ pointer) : alignment = 0 ∨ alignment ∣ pointer := by
  rw [raiseAlignment] at hpointer
  split_ifs at hpointer with hlow
  · -- the powers of two below the minimum divide it
    rcases h with hzero | hpower | hhigh
    · exact .inl hzero
    · right
      refine dvd_trans ?_ hpointer
      rw [minimumAlignment] at hlow
      interval_cases alignment <;> revert hpower <;> decide
    · omega
  · exact .inr hpointer

/-! ### The live allocations -/

structure Owns (s : Session) : Prop where
  valid : Valid s.arena
  nodup : (s.live.map Grant.pointer).Nodup
  fits : ∀ g ∈ s.live, ∃ block ∈ usedBlocks s.arena.blocks,
    g.pointer = s.arena.base + block.offset ∧ g.size ≤ block.size
  raised : ∀ g ∈ s.live, raiseAlignment g.alignment ∣ g.pointer
  covers : ∀ block ∈ usedBlocks s.arena.blocks, ∃ g ∈ s.live,
    g.pointer = s.arena.base + block.offset

theorem Valid.nodup_starts {arena : Arena} (h : Valid arena) (base : ℕ) :
    ((usedBlocks arena.blocks).map (base + ·.offset)).Nodup :=
  h.laid.tiles.nodup_starts fun _ _ _ _ => Nat.add_left_cancel

theorem Owns.holds (h : Owns s) :
    Holds Grant.pointer (s.arena.base + ·.offset) (fun g block => g.size ≤ block.size) s.live
      (usedBlocks s.arena.blocks) := ⟨h.nodup, h.fits, h.covers⟩

theorem Valid.countFailure {arena : Arena} (h : Valid arena) :
    Valid (DmaArena.countFailure arena) :=
  { h with }

theorem Owns.grant (h : Owns s) {size alignment pointer : ℕ} {arena' : Arena} {memory' : Memory}
    {block : Block} (hvalid : Valid arena')
    (hgrant : Granted s.arena s.memory size alignment pointer arena' memory' block) :
    Owns { arena := arena', memory := memory', live := { pointer, size, alignment } :: s.live } := by
  obtain ⟨xs, ys, hold, hnew⟩ := hgrant.used
  have hstarts := hvalid.nodup_starts s.arena.base
  rw [hnew] at hstarts
  have hholds : Holds Grant.pointer (arena'.base + ·.offset) (fun g block => g.size ≤ block.size)
      ({ pointer, size, alignment } :: s.live) (usedBlocks arena'.blocks) := by
    rw [hnew, hgrant.base_eq]
    exact (hold ▸ h.holds).cons hstarts hgrant.pointer_eq hgrant.enough
  exact ⟨hvalid, hholds.nodup, hholds.fits, forall_mem_cons.mpr ⟨hgrant.aligned, h.raised⟩,
    hholds.covers⟩

theorem Owns.release (h : Owns s) {block : Block} {arena' : Arena} {xs ys : List Block}
    (hvalid : Valid arena') (hbase : arena'.base = s.arena.base)
    (hold : usedBlocks s.arena.blocks = xs ++ block :: ys)
    (hnew : usedBlocks arena'.blocks = xs ++ ys) :
    Owns { s with
      arena := arena'
      live := s.live.filter (·.pointer != s.arena.base + block.offset) } := by
  have hstarts := h.valid.nodup_starts s.arena.base
  rw [hold] at hstarts
  have hholds : Holds Grant.pointer (arena'.base + ·.offset) (fun g block => g.size ≤ block.size)
      (s.live.filter (·.pointer != s.arena.base + block.offset)) (usedBlocks arena'.blocks) := by
    rw [hnew, hbase]
    exact (hold ▸ h.holds).filter hstarts
  exact ⟨hvalid, hholds.nodup, hholds.fits, fun g hg => h.raised g (mem_filter.mp hg).1,
    hholds.covers⟩

theorem Owns.step (h : Owns s) (call : Call) : Owns (s.step call) := by
  cases call with
  | allocate size alignment =>
    rcases dmaArenaAllocate_spec h.valid s.memory size alignment with
      ⟨arena', hcall, rfl | rfl⟩ | ⟨pointer, arena', memory', block, hcall, hvalid, hgrant⟩
    · simp only [Session.step, hcall]
      exact h
    · simp only [Session.step, hcall]
      exact { h with valid := h.valid.countFailure }
    · simp only [Session.step, hcall]
      exact h.grant hvalid hgrant
  | free pointer =>
    rcases dmaArenaFree_spec h.valid pointer with
      ⟨block, -, rfl, arena', hcall, hvalid, hbase, -, xs, ys, hold, hnew⟩ |
        ⟨-, status, hstatus, hcall⟩
    · simp only [Session.step, hcall]
      exact h.release hvalid hbase hold hnew
    · have hkept : s.step (.free pointer) = s := by
        simp only [Session.step, hcall]
      rw [hkept]
      exact h
  | store address byte => exact { h with }

theorem Owns.run (h : Owns s) (calls : List Call) : Owns (calls.foldl Session.step s) := by
  induction calls generalizing s with
  | nil => exact h
  | cons call calls ih => exact ih (h.step call)

theorem alignment_of_live {calls : List Call} {g : Grant}
    (hg : g ∈ (calls.foldl Session.step s).live) :
    g ∈ s.live ∨ ∃ size, Call.allocate size g.alignment ∈ calls := by
  induction calls generalizing s with
  | nil => exact .inl hg
  | cons call calls ih =>
    rcases ih hg with hlive | ⟨size, hcall⟩
    · cases call with
      | allocate size alignment =>
        simp only [Session.step] at hlive
        split at hlive
        · exact .inl hlive
        · rcases mem_cons.mp hlive with rfl | hlive
          · exact .inr ⟨size, mem_cons_self⟩
          · exact .inl hlive
      | free pointer =>
        simp only [Session.step] at hlive
        split at hlive
        · exact .inl (mem_filter.mp hlive).1
        · exact .inl hlive
      | store address byte => exact .inl hlive
    · exact .inr ⟨size, mem_cons_of_mem _ hcall⟩

variable (h : Owns s)
include h

theorem Owns.size_of_live {block : Block}
    (hblock : block ∈ usedBlocks s.arena.blocks) :
    dmaArenaAllocationSize s.arena (s.arena.base + block.offset) = block.size := by
  obtain ⟨hmem, hused⟩ := mem_taken.mp hblock
  have hbounds := h.valid.laid.tiles.bounds hmem
  have hpos := h.valid.laid.tiles.pos hmem
  have hnull := h.valid.notNull
  rw [dmaArenaAllocationSize, if_neg, Nat.add_sub_cancel_left,
    allocationSizeIn_of_mem h.valid.laid.tiles hmem hused]
  simp only [h.valid.active, Bool.not_true, Bool.false_or, Bool.or_eq_true, beq_iff_eq,
    decide_eq_true_eq]
  omega

theorem Owns.disjoint :
    s.live.Pairwise fun a b =>
      a.pointer + dmaArenaAllocationSize s.arena a.pointer ≤ b.pointer ∨
        b.pointer + dmaArenaAllocationSize s.arena b.pointer ≤ a.pointer := by
  refine (pairwise_map.mp h.nodup).imp_of_mem fun {a b} ha hb hne => ?_
  obtain ⟨x, hx, hpx, -⟩ := h.fits a ha
  obtain ⟨y, hy, hpy, -⟩ := h.fits b hb
  have hxy : x ≠ y := fun heq => hne (hpx.trans (heq ▸ hpy.symm))
  have hapart := h.valid.laid.tiles.apart (mem_taken.mp hx).1 (mem_taken.mp hy).1 hxy
  rw [hpx, hpy, h.size_of_live hx, h.size_of_live hy]
  omega

theorem Owns.bounds {g : Grant} (hg : g ∈ s.live) :
    s.arena.base ≤ g.pointer ∧
      g.pointer + dmaArenaAllocationSize s.arena g.pointer ≤ s.arena.base + s.arena.size ∧
      g.size ≤ dmaArenaAllocationSize s.arena g.pointer := by
  obtain ⟨block, hblock, hp, hsize⟩ := h.fits g hg
  have hbounds := h.valid.laid.tiles.bounds (mem_taken.mp hblock).1
  rw [hp, h.size_of_live hblock]
  omega

theorem Owns.free_iff (pointer : ℕ) :
    (dmaArenaFree s.arena pointer).1 = .ok ↔ ∃ g ∈ s.live, g.pointer = pointer := by
  rcases dmaArenaFree_spec h.valid pointer with
    ⟨block, hblock, hp, arena', hcall, -⟩ | ⟨hnone, status, hstatus, hcall⟩
  · refine iff_of_true (by rw [hcall]) ?_
    obtain ⟨g, hg, hpg⟩ := h.covers block hblock
    exact ⟨g, hg, hpg.trans hp.symm⟩
  · refine iff_of_false (by rw [hcall]; exact hstatus) ?_
    rintro ⟨g, hg, rfl⟩
    obtain ⟨block, hblock, hp, -⟩ := h.fits g hg
    exact hnone block hblock hp

theorem Owns.single (hlive : s.live = []) :
    s.arena.blocks = [{ offset := 0, size := s.arena.size, used := false }] := by
  obtain ⟨⟨offset, size, used⟩, hblocks, hoffset, hsize, hfree⟩ :=
    h.valid.laid.tiles.eq_singleton_of_taken_eq_nil h.valid.laid.spaced (h.holds.eq_nil hlive)
      h.valid.positive
  simp only [zero_add] at hoffset hsize hfree
  rw [hblocks, hoffset, hsize, hfree]

/-- What one call does to an arena whose live allocations are its blocks in use: an
allocation that is refused changes the count of failures only, one that is not
returns a zeroed block, and a release that is refused changes nothing. -/
theorem Owns.calls :
    (∀ size alignment arena memory,
      dmaArenaAllocate s.arena s.memory size alignment = (none, arena, memory) →
        memory = s.memory ∧ (arena = s.arena ∨ arena = countFailure s.arena)) ∧
    (∀ size alignment pointer arena memory,
      dmaArenaAllocate s.arena s.memory size alignment = (some pointer, arena, memory) →
        ∀ address, pointer ≤ address →
          address < pointer + dmaArenaAllocationSize arena pointer → memory address = 0) ∧
    ∀ pointer, (dmaArenaFree s.arena pointer).1 ≠ .ok →
      (dmaArenaFree s.arena pointer).2 = s.arena := by
  refine ⟨fun size alignment arena memory hcall => ?_,
    fun size alignment pointer arena memory hcall address hle hlt => ?_, fun pointer hrefused => ?_⟩
  · rcases dmaArenaAllocate_spec h.valid s.memory size alignment with
      ⟨arena', hspec, harena⟩ | ⟨pointer, arena', memory', block, hspec, -⟩
    · rw [hspec] at hcall
      cases hcall
      exact ⟨rfl, harena⟩
    · rw [hspec] at hcall
      cases hcall
  · rcases dmaArenaAllocate_spec h.valid s.memory size alignment with
      ⟨arena', hspec, -⟩ | ⟨pointer', arena', memory', block, hspec, hvalid, hgrant⟩
    · rw [hspec] at hcall
      cases hcall
    · rw [hspec] at hcall
      cases hcall
      have howns := h.grant hvalid hgrant
      obtain ⟨xs, ys, -, hnew⟩ := hgrant.used
      have hblock : block ∈ usedBlocks arena.blocks := by simp [hnew]
      have hsize := howns.size_of_live hblock
      simp only [hgrant.base_eq, ← hgrant.pointer_eq] at hsize
      rw [hsize] at hlt
      exact hgrant.zeroed address hle hlt
  · rcases dmaArenaFree_spec h.valid pointer with
      ⟨block, -, -, arena', hcall, -⟩ | ⟨-, status, -, hcall⟩
    · exact absurd (by rw [hcall]) hrefused
    · rw [hcall]

omit h

theorem owns_session {foundation : Foundation} {cold arena : Arena} {before memory : Memory}
    {pageCount : ℕ} (h : dmaArenaCreate foundation cold before pageCount = (.ok, arena, memory))
    (calls : List Call) : Owns (session arena memory calls) := by
  obtain ⟨hvalid, hnone⟩ := dmaArenaCreate_ok h
  have hinitial : Owns { arena := arena, memory := memory, live := [] } :=
    ⟨hvalid, nodup_nil, by simp, by simp, by simp [hnone]⟩
  exact hinitial.run calls

/-- Along every run of a created arena its own check passes; the live allocations are
pairwise disjoint, inside the arena and as large as asked for, and they are aligned
as asked for if every alignment of the run is zero, a power of two or at least the
minimum; no two neighbours are free; a refused call changes no block and no byte
count; what is returned is zeroed; a release succeeds exactly for the live pointers;
and with nothing live the arena is one free block. -/
theorem arena_of_run (foundation : Foundation) (cold arena : Arena) (before memory : Memory)
    (pageCount : ℕ) (calls : List Call)
    (h : dmaArenaCreate foundation cold before pageCount = (.ok, arena, memory)) :
    let s := session arena memory calls
    dmaArenaVerify s.arena = .ok ∧
    (s.live.Pairwise fun a b =>
      a.pointer + dmaArenaAllocationSize s.arena a.pointer ≤ b.pointer ∨
        b.pointer + dmaArenaAllocationSize s.arena b.pointer ≤ a.pointer) ∧
    (∀ g ∈ s.live, s.arena.base ≤ g.pointer ∧
      g.pointer + dmaArenaAllocationSize s.arena g.pointer ≤ s.arena.base + s.arena.size ∧
      g.size ≤ dmaArenaAllocationSize s.arena g.pointer) ∧
    ((∀ size alignment, Call.allocate size alignment ∈ calls → Honoured alignment) →
      ∀ g ∈ s.live, g.Aligned) ∧
    (s.arena.blocks.IsChain fun a b => ¬ (a.used = false ∧ b.used = false)) ∧
    (∀ size alignment arena' memory',
      dmaArenaAllocate s.arena s.memory size alignment = (none, arena', memory') →
        memory' = s.memory ∧ (arena' = s.arena ∨ arena' = countFailure s.arena)) ∧
    (∀ size alignment pointer arena' memory',
      dmaArenaAllocate s.arena s.memory size alignment = (some pointer, arena', memory') →
        ∀ address, pointer ≤ address →
          address < pointer + dmaArenaAllocationSize arena' pointer → memory' address = 0) ∧
    (∀ pointer, (dmaArenaFree s.arena pointer).1 ≠ .ok →
      (dmaArenaFree s.arena pointer).2 = s.arena) ∧
    (∀ pointer, (dmaArenaFree s.arena pointer).1 = .ok ↔ ∃ g ∈ s.live, g.pointer = pointer) ∧
    (s.live = [] → s.arena.blocks = [{ offset := 0, size := s.arena.size, used := false }]) := by
  intro s
  have howns : Owns s := owns_session h calls
  obtain ⟨hrefused, hzeroed, hkept⟩ := howns.calls
  refine ⟨howns.valid.verify, howns.disjoint, fun g hg => howns.bounds hg,
    fun hhonoured g hg => ?_, howns.valid.laid.spaced.imp fun _ _ => Spaced.not_free, hrefused,
    hzeroed, hkept, howns.free_iff, howns.single⟩
  rcases alignment_of_live hg with hnone | ⟨size, hcall⟩
  · cases hnone
  · exact dvd_of_honoured (hhonoured size _ hcall) (howns.raised g hg)

/-- A foundation that grants every request at one mebibyte, for arenas that are not
too large. -/
def sampleFoundation : Foundation where
  dmaAllocate pageCount :=
    if h : 0x100000 + pageCount * pageSize < 2 ^ 64 then
      some { cpuAddress := 0x100000, notNull := by decide, within := h }
    else none
  dmaMarkInitialized := true
  dmaTransferToDevice := true

def coldArena : Arena :=
  { base := 0, size := 0, allocatedBytes := 0, peakBytes := 0, failedAllocations := 0,
    liveAllocations := 0, blocks := [], active := false }

def sampleArena : Arena := (dmaArenaCreate sampleFoundation coldArena (fun _ => 7) 2).2.1

def sampleMemory : Memory := (dmaArenaCreate sampleFoundation coldArena (fun _ => 7) 2).2.2

def sampleCalls : List Call :=
  [.allocate 100 16, .allocate 100 16, .allocate 64 1024, .free 0x100000]

theorem arena_of_sampleCalls :
    dmaArenaCreate sampleFoundation coldArena (fun _ => 7) 2 = (.ok, sampleArena, sampleMemory) ∧
      (session sampleArena sampleMemory sampleCalls).live =
        [{ pointer := 0x100400, size := 64, alignment := 1024 },
          { pointer := 0x100070, size := 100, alignment := 16 }] ∧
      ∀ g ∈ (session sampleArena sampleMemory sampleCalls).live, g.Aligned :=
  ⟨rfl, by decide +kernel,
    (arena_of_run sampleFoundation coldArena sampleArena (fun _ => 7) sampleMemory 2 sampleCalls
      rfl).2.2.2.1 fun size alignment hcall => by
        simp only [sampleCalls, mem_cons, Call.allocate.injEq, reduceCtorEq, not_mem_nil,
          or_false] at hcall
        exact .inr (.inr (by rw [minimumAlignment]; omega))⟩

/-- An allocation aligned to three is returned at an address that is no multiple of
three. -/
theorem arena_alignment_three :
    dmaArenaCreate sampleFoundation coldArena (fun _ => 7) 2 = (.ok, sampleArena, sampleMemory) ∧
      (dmaArenaAllocate sampleArena sampleMemory 16 3).1 = some 0x100000 ∧
      ¬ 3 ∣ 0x100000 ∧
      ¬ ∀ g ∈ (session sampleArena sampleMemory [.allocate 16 3]).live, g.Aligned := by
  exact ⟨rfl, by decide +kernel, by decide, by decide +kernel⟩

end OpenRFS.DmaArena
