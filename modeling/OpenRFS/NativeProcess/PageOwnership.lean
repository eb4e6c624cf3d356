import OpenRFS.NativeProcess.LifecycleSpecs

/-!
# Processes that share the memory

Any number of processes are loaded, make system calls and are cleaned up, in any order.
After every step the records of all processes account for the memory: `World.Sound` is
an invariant of every run, and `World.Accounted` spells out what it says of the page
tables, of the private frames and of the cache of shared code.
-/

namespace OpenRFS.NativeProcess

open Paging Multiset Function

structure Manifest where
  memoryLimit : ℕ
  maxThreads : ℕ
  capabilities : UInt64
  mappingStart : ℕ
  mappingEnd : ℕ

inductive PageEvent where
  | spawn (manifest : Manifest)
  | imagePage (virtualAddress : ℕ) (permissions : UInt32) (frame : Option ℕ)
  | sharedCode (virtualAddress : ℕ) (key : CodeKey) (same : Bool) (frame : Option ℕ)
  | mainTls (pageCount : ℕ) (frame : ℕ → Option ℕ)
  | mainStack (frame : ℕ → Option ℕ)
  | finishLoad (spaceBuilt : Bool) (maps : ℕ → Bool) (validated : Bool)
  | memoryMap (input : MapInput)
  | memoryUnmap (address length : UInt64)
  | threadCreate (input : ThreadInput)
  | cleanup (blocked : Bool)

/-- `native_process_spawn` takes a slot that is not in use. -/
def Process.spawn (p : Process) (manifest : Manifest) : Process :=
  if p.pages = [] ∧ p.threadCount = 0 then
    { Process.zero with
      memoryLimit := manifest.memoryLimit
      maxThreads := manifest.maxThreads
      capabilities := manifest.capabilities
      mappingStart := manifest.mappingStart
      mappingEnd := manifest.mappingEnd }
  else p

def State.loading (s : State) (step : State → State) : State :=
  if s.process.threadCount = 0 then step s else s

def State.running (s : State) (step : State → State) : State :=
  if s.process.threadCount = 0 then s else step s

def State.apply (s : State) : PageEvent → State
  | .spawn manifest => ⟨s.memory, s.process.spawn manifest⟩
  | .imagePage va permissions frame =>
    s.loading fun s => (s.allocatePage va permissions .nativeImage frame).2
  | .sharedCode va key same frame =>
    s.loading fun s => (s.acquireSharedCodePage va key same frame).2
  | .mainTls pageCount frame => s.loading fun s => (s.prepareMainTls pageCount frame).2
  | .mainStack frame => s.loading fun s => (s.prepareMainStack frame).2
  | .finishLoad spaceBuilt maps validated =>
    s.loading fun s => s.finishLoad spaceBuilt maps validated
  | .memoryMap input => s.running fun s => (s.memoryMap input).2
  | .memoryUnmap address length =>
    s.running fun s => (s.memoryUnmap address.toNat length.toNat).2
  | .threadCreate input => s.running fun s => (s.threadCreate input).2
  | .cleanup blocked => (s.cleanup blocked).2

/-- What one process keeps, with the holds of the others. -/
def State.Kept (others : Multiset Hold) (s : State) : Prop := s.Sound others ∧ s.process.Settled

variable {s : State} {others : Multiset Hold}

theorem kept_empty {p : Process} (hpages : p.pages = []) (hleaves : p.leaves = fun _ => none)
    {m : Memory} (h : Balanced m others) : State.Kept others ⟨m, p⟩ := by
  have hnone : ∀ page, page ∉ p.pages := fun page hmem => by
    rw [hpages] at hmem
    exact absurd hmem List.not_mem_nil
  refine ⟨⟨.of_empty hpages hleaves, ?_⟩, fun _ page hpage => absurd hpage (hnone page),
    fun page hpage => absurd hpage (hnone page)⟩
  rw [Process.holds, hpages, coe_nil, map_zero, zero_add]
  exact h

section Kept

variable (h : s.Kept others)
include h

theorem State.Kept.spawn (manifest : Manifest) :
    State.Kept others ⟨s.memory, s.process.spawn manifest⟩ := by
  unfold Process.spawn
  split_ifs with hfree
  · refine kept_empty rfl rfl ?_
    have hbalanced := h.1.balanced
    rwa [Process.holds, hfree.1, coe_nil, map_zero, zero_add] at hbalanced
  · exact h

theorem State.Kept.loading {step : State → State}
    (hstep : s.process.threadCount = 0 → (step s).Kept others) : (s.loading step).Kept others := by
  unfold State.loading
  split_ifs with hloading
  · exact hstep hloading
  · exact h

theorem State.Kept.running {step : State → State}
    (hstep : s.process.threadCount ≠ 0 → (step s).Kept others) : (s.running step).Kept others := by
  unfold State.running
  split_ifs with hloading
  · exact h
  · exact hstep hloading

theorem State.Kept.memoryMap (input : MapInput) : (s.memoryMap input).2.Kept others := by
  rcases memoryMap_cases h.1 input with ⟨request, base, s', -, hmap, hmapped⟩ | ⟨e, hmap⟩
  · rw [hmap]
    obtain ⟨frames, hgrown⟩ := hmapped.pages
    refine ⟨hmapped.sound, h.2.grow hgrown (fun _ page hpage => ?_) fun page hpage hkind => ?_⟩
    · obtain ⟨j, -, rfl⟩ := mem_built.mp hpage
      rfl
    · obtain ⟨j, -, rfl⟩ := mem_built.mp hpage
      cases hkind
  · rw [hmap]
    exact h

theorem State.Kept.memoryUnmap (address length : UInt64) :
    (s.memoryUnmap address.toNat length.toNat).2.Kept others := by
  rcases memoryUnmap_cases h.1 address.toNat_lt length.toNat with
    ⟨-, s', hunmap, hswept⟩ | ⟨-, e, hunmap⟩
  · rw [hunmap]
    exact ⟨hswept.sound, h.2.sweep hswept⟩
  · rw [hunmap]
    exact h

theorem State.Kept.threadCreate (hloaded : s.process.threadCount ≠ 0)
    (input : ThreadInput) : (s.threadCreate input).2.Kept others := by
  rcases threadCreate_cases h.1 h.2 hloaded input with
    ⟨handle, s', hcreate, hsound, hsettled⟩ | ⟨e, hcreate⟩
  · rw [hcreate]
    exact ⟨hsound, hsettled⟩
  · rw [hcreate]
    exact h

theorem State.Kept.cleanup (blocked : Bool) : (s.cleanup blocked).2.Kept others := by
  cases blocked with
  | true => exact h
  | false =>
    obtain ⟨m, hcleanup, hbalanced⟩ := cleanup_eq h.1
    rw [hcleanup]
    exact kept_empty rfl rfl hbalanced

theorem State.Kept.apply (event : PageEvent) : (s.apply event).Kept others := by
  cases event with
  | spawn manifest => exact h.spawn manifest
  | imagePage va permissions frame =>
    rw [State.apply]
    refine h.loading fun hloading => ?_
    obtain ⟨hsound, hsettled, -⟩ := settled_allocatePage h.1 h.2 hloading va permissions
      .nativeImage frame nofun
    exact ⟨hsound, hsettled⟩
  | sharedCode va key same frame =>
    rw [State.apply]
    exact h.loading fun hloading =>
      settled_acquireSharedCodePage h.1 h.2 hloading va key same frame
  | mainTls pageCount frame =>
    rw [State.apply]
    refine h.loading fun hloading => ?_
    obtain ⟨hsound, hsettled, -⟩ := settled_prepareMainTls h.1 h.2 hloading pageCount frame
    exact ⟨hsound, hsettled⟩
  | mainStack frame =>
    rw [State.apply]
    refine h.loading fun hloading => ?_
    obtain ⟨hsound, hsettled, -⟩ := settled_prepareMainStack h.1 h.2 hloading frame
    exact ⟨hsound, hsettled⟩
  | finishLoad spaceBuilt maps validated =>
    rw [State.apply]
    exact h.loading fun hloading => settled_finishLoad h.1 h.2 hloading spaceBuilt maps validated
  | memoryMap input =>
    rw [State.apply]
    exact h.running fun _ => h.memoryMap input
  | memoryUnmap address length =>
    rw [State.apply]
    exact h.running fun _ => h.memoryUnmap address length
  | threadCreate input =>
    rw [State.apply]
    exact h.running fun hloaded => h.threadCreate hloaded input
  | cleanup blocked => exact h.cleanup blocked

end Kept

/-! ### All processes -/

variable {ι : Type}

structure World (ι : Type) where
  memory : Memory
  process : ι → Process

def World.zero : World ι := ⟨.zero, fun _ => .zero⟩

def World.at (w : World ι) (i : ι) : State := ⟨w.memory, w.process i⟩

def World.step [DecidableEq ι] (w : World ι) (i : ι) (event : PageEvent) : World ι :=
  ⟨((w.at i).apply event).memory, Function.update w.process i ((w.at i).apply event).process⟩

def World.run [DecidableEq ι] (w : World ι) (events : List (ι × PageEvent)) : World ι :=
  events.foldl (fun w e => w.step e.1 e.2) w

def World.holds [Fintype ι] (w : World ι) : Multiset Hold := ∑ i, (w.process i).holds

/-- What the processes other than `i` hold. -/
def World.rest [Fintype ι] [DecidableEq ι] (w : World ι) (i : ι) : Multiset Hold :=
  ∑ j ∈ Finset.univ.erase i, (w.process j).holds

theorem World.holds_eq [Fintype ι] [DecidableEq ι] (w : World ι) (i : ι) : (w.process i).holds + w.rest i = w.holds :=
  Finset.add_sum_erase Finset.univ (fun j => (w.process j).holds) (Finset.mem_univ i)

structure World.Sound [Fintype ι] (w : World ι) : Prop where
  wf : ∀ i, (w.process i).Wf
  settled : ∀ i, (w.process i).Settled
  balanced : Balanced w.memory w.holds

variable {w : World ι}

theorem World.Sound.kept [Fintype ι] [DecidableEq ι] (h : w.Sound) (i : ι) :
    (w.at i).Kept (w.rest i) := by
  refine ⟨⟨h.wf i, ?_⟩, h.settled i⟩
  show Balanced w.memory ((w.process i).holds + w.rest i)
  rw [w.holds_eq i]
  exact h.balanced

open World

theorem World.Sound.step [Fintype ι] [DecidableEq ι] (h : w.Sound) (i : ι) (event : PageEvent) :
    (w.step i event).Sound := by
  obtain ⟨hsound, hsettled⟩ := (h.kept i).apply event
  have hothers : (w.step i event).rest i = w.rest i := by
    refine Finset.sum_congr rfl fun j hj => ?_
    show (update w.process i _ j).holds = _
    rw [update_of_ne (Finset.ne_of_mem_erase hj)]
  have hself : (w.step i event).process i = ((w.at i).apply event).process := update_self ..
  have hother : ∀ j ≠ i, (w.step i event).process j = w.process j := fun j hj =>
    update_of_ne hj ..
  refine ⟨fun j => ?_, fun j => ?_, ?_⟩
  · by_cases hj : j = i
    · rw [hj, hself]
      exact hsound.wf
    · rw [hother j hj]
      exact h.wf j
  · by_cases hj : j = i
    · rw [hj, hself]
      exact hsettled
    · rw [hother j hj]
      exact h.settled j
  · rw [← holds_eq _ i, hself, hothers]
    exact hsound.balanced

theorem World.sound_zero [Fintype ι] : (zero : World ι).Sound where
  wf _ := .of_empty rfl rfl
  settled _ := ⟨fun _ _ hpage => absurd hpage List.not_mem_nil,
    fun _ hpage => absurd hpage List.not_mem_nil⟩
  balanced := by
    have hholds : (zero : World ι).holds = 0 := Finset.sum_eq_zero fun _ _ => rfl
    rw [hholds]
    exact Balanced.zero

theorem World.Sound.run [Fintype ι] [DecidableEq ι] (h : w.Sound) (events : List (ι × PageEvent)) :
    (w.run events).Sound := by
  induction events generalizing w with
  | nil => exact h
  | cons e events ih => exact ih (h.step e.1 e.2)

/-! ### What the invariant says -/

def World.records [Fintype ι] (w : World ι) : Multiset (ι × NativePage) :=
  Finset.univ.val.bind fun i => ((w.process i).pages : Multiset NativePage).map (Prod.mk i)

theorem World.mem_records [Fintype ι] {i : ι} {page : NativePage} :
    (i, page) ∈ w.records ↔ page ∈ (w.process i).pages := by
  simp [records, mem_bind]

theorem World.holds_eq_map [Fintype ι] (w : World ι) :
    w.holds = w.records.map fun r => r.2.hold := by
  rw [records, map_bind]
  simp only [map_map, comp_def]
  rfl

theorem World.Sound.owner_unique [Fintype ι] (h : w.Sound) {i j : ι} {page page' : NativePage}
    (hpage : page ∈ (w.process i).pages) (hpage' : page' ∈ (w.process j).pages)
    (hprivate : page.sharedCodeSlot = none) (hprivate' : page'.sharedCodeSlot = none)
    (hframe : page.physicalAddress = page'.physicalAddress) : i = j ∧ page = page' := by
  have hnodup : (w.records.bind fun r => r.2.hold.own).Nodup := by
    have hframes := w.memory.frames.nodup
    rw [h.balanced.owned, w.holds_eq_map, bind_map] at hframes
    exact nodup_of_le (le_add_right _ _) hframes
  by_contra hne
  have hpair : ((i, page) : ι × NativePage) ≠ (j, page') := fun heq =>
    hne ⟨congrArg Prod.fst heq, congrArg Prod.snd heq⟩
  -- two records that own one frame would list it twice
  obtain ⟨l, hl, hpairwise⟩ := (nodup_bind.mp hnodup).2
  have hmem := mem_records.mpr hpage
  have hmem' := mem_records.mpr hpage'
  rw [hl, mem_coe] at hmem hmem'
  have hdisjoint : Disjoint page.hold.own page'.hold.own := hpairwise.forall hmem hmem' hpair
  have hown : ∀ {q : NativePage}, q.sharedCodeSlot = none → q.hold.own = {q.physicalAddress} :=
    fun hq => by rw [NativePage.hold, hq, Hold.own_private]
  rw [hown hprivate, hown hprivate', hframe] at hdisjoint
  exact disjoint_left.mp hdisjoint (mem_singleton_self _)
    (mem_singleton_self _)

/-- The page tables, the private frames and the cache of shared code are accounted for. -/
structure World.Accounted [Fintype ι] (w : World ι) : Prop where
  sorted : ∀ i, (w.process i).pages.Pairwise fun a b => a.virtualAddress < b.virtualAddress
  mapped : ∀ i, ∀ page ∈ (w.process i).pages, page.mapped = true ↔
    (w.process i).leaves page.virtualAddress = some ⟨page.physicalAddress, page.permissions⟩
  recorded : ∀ i va leaf, (w.process i).leaves va = some leaf →
    ∃ page ∈ (w.process i).pages, page.virtualAddress = va
  limit : ∀ i, (w.process i).pages.length * pageSize ≤ (w.process i).memoryLimit
  owner : ∀ i j, ∀ page ∈ (w.process i).pages, ∀ page' ∈ (w.process j).pages,
    page.sharedCodeSlot = none → page'.sharedCodeSlot = none →
      page.physicalAddress = page'.physicalAddress → i = j ∧ page = page'
  frames : ∀ frame, frame ∈ w.memory.frames ↔
    (∃ i, ∃ page ∈ (w.process i).pages, page.sharedCodeSlot = none ∧ page.physicalAddress = frame) ∨
      ∃ slot key entry, w.memory.cache slot = .live key entry ∧ entry.physicalAddress = frame
  references : ∀ slot key entry, w.memory.cache slot = .live key entry → entry.references =
      ∑ i, (w.process i).pages.countP fun page => decide (page.sharedCodeSlot = some slot)
  keys : ∀ slot slot' key entry entry', w.memory.cache slot = .live key entry →
    w.memory.cache slot' = .live key entry' → slot = slot'
  mapAtomic : ∀ i input e, ((w.at i).memoryMap input).1 = .error e →
    ((w.at i).memoryMap input).2 = w.at i
  threadAtomic : ∀ i input e, (w.process i).threadCount ≠ 0 →
    ((w.at i).threadCreate input).1 = .error e → ((w.at i).threadCreate input).2 = w.at i

theorem World.mem_own [Fintype ι] (w : World ι) {frame : ℕ} :
    frame ∈ w.holds.bind Hold.own ↔ ∃ i, ∃ page ∈ (w.process i).pages,
        page.sharedCodeSlot = none ∧ page.physicalAddress = frame := by
  rw [w.holds_eq_map, bind_map, mem_bind]
  constructor
  · rintro ⟨⟨i, page⟩, hmem, hown⟩
    obtain ⟨hprivate, hframe⟩ := Hold.mem_own.mp hown
    exact ⟨i, page, mem_records.mp hmem, hprivate, hframe.symm⟩
  · rintro ⟨i, page, hpage, hprivate, rfl⟩
    exact ⟨(i, page), mem_records.mpr hpage, Hold.mem_own.mpr ⟨hprivate, rfl⟩⟩

theorem World.countP_holds [Fintype ι] (w : World ι) (slot : Fin sharedCodeCacheCapacity) :
    w.holds.countP (Hold.names slot) =
      ∑ i, (w.process i).pages.countP fun page => decide (page.sharedCodeSlot = some slot) := by
  have hsum := map_sum (countPAddMonoidHom (Hold.names slot))
    (fun i => (w.process i).holds) Finset.univ
  refine hsum.trans (Finset.sum_congr rfl fun i _ => ?_)
  show (((w.process i).pages : Multiset NativePage).map NativePage.hold).countP _ = _
  rw [map_coe, coe_countP, List.countP_map]
  rfl

theorem World.Sound.accounted [Fintype ι] [DecidableEq ι] (h : w.Sound) : w.Accounted where
  sorted i := (h.wf i).sorted
  mapped i page hpage := by
    rw [(h.wf i).leaf]
    constructor
    · exact fun hmapped => ⟨page, hpage, rfl, hmapped, rfl⟩
    · rintro ⟨q, hq, hva, hmapped, -⟩
      rwa [(h.wf i).sorted.eq_of_key hpage hq hva.symm]
  recorded i va leaf hleaf := by
    obtain ⟨page, hpage, hva, -⟩ := (h.wf i).leaf.mp hleaf
    exact ⟨page, hpage, hva⟩
  limit i := (h.wf i).limit
  owner _ _ _ hpage _ hpage' hprivate hprivate' hframe :=
    h.owner_unique hpage hpage' hprivate hprivate' hframe
  frames frame := by
    rw [← Finset.mem_val, h.balanced.owned, mem_add, w.mem_own, mem_liveFrames]
  references slot key entry hlive := by
    rw [h.balanced.references hlive, w.countP_holds]
  keys _ _ _ _ _ hlive hlive' := h.balanced.probing.unique hlive hlive'
  mapAtomic i input e herror := by
    rcases memoryMap_cases (h.kept i).1 input with ⟨_, _, _, -, hmap, -⟩ | ⟨_, hmap⟩
    · rw [hmap] at herror
      cases herror
    · rw [hmap]
  threadAtomic i input e hloaded herror := by
    rcases threadCreate_cases (h.kept i).1 (h.kept i).2 hloaded input with
      ⟨_, _, hcreate, -⟩ | ⟨_, hcreate⟩
    · rw [hcreate] at herror
      cases herror
    · rw [hcreate]

/-- After any steps of any processes, with frames and leaves refused at any point, the
pages are accounted for. -/
theorem pages_accounted [Fintype ι] [DecidableEq ι] (events : List (ι × PageEvent)) :
    ((zero : World ι).run events).Accounted :=
  (sound_zero.run events).accounted

end OpenRFS.NativeProcess
