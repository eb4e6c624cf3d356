import OpenRFS.Frames.CallSpecs
import OpenRFS.Codec.Checked

/-!
# Runs of the frame allocator

`Valid` is the invariant of an initialized allocator: its counters agree with the
bitmaps, and the active records cover disjoint runs of frames in use. A run is
followed with the list of what was handed out and not given back yet; if only what
was handed out is given back, no two of these grants share a frame.
-/

namespace OpenRFS.Frames

open Codec List

variable {s s' : State} {h : Held}

structure Valid (s : State) : Prop where
  initialized : s.initialized = true
  counted : s.stats = recount s.eligible s.used
  bounded : ∀ r ∈ s.records, r.active = true →
    r.physicalBase.toNat / pageSize + r.pageCount.toNat ≤ frameCount
  backed : ∀ r ∈ s.records, r.active = true → ∀ f, r.Covers f →
    s.eligible f = true ∧ s.used f = true
  disjoint : ∀ (i j : ℕ) (r r' : ContiguousRecord), s.records[i]? = some r → s.records[j]? = some r' →
    i ≠ j → r.active = true → r'.active = true → ∀ f, ¬ (r.Covers f ∧ r'.Covers f)

variable {first count : ℕ}

theorem toNat_physicalBase (h : first ≤ frameCount) :
    (UInt64.ofNat (first * pageSize)).toNat = first * pageSize := by
  have hle : first * pageSize ≤ frameCount * pageSize := Nat.mul_le_mul_right _ h
  have hlt : frameCount * pageSize < 2 ^ 64 := by decide
  exact UInt64.toNat_ofNat_of_lt' (hle.trans_lt hlt)

theorem physicalBase_div (h : first ≤ frameCount) :
    (UInt64.ofNat (first * pageSize)).toNat / pageSize = first := by
  rw [toNat_physicalBase h]
  exact Nat.mul_div_cancel _ (by decide)

/-- Available frames may be taken. -/
theorem Valid.take (h : Valid s) (next : ℕ) (hbound : first + count ≤ frameCount)
    (hrun : ∀ f, first ≤ f → f < first + count → available s f) :
    Valid (s.take first count next) where
  initialized := h.initialized
  counted := by
    have hfree : ∀ f, first ≤ f → f < first + count → s.eligible f ∧ s.used f = false :=
      fun f hf hf' => by simpa [available] using hrun f hf hf'
    rw [State.take, recount_take hbound hfree, h.counted]
  bounded := h.bounded
  backed r hr hactive f hf := by
    obtain ⟨heligible, hused⟩ := h.backed r hr hactive f hf
    refine ⟨heligible, ?_⟩
    rw [State.used_take, hused]
    exact ite_self true
  disjoint := h.disjoint

/-- Frames in use outside of all active records may be given back. -/
theorem Valid.give (h : Valid s) (next : ℕ) (hbound : first + count ≤ frameCount)
    (hrun : ∀ f, first ≤ f → f < first + count → s.eligible f ∧ s.used f)
    (hfree : ∀ r ∈ s.records, r.active → ∀ f, first ≤ f → f < first + count → ¬ r.Covers f) :
    Valid (s.give first count next) where
  initialized := h.initialized
  counted := by rw [State.give, recount_give hbound hrun, h.counted]
  bounded := h.bounded
  backed r hr hactive f hf := by
    obtain ⟨heligible, hused⟩ := h.backed r hr hactive f hf
    refine ⟨heligible, ?_⟩
    rw [State.used_give, if_neg, hused]
    exact fun hin => hfree r hr hactive f hin.1 hin.2 hf
  disjoint := h.disjoint

/-- A record may be replaced by one that covers frames in use that no other active
record covers. -/
theorem Valid.setRecord (h : Valid s) (index : ℕ) (record : ContiguousRecord) (identifier : UInt64)
    (hbound : record.active →
      record.physicalBase.toNat / pageSize + record.pageCount.toNat ≤ frameCount)
    (hbacked : record.active → ∀ f, record.Covers f → s.eligible f ∧ s.used f)
    (hdisjoint : record.active → ∀ (j : ℕ) (r : ContiguousRecord), s.records[j]? = some r →
      j ≠ index → r.active → ∀ f, ¬ (record.Covers f ∧ r.Covers f)) :
    Valid { s with records := s.records.set index record, nextIdentifier := identifier } where
  initialized := h.initialized
  counted := h.counted
  bounded r hr hactive := by
    rcases mem_or_eq_of_mem_set hr with hr | rfl
    · exact h.bounded r hr hactive
    · exact hbound hactive
  backed r hr hactive := by
    rcases mem_or_eq_of_mem_set hr with hr | rfl
    · exact h.backed r hr hactive
    · exact hbacked hactive
  disjoint i j r r' hi hj hne hr hr' f := by
    rw [getElem?_set] at hi hj
    by_cases hii : index = i
    · rw [if_neg fun heq => hne (hii.symm.trans heq)] at hj
      split_ifs at hi
      cases hi
      exact hdisjoint hr j r' hj (fun heq => hne (hii.symm.trans heq.symm)) hr' f
    · rw [if_neg hii] at hi
      by_cases hjj : index = j
      · rw [if_pos hjj] at hj
        split_ifs at hj
        cases hj
        rw [and_comm]
        exact hdisjoint hr' i r hi (fun heq => hne (heq.trans hjj)) hr f
      · rw [if_neg hjj] at hj
        exact h.disjoint i j r r' hi hj hne hr hr' f

theorem Valid.freeFrames_eq_zero (h : Valid s) :
    s.stats.freeFrames = 0 ↔ ∀ f < frameCount, available s f = false := by
  rw [h.counted, recount_eq, ← not_iff_not, ← ne_eq, Nat.count_ne_iff_exists]
  simp [available]

section Reserve

variable {past : ℕ} (hrange : ∀ f, first ≤ f → f < past → ¬ (s.eligible f ∧ s.used f))

include hrange

/-- Frames in use are left to their owners. -/
theorem used_recomputeStats {f : ℕ} (h : s.eligible f ∧ s.used f) :
    (recomputeStats (markReservedFrames s first past)).eligible f ∧
      (recomputeStats (markReservedFrames s first past)).used f := by
  have hout : ¬ (first ≤ f ∧ f < past) := fun hin => hrange f hin.1 hin.2 h
  change (markReservedFrames s first past).eligible f ∧ (markReservedFrames s first past).used f
  rwa [eligible_markReservedFrames, used_markReservedFrames, if_neg hout, if_neg hout]

/-- A range in which nothing is in use may be reserved. -/
theorem Valid.reserve (h : Valid s) : Valid (recomputeStats (markReservedFrames s first past)) where
  initialized := h.initialized
  counted := by rw [recomputeStats]
  bounded := h.bounded
  backed r hr hactive f hf := used_recomputeStats hrange (h.backed r hr hactive f hf)
  disjoint := h.disjoint

end Reserve

/-! ### Runs -/

inductive Call
  | allocate
  | release (physicalAddress : UInt64)
  | allocateContiguous (request : ContiguousRequest)
  | releaseContiguous (allocation : ContiguousAllocation)
  | reserveRange (base length : UInt64)

def statusOf {α : Type} : Except Status α → Status
  | .ok _ => .ok
  | .error status => status

def outcome (s : State) : Call → Status × State
  | .allocate => (statusOf (frameAllocate s).1, (frameAllocate s).2)
  | .release physicalAddress => frameRelease s physicalAddress
  | .allocateContiguous request =>
    (statusOf (frameAllocateContiguous s request).1, (frameAllocateContiguous s request).2)
  | .releaseContiguous allocation => frameReleaseContiguous s allocation
  | .reserveRange base length => frameReserveRange s base length

def run (s : State) (calls : List Call) : State :=
  calls.foldl (fun s call => (outcome s call).2) s

/-! ### Initialization -/

theorem foldlM_keeps {α : Type} {P : State → Prop} {f : State → α → Except Status State}
    (hstep : ∀ s a s', P s → f s a = .ok s' → P s') {l : List α} (hs : P s)
    (h : l.foldlM f s = .ok s') : P s' := by
  induction l generalizing s with
  | nil =>
    cases h
    exact hs
  | cons a l ih =>
    obtain ⟨s₁, ha, h⟩ := bind_eq_ok.mp (foldlM_cons.symm.trans h)
    exact ih (hstep s a s₁ hs ha) h

theorem reserveInternal_records {base length : UInt64}
    (h : reserveInternal s base length = .ok s') : s'.records = s.records := by
  obtain ⟨bounds, -, h⟩ := bind_eq_ok.mp h
  cases h
  rfl

theorem applyRegion_records {pass : Bool} {region : BootMemoryRegion}
    (h : applyRegion pass s region = .ok s') : s'.records = s.records := by
  simp only [applyRegion] at h
  split_ifs at h with hpass havailable
  · cases h
    rfl
  · obtain ⟨bounds, -, h⟩ := bind_eq_ok.mp h
    cases h
    rfl
  · split at h
    · cases h
      rfl
    · cases h
    · cases h
      rfl

theorem applyMemoryMap_records {memoryMap : List BootMemoryRegion}
    (h : applyMemoryMap s memoryMap = .ok s') : s'.records = s.records := by
  obtain ⟨s₁, hfirst, hsecond⟩ := bind_eq_ok.mp h
  have hkeeps : ∀ pass (t : State) (region : BootMemoryRegion) (t' : State),
      t.records = s.records → applyRegion pass t region = .ok t' → t'.records = s.records :=
    fun pass t region t' ht h => (applyRegion_records h).trans ht
  exact foldlM_keeps (hkeeps false) (foldlM_keeps (hkeeps true) rfl hfirst) hsecond

theorem applyBootInformation_records {boot : BootInformation}
    (h : applyBootInformation s boot = .ok s') : s'.records = (resetState s).records := by
  obtain ⟨s₁, hmap, h⟩ := bind_eq_ok.mp h
  obtain ⟨s₂, hlow, h⟩ := bind_eq_ok.mp h
  split_ifs at h with hkernel
  obtain ⟨s₃, hkernel, h⟩ := bind_eq_ok.mp h
  rw [reserveInternal_records h, reserveInternal_records hkernel, reserveInternal_records hlow,
    applyMemoryMap_records hmap]

theorem frameAllocatorInitialize_valid {cold s : State} {boot : BootInformation}
    (h : frameAllocatorInitialize cold boot = .ok s) : Valid s := by
  obtain ⟨s₁, hboot, h⟩ := bind_eq_ok.mp h
  have hidle : ∀ r ∈ s₁.records, ¬ r.active := by
    rw [applyBootInformation_records hboot]
    intro r hr
    rw [eq_of_mem_replicate hr]
    nofun
  have hcounted : (recomputeStats s₁).stats =
      recount (recomputeStats s₁).eligible (recomputeStats s₁).used := by rw [recomputeStats]
  have hrecords : (recomputeStats s₁).records = s₁.records := by rw [recomputeStats]
  generalize recomputeStats s₁ = s₂ at h hcounted hrecords
  rw [← hrecords] at hidle
  dsimp only at h
  split_ifs at h with hfree
  cases h
  exact ⟨rfl, hcounted, fun r hr hactive => absurd hactive (hidle r hr),
    fun r hr hactive => absurd hactive (hidle r hr),
    fun i j r r' hi _ _ hactive => absurd hactive (hidle r (mem_of_getElem? hi))⟩

/-! ### Grants -/

structure Grant where
  contiguous : Bool
  first : ℕ
  count : ℕ
  deriving DecidableEq, Repr

def Grant.Covers (g : Grant) (f : ℕ) : Prop := g.first ≤ f ∧ f < g.first + g.count

def granted (s : State) : Call → Option Grant
  | .allocate =>
    match (frameAllocate s).1 with
    | .ok address => some ⟨false, address.toNat / pageSize, 1⟩
    | .error _ => none
  | .allocateContiguous request =>
    match (frameAllocateContiguous s request).1 with
    | .ok a => some ⟨true, a.physicalBase.toNat / pageSize, a.pageCount.toNat⟩
    | .error _ => none
  | _ => none

def returned (s : State) : Call → Option Grant
  | .release address =>
    if (frameRelease s address).1 = .ok then some ⟨false, address.toNat / pageSize, 1⟩ else none
  | .releaseContiguous a =>
    if (frameReleaseContiguous s a).1 = .ok then
      some ⟨true, a.physicalBase.toNat / pageSize, a.pageCount.toNat⟩
    else none
  | _ => none

theorem used_take_iff {f : ℕ} (n : ℕ) :
    (s.take first count n).used f ↔ (first ≤ f ∧ f < first + count) ∨ s.used f := by
  rw [State.used_take]
  split_ifs with hin <;> simp [hin]

theorem used_give_iff {f : ℕ} (n : ℕ) :
    (s.give first count n).used f ↔ ¬ (first ≤ f ∧ f < first + count) ∧ s.used f := by
  rw [State.used_give]
  split_ifs with hin <;> simp [hin]

theorem available_take {f : ℕ} (n : ℕ) :
    available (s.take first count n) f ↔ available s f ∧ ¬ (first ≤ f ∧ f < first + count) := by
  rw [available, State.used_take]
  by_cases hin : first ≤ f ∧ f < first + count <;> simp [hin, available, State.take]

theorem available_give {f : ℕ} (n : ℕ) : available (s.give first count n) f ↔
    s.eligible f ∧ (first ≤ f ∧ f < first + count) ∨ available s f := by
  rw [available, State.used_give]
  by_cases hin : first ≤ f ∧ f < first + count <;> simp +contextual [hin, available, State.give]

/-- What a call does to the frames. It is refused, it hands out available frames, it takes
some back, or it takes frames that are not handed out away from the allocator. -/
inductive Effect (s : State) : Status × State → Option Grant → Option Grant → Prop
  | refused {status : Status} : Effect s (status, s) none none
  | takes {s' : State} {g : Grant} (run : ∀ f, g.Covers f → available s f = true)
      (eligible : s'.eligible = s.eligible)
      (used : ∀ f, s'.used f = true ↔ g.Covers f ∨ s.used f = true) : Effect s (.ok, s') (some g) none
  | gives {s' : State} {g : Grant} (eligible : s'.eligible = s.eligible)
      (used : ∀ f, s'.used f = true ↔ ¬ g.Covers f ∧ s.used f = true) :
      Effect s (.ok, s') none (some g)
  | reserves {s' : State} (eligible : ∀ f, s'.eligible f = true → s.eligible f = true)
      (kept : ∀ f, s.eligible f = true ∧ s.used f = true → s'.eligible f = true ∧ s'.used f = true) :
      Effect s (.ok, s') none none

theorem Valid.allocate (h : Valid s) : Valid (outcome s .allocate).2 ∧
    Effect s (outcome s .allocate) (granted s .allocate) (returned s .allocate) := by
  rcases frameAllocate_cases s with ⟨status, heq⟩ | ⟨f, next, hlt, havailable, heq⟩
  · simp only [outcome, granted, returned, heq]
    exact ⟨h, .refused⟩
  · simp only [outcome, granted, returned, heq, physicalBase_div hlt.le]
    have hrun : ∀ k, f ≤ k → k < f + 1 → available s k := by
      intro k hk hk'
      rwa [le_antisymm (Nat.lt_succ_iff.mp hk') hk]
    exact ⟨h.take next hlt hrun,
      .takes (fun k hk => hrun k hk.1 hk.2) rfl fun k => used_take_iff next⟩

theorem Valid.release (h : Valid s) (p : UInt64) : Valid (outcome s (.release p)).2 ∧
    Effect s (outcome s (.release p)) (granted s (.release p)) (returned s (.release p)) := by
  rcases frameRelease_cases s p with
    ⟨status, hne, heq⟩ | ⟨next, -, hlt, heligible, hused, hrecord, heq⟩
  · simp only [outcome, granted, returned, heq, if_neg hne]
    exact ⟨h, .refused⟩
  · simp only [outcome, granted, returned, heq, if_true]
    refine ⟨h.give next hlt (fun k hk hk' => ?_) fun r hr hactive k hk hk' hcovers => ?_,
      .gives rfl fun k => used_give_iff next⟩
    · rw [le_antisymm (Nat.lt_succ_iff.mp hk') hk]
      exact ⟨heligible, hused⟩
    · rw [le_antisymm (Nat.lt_succ_iff.mp hk') hk] at hcovers
      rw [frameInContiguousAllocation_iff.mpr ⟨r, hr, hactive, hcovers⟩] at hrecord
      cases hrecord

theorem Valid.allocateContiguous (h : Valid s) (request : ContiguousRequest) :
    Valid (outcome s (.allocateContiguous request)).2 ∧
      Effect s (outcome s (.allocateContiguous request)) (granted s (.allocateContiguous request))
        (returned s (.allocateContiguous request)) := by
  rcases frameAllocateContiguous_cases s request with
    ⟨status, heq, -⟩ |
    ⟨index, _, past, first, next, identifier, a, -, -, hcheck, hin, hrun, -, hplace, hcount, heq⟩
  · simp only [outcome, granted, returned, heq]
    exact ⟨h, .refused⟩
  · obtain ⟨hle, hmax⟩ := checkRequest_ok hcheck
    have hbound : first + request.pageCount.toNat ≤ frameCount := by omega
    replace hrun := (runAvailable_iff.mp hrun).2
    have hbase : (UInt64.ofNat (first * pageSize)).toNat / pageSize = first :=
      physicalBase_div (by omega)
    simp only [outcome, granted, returned, heq, hplace, hcount, hbase]
    refine ⟨(h.take next hbound hrun).setRecord index _ identifier (fun _ => ?_)
      (fun _ f hf => ?_) fun _ j r hj hne hactive f hf => ?_,
      .takes (fun k hk => hrun k hk.1 hk.2) rfl fun k => used_take_iff next⟩
    · rwa [hbase]
    · rw [ContiguousRecord.Covers, hbase] at hf
      have := hrun f hf.1 hf.2
      simp only [available, Bool.and_eq_true] at this
      exact ⟨this.1, by rw [State.used_take, if_pos hf]⟩
    · -- the frames of the run were not in use, those of the other records are
      obtain ⟨hnew, hold⟩ := hf
      rw [ContiguousRecord.Covers, hbase] at hnew
      have hfree := hrun f hnew.1 hnew.2
      have hused := (h.backed r (mem_of_getElem? hj) hactive f hold).2
      simp [available, hused] at hfree

theorem Valid.releaseContiguous (h : Valid s) (a : ContiguousAllocation) :
    Valid (outcome s (.releaseContiguous a)).2 ∧
      Effect s (outcome s (.releaseContiguous a)) (granted s (.releaseContiguous a))
        (returned s (.releaseContiguous a)) := by
  rcases frameReleaseContiguous_cases s a with
    ⟨status, hne, heq⟩ | ⟨index, record, next, hindex, hactive, hbase, hcount, hused, heq⟩
  · simp only [outcome, granted, returned, heq, if_neg hne]
    exact ⟨h, .refused⟩
  · simp only [outcome, granted, returned, heq, if_true, ← hbase, ← hcount]
    have hidle : Valid { s with
        records := s.records.set index { record with active := false } } :=
      h.setRecord index { record with active := false } s.nextIdentifier (by simp) (by simp)
        (by simp)
    refine ⟨hidle.give next (h.bounded record (mem_of_getElem? hindex) hactive)
      (fun f hf hf' => hused f ⟨hf, hf'⟩) fun r hr hr' f hf hf' hcovers => ?_,
      .gives rfl fun k => used_give_iff next⟩
    obtain ⟨j, hj⟩ := mem_iff_getElem?.mp hr
    rw [getElem?_set] at hj
    split_ifs at hj with hij
    · cases hj
      cases hr'
    · exact h.disjoint index j record r hindex hj hij hactive hr' f ⟨⟨hf, hf'⟩, hcovers⟩

theorem Valid.reserveRange (h : Valid s) (base length : UInt64) :
    Valid (outcome s (.reserveRange base length)).2 ∧
      Effect s (outcome s (.reserveRange base length)) none none := by
  rcases frameReserveRange_cases s base length with
    ⟨status, -, heq⟩ | ⟨first, past, hrange, heq⟩
  · simp only [outcome, heq]
    exact ⟨h, .refused⟩
  · simp only [outcome, heq]
    refine ⟨h.reserve hrange, .reserves (fun f hf => ?_) fun f => used_recomputeStats hrange⟩
    change (markReservedFrames s first past).eligible f = true at hf
    rw [eligible_markReservedFrames] at hf
    split_ifs at hf
    exact hf

theorem Valid.call (h : Valid s) (call : Call) :
    Valid (outcome s call).2 ∧ Effect s (outcome s call) (granted s call) (returned s call) := by
  cases call with
  | allocate => exact h.allocate
  | release p => exact h.release p
  | allocateContiguous request => exact h.allocateContiguous request
  | releaseContiguous a => exact h.releaseContiguous a
  | reserveRange base length => exact h.reserveRange base length

theorem Effect.eligible {result : Status × State} {handed back : Option Grant}
    (h : Effect s result handed back) {f : ℕ} (hf : result.2.eligible f) :
    s.eligible f := by
  cases h with
  | refused => exact hf
  | takes run eligible used => exact eligible ▸ hf
  | gives eligible used => exact eligible ▸ hf
  | reserves eligible kept => exact eligible f hf

theorem Valid.run (h : Valid s) (calls : List Call) : Valid (run s calls) := by
  induction calls generalizing s with
  | nil => exact h
  | cons call calls ih => exact ih (h.call call).1

theorem Effect.same {result : Status × State} {handed back : Option Grant}
    (h : Effect s result handed back) (hne : result.1 ≠ .ok) : result.2 = s := by
  cases h with
  | refused => rfl
  | takes => exact absurd rfl hne
  | gives => exact absurd rfl hne
  | reserves => exact absurd rfl hne

structure Held where
  state : State
  grants : List Grant

def Held.step (h : Held) (call : Call) : Held where
  state := (outcome h.state call).2
  grants := (granted h.state call).toList ++
    (returned h.state call).elim h.grants fun g => h.grants.erase g

theorem Held.step_allocate {address : UInt64} (h : frameAllocate s = (.ok address, s'))
    (grants : List Grant) : ({ state := s, grants } : Held).step .allocate =
      { state := s', grants := ⟨false, address.toNat / pageSize, 1⟩ :: grants } := by
  simp only [Held.step, outcome, granted, returned, h, Option.toList_some, Option.elim_none,
    singleton_append]

theorem Held.step_release {address : UInt64} (h : frameRelease s address = (.ok, s'))
    (grants : List Grant) : ({ state := s, grants } : Held).step (.release address) =
      { state := s', grants := grants.erase ⟨false, address.toNat / pageSize, 1⟩ } := by
  simp only [Held.step, outcome, granted, returned, h, if_true, Option.toList_none, Option.elim_some,
    nil_append]

/-- A run from an allocator of which nothing is handed out. -/
def hold (s : State) (calls : List Call) : Held :=
  calls.foldl Held.step { state := s, grants := [] }

theorem state_foldl_step (h : Held) (calls : List Call) :
    (calls.foldl Held.step h).state = run h.state calls := by
  induction calls generalizing h with
  | nil => rfl
  | cons call calls ih => exact ih (h.step call)

theorem state_hold (s : State) (calls : List Call) : (hold s calls).state = run s calls :=
  state_foldl_step { state := s, grants := [] } calls

/-- What the calls of a run give back was handed out before. -/
def Honest : Held → List Call → Prop
  | _, [] => True
  | h, call :: calls =>
    (∀ g ∈ returned h.state call, g ∈ h.grants) ∧ Honest (h.step call) calls

structure Owns (h : Held) : Prop where
  covered : ∀ g ∈ h.grants, ∀ f, g.Covers f → h.state.eligible f = true ∧ h.state.used f = true
  disjoint : h.grants.Pairwise fun a b => ∀ f, ¬ (a.Covers f ∧ b.Covers f)

/-- A grant of frames that were available is disjoint from those before. -/
theorem Owns.add (howns : Owns h) {g : Grant} (hrun : ∀ f, g.Covers f → available h.state f)
    (heligible : s.eligible = h.state.eligible)
    (hused : ∀ f, s.used f ↔ g.Covers f ∨ h.state.used f) :
    Owns { state := s, grants := g :: h.grants } := by
  refine ⟨fun g' hg' f hf => ?_, pairwise_cons.mpr ⟨fun g' hg' f hf => ?_, howns.disjoint⟩⟩
  · rw [heligible, hused]
    rcases mem_cons.mp hg' with rfl | hg'
    · have := hrun f hf
      simp only [available, Bool.and_eq_true] at this
      exact ⟨this.1, .inl hf⟩
    · exact ⟨(howns.covered g' hg' f hf).1, .inr (howns.covered g' hg' f hf).2⟩
  · have hfree := hrun f hf.1
    simp [available, (howns.covered g' hg' f hf.2).2] at hfree

theorem Owns.erase (howns : Owns h) {g : Grant} (hg : g ∈ h.grants)
    (heligible : s.eligible = h.state.eligible)
    (hused : ∀ f, s.used f ↔ ¬ g.Covers f ∧ h.state.used f) :
    Owns { state := s, grants := h.grants.erase g } := by
  obtain ⟨xs, ys, -, hgrants, herase⟩ := exists_erase_eq hg
  have hdisjoint := howns.disjoint
  rw [hgrants] at hdisjoint
  obtain ⟨hxs, hgys, hcross⟩ := pairwise_append.mp hdisjoint
  obtain ⟨hhead, hys⟩ := pairwise_cons.mp hgys
  rw [herase]
  refine ⟨fun g' hg' f hf => ?_, pairwise_append.mpr ⟨hxs, hys, fun a ha b hb =>
    hcross a ha b (mem_cons_of_mem _ hb)⟩⟩
  dsimp only at hg' ⊢
  have hold : g' ∈ h.grants := by
    rw [hgrants]
    simp only [mem_append, mem_cons] at hg' ⊢
    tauto
  have hother : ¬ g.Covers f := fun hgf => by
    rcases mem_append.mp hg' with hx | hy
    · exact hcross g' hx g mem_cons_self f ⟨hf, hgf⟩
    · exact hhead g' hy f ⟨hgf, hf⟩
  rw [heligible, hused]
  exact ⟨(howns.covered g' hold f hf).1, hother, (howns.covered g' hold f hf).2⟩

theorem Owns.step (howns : Owns h) (hvalid : Valid h.state) {call : Call}
    (hhonest : ∀ g ∈ returned h.state call, g ∈ h.grants) : Owns (h.step call) := by
  have heffect := (hvalid.call call).2
  unfold Held.step
  generalize outcome h.state call = result at heffect ⊢
  generalize granted h.state call = handed at heffect ⊢
  generalize returned h.state call = back at heffect hhonest ⊢
  cases heffect with
  | refused => exact howns
  | takes run eligible used => exact howns.add run eligible used
  | gives eligible used => exact howns.erase (hhonest _ rfl) eligible used
  | reserves eligible kept =>
    exact ⟨fun g hg f hf => kept f (howns.covered g hg f hf), howns.disjoint⟩

theorem Owns.foldl (howns : Owns h) (hvalid : Valid h.state) {calls : List Call}
    (hhonest : Honest h calls) : Owns (calls.foldl Held.step h) := by
  induction calls generalizing h with
  | nil => exact howns
  | cons call calls ih => exact ih (howns.step hvalid hhonest.1) (hvalid.call call).1 hhonest.2

/-- After an initialization that succeeded and any calls: the counters agree with a
recount of the bitmaps, and free, allocated and reserved frames add up; the active
records cover disjoint runs of eligible frames in use; no two outstanding grants
share a frame, as long as only outstanding grants are given back; `frame_release`
frees no frame of an active record; and a call that is refused changes nothing. -/
theorem frame_ownership_of_run (cold s : State) (boot : BootInformation) (calls : List Call)
    (h : frameAllocatorInitialize cold boot = .ok s) :
    ((run s calls).stats = recount (run s calls).eligible (run s calls).used ∧
      (run s calls).stats.freeFrames + (run s calls).stats.allocatedFrames +
        (run s calls).stats.reservedFrames = (run s calls).stats.addressableFrames) ∧
    (∀ r ∈ (run s calls).records, r.active = true → ∀ f, r.Covers f →
      f < frameCount ∧ (run s calls).eligible f = true ∧ (run s calls).used f = true) ∧
    (∀ (i j : ℕ) (r r' : ContiguousRecord), (run s calls).records[i]? = some r →
      (run s calls).records[j]? = some r' → i ≠ j → r.active = true → r'.active = true →
      ∀ f, ¬ (r.Covers f ∧ r'.Covers f)) ∧
    (Honest { state := s, grants := [] } calls →
      (hold s calls).grants.Pairwise fun a b => ∀ f, ¬ (a.Covers f ∧ b.Covers f)) ∧
    (∀ r ∈ (run s calls).records, r.active = true → ∀ f, r.Covers f → ∀ address,
      (frameRelease (run s calls) address).2.used f = true) ∧
    ∀ call, (outcome (run s calls) call).1 ≠ .ok →
      (outcome (run s calls) call).2 = run s calls := by
  have hvalid := (frameAllocatorInitialize_valid h).run calls
  refine ⟨⟨hvalid.counted, ?_⟩, fun r hr hactive f hf => ⟨?_, hvalid.backed r hr hactive f hf⟩,
    hvalid.disjoint, fun hhonest => ?_, fun r hr hactive f hf address => ?_,
    fun call => (hvalid.call call).2.same⟩
  · rw [hvalid.counted]
    exact recount_total _ _
  · exact hf.2.trans_le (hvalid.bounded r hr hactive)
  · have hinitial : Owns { state := s, grants := [] } := ⟨by simp, List.Pairwise.nil⟩
    exact (hinitial.foldl (frameAllocatorInitialize_valid h) hhonest).disjoint
  · rcases frameRelease_cases (run s calls) address with
      ⟨status, -, heq⟩ | ⟨next, -, -, -, -, hrecord, heq⟩
    · rw [heq]
      exact (hvalid.backed r hr hactive f hf).2
    · rw [heq]
      refine (used_give_iff next).mpr ⟨fun hin => ?_, (hvalid.backed r hr hactive f hf).2⟩
      rw [le_antisymm (Nat.lt_succ_iff.mp hin.2) hin.1] at hf
      rw [frameInContiguousAllocation_iff.mpr ⟨r, hr, hactive, hf⟩] at hrecord
      cases hrecord

def coldState : State :=
  { eligible := fun _ => false, used := fun _ => false
    stats := { addressableFrames := 0, allocatableFrames := 0, freeFrames := 0, allocatedFrames := 0,
               reservedFrames := 0, highestAllocatableAddress := 0 }
    nextSearchIndex := 0, initialized := false, records := [], nextIdentifier := 0 }

/-- A machine with four available pages at 16 MiB, the third of which is also reported as
reserved. -/
def smallBoot : BootInformation :=
  { memoryMap := [{ baseAddress := 0x1002000, length := 0x1000, type := 2 },
      { baseAddress := 0x1000000, length := 0x4000, type := memoryAvailable }]
    informationStart := 0x300000, informationEnd := 0x301000
    kernelStart := 0x100000, kernelEnd := 0x200000 }

/-- The reserved page, the low memory, the kernel and the boot information are taken out of
the available pages. -/
def smallFrames : State :=
  markReservedFrames (markReservedFrames (markReservedFrames (markReservedFrames
    (markAvailableFrames (resetState coldState) 4096 4100) 4098 4099) 0 256) 256 512) 768 769

theorem applyBootInformation_smallBoot :
    applyBootInformation coldState smallBoot = .ok smallFrames := rfl

theorem available_smallFrames (f : ℕ) :
    available smallFrames f ↔ f = 4096 ∨ f = 4097 ∨ f = 4099 := by
  simp only [available, smallFrames, eligible_markReservedFrames, used_markReservedFrames,
    markAvailableFrames, resetState, bitmapSetRange_apply]
  split_ifs <;> simp <;> omega

theorem recount_smallFrames_ne_zero :
    (recount smallFrames.eligible smallFrames.used).freeFrames ≠ 0 := by
  rw [recount_eq]
  dsimp only
  refine Nat.count_ne_iff_exists.mpr ⟨4096, by decide, ?_⟩
  simpa [available] using (available_smallFrames 4096).mpr (.inl rfl)

def smallState : State :=
  { recomputeStats smallFrames with
    nextSearchIndex := lowMemoryReservation / pageSize
    initialized := true }

theorem frameAllocatorInitialize_smallBoot :
    frameAllocatorInitialize coldState smallBoot = .ok smallState := by
  have hfree : (recomputeStats smallFrames).stats.freeFrames ≠ 0 := by
    exact recount_smallFrames_ne_zero
  rw [frameAllocatorInitialize, bind_eq_ok]
  refine ⟨smallFrames, applyBootInformation_smallBoot, ?_⟩
  rw [smallState]
  generalize recomputeStats smallFrames = s at hfree ⊢
  exact if_neg hfree

theorem Valid.frameAllocate_start (h : Valid s) {f : ℕ} (havailable : available s f)
    (hlow : isaDmaFrameLimit ≤ f) (hlt : f + 1 < frameCount)
    (hstart : f = if isaDmaFrameLimit ≤ s.nextSearchIndex ∧ s.nextSearchIndex < frameCount
      then s.nextSearchIndex else isaDmaFrameLimit) :
    frameAllocate s = (.ok (UInt64.ofNat (f * pageSize)), s.take f 1 (f + 1)) := by
  have hfree : s.stats.freeFrames ≠ 0 := fun hzero => by
    simp [h.freeFrames_eq_zero.mp hzero f (by omega)] at havailable
  have hhead : (searchPass s isaDmaFrameLimit frameCount).find? (available s) = some f := by
    rw [searchPass, ← hstart]
    obtain ⟨n, hn⟩ : ∃ n, frameCount - isaDmaFrameLimit = n + 1 := ⟨_, rfl⟩
    rw [hn, range_succ_eq_map, map_cons, find?_cons_of_pos]
    · rw [Nat.add_zero, Nat.mod_eq_of_lt (by omega), Nat.add_sub_cancel' hlow]
    · rwa [Nat.add_zero, Nat.mod_eq_of_lt (by omega), Nat.add_sub_cancel' hlow]
  rw [frameAllocate, if_neg (by simp [h.initialized]), if_neg hfree, find?_append, hhead,
    Option.some_or]
  simp only [if_neg hlt.ne, State.take, bitmapSet_eq_range, Stats.taken]

theorem Valid.frameRelease_single (h : Valid s) {f : ℕ} (hlt : f < frameCount)
    (heligible : s.eligible f) (hused : s.used f)
    (hrecord : frameInContiguousAllocation s.records f = false) :
    frameRelease s (UInt64.ofNat (f * pageSize)) =
      (.ok, s.give f 1 (if f < s.nextSearchIndex then f else s.nextSearchIndex)) := by
  have hbelow : ¬ earlyPhysicalLimit ≤ f * pageSize := by
    rw [not_le]
    exact (Nat.mul_lt_mul_of_pos_right hlt (by decide)).trans_le (Nat.div_mul_le_self _ _)
  have haligned : ¬ f * pageSize % pageSize ≠ 0 := by simp
  rw [frameRelease, if_neg (by simp [h.initialized]), toNat_physicalBase hlt.le, if_neg haligned,
    if_neg hbelow, Nat.mul_div_cancel _ (by decide)]
  simp [heligible, hused, hrecord, State.give, bitmapSet_eq_range, Stats.given]

/-- Two frames are handed out, the first one is given back and handed out again. -/
def smallCalls : List Call :=
  [.allocate, .allocate, .release (UInt64.ofNat (4096 * pageSize)), .allocate]

theorem available_smallState (f : ℕ) :
    available smallState f ↔ f = 4096 ∨ f = 4097 ∨ f = 4099 := by
  have heligible : smallState.eligible = smallFrames.eligible := rfl
  have hused : smallState.used = smallFrames.used := rfl
  rw [← available_smallFrames, available, available, heligible, hused]

def busyState : State := (smallState.take 4096 1 4097).take 4097 1 4098

def reusedState : State := (busyState.give 4096 1 4096).take 4096 1 4097

theorem eligible_busyState : busyState.eligible 4096 := by
  have havailable : available smallState 4096 := by simp [available_smallState]
  have heligible : busyState.eligible = smallState.eligible := rfl
  rw [available, Bool.and_eq_true] at havailable
  rw [heligible]
  exact havailable.1

theorem available_reusedState (f : ℕ) : available reusedState f ↔ f = 4099 := by
  simp only [reusedState, busyState, available_take, available_give, available_smallState]
  omega

theorem frameAllocate_smallState : frameAllocate smallState =
    (.ok (UInt64.ofNat (4096 * pageSize)), smallState.take 4096 1 4097) := by
  have hvalid := frameAllocatorInitialize_valid frameAllocatorInitialize_smallBoot
  have hnext : smallState.nextSearchIndex = 256 := rfl
  have havailable : available smallState 4096 := by simp [available_smallState]
  refine hvalid.frameAllocate_start havailable (by decide) (by decide) ?_
  rw [hnext]
  decide

theorem valid_smallState_take : Valid (smallState.take 4096 1 4097) := by
  have hvalid := (frameAllocatorInitialize_valid frameAllocatorInitialize_smallBoot).allocate.1
  rwa [outcome, frameAllocate_smallState] at hvalid

theorem frameAllocate_smallState_take : frameAllocate (smallState.take 4096 1 4097) =
    (.ok (UInt64.ofNat (4097 * pageSize)), busyState) := by
  have hnext : (smallState.take 4096 1 4097).nextSearchIndex = 4097 := rfl
  have havailable : available (smallState.take 4096 1 4097) 4097 := by
    simp [available_take, available_smallState]
  refine valid_smallState_take.frameAllocate_start havailable (by decide) (by decide) ?_
  rw [hnext]
  decide

theorem valid_busyState : Valid busyState := by
  have hvalid := valid_smallState_take.allocate.1
  rwa [outcome, frameAllocate_smallState_take] at hvalid

theorem frameRelease_busyState :
    frameRelease busyState (UInt64.ofNat (4096 * pageSize)) = (.ok, busyState.give 4096 1 4096) := by
  have hused : busyState.used 4096 := by simp [busyState, used_take_iff]
  have hnext : busyState.nextSearchIndex = 4098 := rfl
  have hrecord : frameInContiguousAllocation busyState.records 4096 = false := by
    have hrecords : busyState.records = (resetState coldState).records := rfl
    rw [hrecords]
    decide
  have hrelease := valid_busyState.frameRelease_single (by decide) eligible_busyState hused hrecord
  rwa [hnext] at hrelease

theorem frameAllocate_busyState_give : frameAllocate (busyState.give 4096 1 4096) =
    (.ok (UInt64.ofNat (4096 * pageSize)), reusedState) := by
  have hvalid := (valid_busyState.release (UInt64.ofNat (4096 * pageSize))).1
  rw [outcome, frameRelease_busyState] at hvalid
  have hnext : (busyState.give 4096 1 4096).nextSearchIndex = 4096 := rfl
  have havailable : available (busyState.give 4096 1 4096) 4096 := by
    simp [available_give, eligible_busyState]
  refine Valid.frameAllocate_start hvalid havailable (by decide) (by decide) ?_
  rw [hnext]
  decide

theorem hold_smallCalls : hold smallState smallCalls =
    { state := reusedState, grants := [⟨false, 4096, 1⟩, ⟨false, 4097, 1⟩] } := by
  rw [hold, smallCalls, foldl_cons, Held.step_allocate frameAllocate_smallState, foldl_cons,
    Held.step_allocate frameAllocate_smallState_take, foldl_cons,
    Held.step_release frameRelease_busyState, foldl_cons,
    Held.step_allocate frameAllocate_busyState_give, foldl_nil, physicalBase_div (by decide),
    physicalBase_div (by decide)]
  congr 1

theorem run_smallCalls : run smallState smallCalls = reusedState := by
  rw [← state_hold, hold_smallCalls]

theorem honest_smallCalls : Honest { state := smallState, grants := [] } smallCalls := by
  refine ⟨by simp [returned], by simp [returned], ?_, by simp [returned], trivial⟩
  rw [Held.step_allocate frameAllocate_smallState, Held.step_allocate frameAllocate_smallState_take,
    returned, frameRelease_busyState]
  simp

theorem frame_ownership_smallCalls :
    frameAllocatorInitialize coldState smallBoot = .ok smallState ∧
      Honest { state := smallState, grants := [] } smallCalls ∧
      (hold smallState smallCalls).grants = [⟨false, 4096, 1⟩, ⟨false, 4097, 1⟩] ∧
      (hold smallState smallCalls).grants.Pairwise fun a b => ∀ f, ¬ (a.Covers f ∧ b.Covers f) :=
  ⟨frameAllocatorInitialize_smallBoot, honest_smallCalls, congrArg Held.grants hold_smallCalls,
    (frame_ownership_of_run coldState smallState smallBoot smallCalls
      frameAllocatorInitialize_smallBoot).2.2.2.1 honest_smallCalls⟩

end OpenRFS.Frames
