import OpenRFS.Frames.Allocator

/-!
# What single calls of the frame allocator do

A call that is refused returns the state it was given. A call that succeeds takes a
run of available frames, gives a run of frames back, or reserves a range in which
nothing is handed out. `recount_take` and `recount_give` say that the adjusted
counters agree with a recount.
-/

namespace OpenRFS.Frames

open Region List

/-! ### Runs of bits -/

theorem bitmapSetRange_apply (bitmap : Bitmap) (first past : ℕ) (value : Bool) (k : ℕ) :
    bitmapSetRange bitmap first past value k =
      if first ≤ k ∧ k < past then value else bitmap k := by
  rw [bitmapSetRange]
  generalize hn : past - first = n
  induction n generalizing first bitmap with
  | zero =>
    rw [if_neg (by omega)]
    rfl
  | succ n ih =>
    rw [List.range'_succ, foldl_cons, ih (bitmapSet bitmap first value) (first + 1)
      (by omega)]
    by_cases hk : k = first
    · rw [if_neg (by omega), if_pos (by omega), bitmapSet, if_pos hk]
    · by_cases hin : first ≤ k ∧ k < past
      · rw [if_pos (by omega), if_pos hin]
      · rw [if_neg (by omega), if_neg hin, bitmapSet, if_neg hk]

theorem bitmapSet_eq_range (bitmap : Bitmap) (frame : ℕ) (value : Bool) :
    bitmapSet bitmap frame value = bitmapSetRange bitmap frame (frame + 1) value := by
  funext k
  rw [bitmapSetRange_apply, bitmapSet]
  exact if_congr (by omega) rfl rfl

/-! ### Recounts -/

def highestAllocatable (eligible : Bitmap) : ℕ → ℕ
  | 0 => 0
  | n + 1 => if eligible n then (n + 1) * pageSize else highestAllocatable eligible n

theorem foldl_countFrame (eligible used : Bitmap) (addressable n : ℕ) :
    (List.range n).foldl (countFrame eligible used)
      { addressableFrames := addressable, allocatableFrames := 0, freeFrames := 0,
        allocatedFrames := 0, reservedFrames := 0, highestAllocatableAddress := 0 } =
    { addressableFrames := addressable
      allocatableFrames := Nat.count (fun f => eligible f) n
      freeFrames := Nat.count (fun f => eligible f ∧ used f = false) n
      allocatedFrames := Nat.count (fun f => eligible f ∧ used f) n
      reservedFrames := Nat.count (fun f => eligible f = false) n
      highestAllocatableAddress := highestAllocatable eligible n } := by
  induction n with
  | zero => rfl
  | succ n ih =>
    rw [range_succ, foldl_concat, ih, countFrame]
    simp only [Nat.count_succ, highestAllocatable]
    cases eligible n <;> cases used n <;> simp

theorem recount_eq (eligible used : Bitmap) : recount eligible used =
    { addressableFrames := frameCount
      allocatableFrames := Nat.count (fun f => eligible f) frameCount
      freeFrames := Nat.count (fun f => eligible f ∧ used f = false) frameCount
      allocatedFrames := Nat.count (fun f => eligible f ∧ used f) frameCount
      reservedFrames := Nat.count (fun f => eligible f = false) frameCount
      highestAllocatableAddress := highestAllocatable eligible frameCount } := by
  unfold recount
  exact foldl_countFrame eligible used frameCount frameCount

theorem recount_total (eligible used : Bitmap) :
    (recount eligible used).freeFrames + (recount eligible used).allocatedFrames +
      (recount eligible used).reservedFrames = (recount eligible used).addressableFrames := by
  rw [recount_eq]
  dsimp only
  generalize frameCount = n
  induction n with
  | zero => rfl
  | succ n ih =>
    simp only [Nat.count_succ]
    cases eligible n <;> cases used n <;> simp <;> omega

def Stats.taken (stats : Stats) (count : ℕ) : Stats :=
  { stats with
    freeFrames := stats.freeFrames - count
    allocatedFrames := stats.allocatedFrames + count }

def Stats.given (stats : Stats) (count : ℕ) : Stats :=
  { stats with
    freeFrames := stats.freeFrames + count
    allocatedFrames := stats.allocatedFrames - count }

section Recount

variable {eligible used : Bitmap} {first count : ℕ}

theorem count_bitmapSetRange (value : Bool) (hbound : first + count ≤ frameCount)
    (hrun : ∀ f, first ≤ f → f < first + count → eligible f ∧ used f = !value) :
    Nat.count (fun f => eligible f ∧
        bitmapSetRange used first (first + count) value f = value) frameCount =
      Nat.count (fun f => eligible f ∧ used f = value) frameCount + count ∧
    Nat.count (fun f => eligible f ∧ used f = !value) frameCount = Nat.count (fun f => eligible f ∧
        bitmapSetRange used first (first + count) value f = !value) frameCount + count := by
  constructor
  · refine count_add_run hbound (fun f h h' => ?_) (fun f => ?_)
    · simp [hrun f h h']
    · rw [bitmapSetRange_apply]
      by_cases hin : first ≤ f ∧ f < first + count
      · simp [hin, hrun f hin.1 hin.2]
      · simp [hin]
  · refine count_add_run hbound (fun f h h' => ?_) (fun f => ?_)
    · simp [bitmapSetRange_apply, h, h']
    · rw [bitmapSetRange_apply]
      by_cases hin : first ≤ f ∧ f < first + count
      · simp [hin, hrun f hin.1 hin.2]
      · simp [hin]

theorem recount_take (hbound : first + count ≤ frameCount)
    (hrun : ∀ f, first ≤ f → f < first + count → eligible f ∧ used f = false) :
    recount eligible (bitmapSetRange used first (first + count) true) =
      (recount eligible used).taken count := by
  obtain ⟨hallocated, hfree⟩ := count_bitmapSetRange true hbound hrun
  simp only [Bool.not_true] at hfree
  rw [recount_eq, recount_eq, Stats.taken, hallocated, hfree]
  simp

theorem recount_give (hbound : first + count ≤ frameCount)
    (hrun : ∀ f, first ≤ f → f < first + count → eligible f ∧ used f) :
    recount eligible (bitmapSetRange used first (first + count) false) =
      (recount eligible used).given count := by
  obtain ⟨hfree, hallocated⟩ := count_bitmapSetRange false hbound hrun
  simp only [Bool.not_false] at hallocated
  rw [recount_eq, recount_eq, Stats.given, hallocated, hfree]
  simp

end Recount

/-! ### The cases of each call -/

def State.take (s : State) (first count next : ℕ) : State :=
  { s with
    used := bitmapSetRange s.used first (first + count) true
    stats := s.stats.taken count
    nextSearchIndex := next }

def State.give (s : State) (first count next : ℕ) : State :=
  { s with
    used := bitmapSetRange s.used first (first + count) false
    stats := s.stats.given count
    nextSearchIndex := next }

theorem State.used_take (s : State) (first count next f : ℕ) :
    (s.take first count next).used f =
      if first ≤ f ∧ f < first + count then true else s.used f := bitmapSetRange_apply ..

theorem State.used_give (s : State) (first count next f : ℕ) :
    (s.give first count next).used f =
      if first ≤ f ∧ f < first + count then false else s.used f := bitmapSetRange_apply ..

/-- A pass starts anywhere in its range and wraps around, so that it goes through all of it. -/
theorem mem_searchPass {s : State} {first past f : ℕ} :
    f ∈ searchPass s first past ↔ first ≤ f ∧ f < past := by
  have hoffset : first < past → (if first ≤ s.nextSearchIndex ∧ s.nextSearchIndex < past then
      s.nextSearchIndex else first) - first < past - first := by
    split_ifs <;> omega
  simp only [searchPass, mem_map, mem_range]
  generalize (if first ≤ s.nextSearchIndex ∧ s.nextSearchIndex < past then s.nextSearchIndex
    else first) - first = offset at hoffset ⊢
  constructor
  · rintro ⟨step, hstep, rfl⟩
    have := Nat.mod_lt (offset + step) (Nat.zero_lt_of_lt hstep)
    omega
  · rintro ⟨hle, hlt⟩
    have := hoffset (hle.trans_lt hlt)
    by_cases hbehind : offset ≤ f - first
    · refine ⟨f - first - offset, by omega, ?_⟩
      rw [Nat.add_sub_cancel' hbehind, Nat.mod_eq_of_lt (by omega), Nat.add_sub_cancel' hle]
    · -- the frames before the start come after the wrap
      refine ⟨f - first + (past - first) - offset, by omega, ?_⟩
      rw [Nat.add_sub_cancel' (by omega), Nat.add_mod_right, Nat.mod_eq_of_lt (by omega),
        Nat.add_sub_cancel' hle]

theorem frameAllocate_cases (s : State) :
    (∃ status, frameAllocate s = (.error status, s)) ∨
    ∃ f next, f < frameCount ∧ available s f ∧
      frameAllocate s = (.ok (UInt64.ofNat (f * pageSize)), s.take f 1 next) := by
  rw [frameAllocate]
  split_ifs with hinit hfree
  · exact .inl ⟨_, rfl⟩
  · exact .inl ⟨_, rfl⟩
  · cases hfind : (searchPass s isaDmaFrameLimit frameCount ++
        searchPass s 0 isaDmaFrameLimit).find? (available s) with
    | none => exact .inl ⟨_, rfl⟩
    | some f =>
      refine .inr ⟨f, if f + 1 = frameCount then isaDmaFrameLimit else f + 1, ?_,
        find?_some hfind, ?_⟩
      · rcases mem_append.mp (mem_of_find?_eq_some hfind) with h | h
        · exact (mem_searchPass.mp h).2
        · exact (mem_searchPass.mp h).2.trans (by decide)
      · simp only [State.take, bitmapSet_eq_range, Stats.taken]

theorem frameRelease_cases (s : State) (p : UInt64) :
    (∃ status, status ≠ .ok ∧ frameRelease s p = (status, s)) ∨
    ∃ next, p.toNat % pageSize = 0 ∧ p.toNat / pageSize < frameCount ∧
      s.eligible (p.toNat / pageSize) ∧ s.used (p.toNat / pageSize) ∧
      frameInContiguousAllocation s.records (p.toNat / pageSize) = false ∧
      frameRelease s p = (.ok, s.give (p.toNat / pageSize) 1 next) := by
  rw [frameRelease]
  split_ifs with hinit haligned hlimit
  · exact .inl ⟨_, by decide, rfl⟩
  · exact .inl ⟨_, by decide, rfl⟩
  · exact .inl ⟨_, by decide, rfl⟩
  set f := p.toNat / pageSize with hf
  by_cases heligible : s.eligible f
  · by_cases hused : s.used f
    · by_cases hrecord : frameInContiguousAllocation s.records f
      · exact .inl ⟨.frameInUse, by decide, by simp [heligible, hused, hrecord]⟩
      · refine .inr ⟨if f < s.nextSearchIndex then f else s.nextSearchIndex, by simpa using haligned,
          Nat.div_lt_div_of_lt_of_dvd (by decide) (not_le.mp hlimit), heligible, hused,
          by simpa using hrecord, ?_⟩
        simp [heligible, hused, hrecord, State.give, bitmapSet_eq_range, Stats.given]
    · exact .inl ⟨.doubleFree, by decide, by simp [heligible, hused]⟩
  · exact .inl ⟨.frameNotAllocatable, by decide, by simp [heligible]⟩

theorem checkRequest_ok {request : ContiguousRequest} {maximumPastFrame : ℕ}
    (h : checkRequest request = .ok maximumPastFrame) :
    request.pageCount.toNat ≤ maximumPastFrame ∧ maximumPastFrame ≤ frameCount := by
  simp only [checkRequest] at h
  split_ifs at h
  all_goals
    cases h
    exact ⟨not_lt.mp (by assumption), Nat.div_le_div_right (min_le_right _ _)⟩

theorem runAvailable_iff {s : State} {request : ContiguousRequest} {first : ℕ} :
    runAvailable s request first ↔ (first * pageSize) &&& (request.alignment.toNat - 1) = 0 ∧
      ∀ f, first ≤ f → f < first + request.pageCount.toNat → available s f := by
  simp only [runAvailable, Bool.and_eq_true, beq_iff_eq, all_eq_true, mem_range]
  refine and_congr_right fun _ => ⟨fun h f hle hlt => ?_, fun h offset hlt => h _ (by omega) (by omega)⟩
  have := h (f - first) (by omega)
  rwa [Nat.add_sub_cancel' hle] at this

/-- A request that passes the checks is refused only if all records are taken or no run is
available, and otherwise it gets the lowest run. -/
theorem frameAllocateContiguous_cases (s : State) (request : ContiguousRequest) :
    (∃ status, frameAllocateContiguous s request = (.error status, s) ∧
      (s.initialized → ∀ past, checkRequest request = .ok past → (∀ r ∈ s.records, r.active) ∨
          ∀ first < past - request.pageCount.toNat + 1, runAvailable s request first = false)) ∨
    ∃ index old past first next identifier, ∃ allocation : ContiguousAllocation,
      s.records[index]? = some old ∧ old.active = false ∧ checkRequest request = .ok past ∧
      first < past - request.pageCount.toNat + 1 ∧ runAvailable s request first ∧
      (∀ lower < first, runAvailable s request lower = false) ∧
      allocation.physicalBase = UInt64.ofNat (first * pageSize) ∧
      allocation.pageCount = request.pageCount ∧
      frameAllocateContiguous s request = (.ok allocation,
        { s.take first request.pageCount.toNat next with
          records := s.records.set index
            { physicalBase := UInt64.ofNat (first * pageSize), pageCount := request.pageCount,
              identifier := s.nextIdentifier, active := true }
          nextIdentifier := identifier }) := by
  rw [frameAllocateContiguous]
  by_cases hinit : (!s.initialized)
  · exact .inl ⟨_, if_pos hinit, fun h => by simp [h] at hinit⟩
  rw [if_neg hinit]
  cases hcheck : checkRequest request with
  | error status => exact .inl ⟨status, rfl, fun _ _ => nofun⟩
  | ok past =>
    cases hindex : s.records.findIdx? fun record => !record.active with
    | none =>
      refine .inl ⟨_, rfl, fun _ _ _ => .inl fun r hr => ?_⟩
      simpa using findIdx?_eq_none_iff.mp hindex r hr
    | some index =>
      dsimp only
      obtain ⟨hlt, hinactive, -⟩ := findIdx?_eq_some_iff_getElem.mp hindex
      cases hfind : (List.range (past - request.pageCount.toNat + 1)).find?
          (runAvailable s request) with
      | none =>
        refine .inl ⟨_, rfl, fun _ _ hpast => .inr fun first hfirst => ?_⟩
        cases hpast
        simpa using find?_eq_none.mp hfind first (mem_range.mpr hfirst)
      | some first =>
        obtain ⟨hrun, hin, hlowest⟩ := find?_range_eq_some.mp hfind
        exact .inr ⟨index, s.records[index], past, first, _, _, _, getElem?_eq_getElem hlt,
          by simpa using hinactive, rfl, mem_range.mp hin, hrun,
          fun lower hlower => by simpa using hlowest lower hlower, rfl, rfl, rfl⟩

def ContiguousRecord.Covers (record : ContiguousRecord) (f : ℕ) : Prop :=
  record.physicalBase.toNat / pageSize ≤ f ∧
    f < record.physicalBase.toNat / pageSize + record.pageCount.toNat

theorem frameInContiguousAllocation_iff {records : List ContiguousRecord} {f : ℕ} :
    frameInContiguousAllocation records f ↔
      ∃ record ∈ records, record.active ∧ record.Covers f := by
  simp only [frameInContiguousAllocation, any_eq_true, Bool.and_eq_true, decide_eq_true_eq,
    ContiguousRecord.Covers]
  refine exists_congr fun record => and_congr_right fun _ => ?_
  constructor
  · rintro ⟨⟨hactive, hle⟩, hlt⟩
    exact ⟨hactive, hle, by omega⟩
  · rintro ⟨hactive, hle, hlt⟩
    exact ⟨⟨hactive, hle⟩, by omega⟩

theorem frameReleaseContiguous_cases (s : State) (allocation : ContiguousAllocation) :
    (∃ status, status ≠ .ok ∧ frameReleaseContiguous s allocation = (status, s)) ∨
    ∃ index record next, s.records[index]? = some record ∧ record.active ∧
      record.physicalBase = allocation.physicalBase ∧ record.pageCount = allocation.pageCount ∧
      (∀ f, record.Covers f → s.eligible f ∧ s.used f) ∧
      frameReleaseContiguous s allocation = (.ok,
        { s.give (record.physicalBase.toNat / pageSize) record.pageCount.toNat next with
          records := s.records.set index { record with active := false } }) := by
  rw [frameReleaseContiguous]
  split_ifs with hinit hactive
  · exact .inl ⟨_, by decide, rfl⟩
  · exact .inl ⟨_, by decide, rfl⟩
  cases hindex : s.records.findIdx? fun record =>
      record.active && record.identifier == allocation.identifier with
  | none => exact .inl ⟨_, by decide, rfl⟩
  | some index =>
    dsimp only
    obtain ⟨hlt, hmatch, -⟩ := findIdx?_eq_some_iff_getElem.mp hindex
    rw [getElem?_eq_getElem hlt]
    simp only [Bool.and_eq_true] at hmatch
    generalize hrecord : s.records[index] = record at hmatch ⊢
    dsimp only
    by_cases hdiffer : record.physicalBase ≠ allocation.physicalBase ∨
        record.pageCount ≠ allocation.pageCount
    · exact .inl ⟨_, by decide, if_pos hdiffer⟩
    rw [if_neg hdiffer]
    by_cases hunused : (!(List.range record.pageCount.toNat).all fun offset =>
        s.eligible (record.physicalBase.toNat / pageSize + offset) &&
          s.used (record.physicalBase.toNat / pageSize + offset))
    · exact .inl ⟨_, by decide, if_pos hunused⟩
    rw [if_neg hunused]
    simp only [not_or, ne_eq, not_not] at hdiffer
    simp only [Bool.not_eq_true', Bool.not_eq_false, all_eq_true, mem_range,
      Bool.and_eq_true] at hunused
    refine .inr ⟨index, record, _, by rw [getElem?_eq_getElem hlt, hrecord], hmatch.1,
      hdiffer.1, hdiffer.2, fun f hf => ?_, rfl⟩
    obtain ⟨hle, hlt'⟩ := hf
    have := hunused (f - record.physicalBase.toNat / pageSize) (by omega)
    rwa [Nat.add_sub_cancel' hle] at this

theorem coveringFrameBounds_spec (base length : UInt64) :
    (∃ status, status ≠ .ok ∧ coveringFrameBounds base length = .error status) ∨
      ∃ first past, past ≤ frameCount ∧ coveringFrameBounds base length = .ok (first, past) := by
  simp only [coveringFrameBounds]
  split_ifs with hover hzero hlimit hpartial
  · exact .inl ⟨_, by decide, rfl⟩
  · exact .inr ⟨0, 0, by decide, rfl⟩
  · exact .inl ⟨_, by decide, rfl⟩
  · refine .inr ⟨_, _, ?_, rfl⟩
    have hle := min_le_right (base.toNat + length.toNat) earlyPhysicalLimit
    generalize min (base.toNat + length.toNat) earlyPhysicalLimit = stop at *
    simp only [frameCount, earlyPhysicalLimit, pageSize] at *
    omega
  · exact .inr ⟨_, _, Nat.div_le_div_right (min_le_right _ _), rfl⟩

theorem eligible_markReservedFrames (s : State) (first past f : ℕ) :
    (markReservedFrames s first past).eligible f =
      if first ≤ f ∧ f < past then false else s.eligible f := bitmapSetRange_apply ..

theorem used_markReservedFrames (s : State) (first past f : ℕ) :
    (markReservedFrames s first past).used f =
      if first ≤ f ∧ f < past then true else s.used f := bitmapSetRange_apply ..

theorem frameReserveRange_cases (s : State) (base length : UInt64) :
    (∃ status, status ≠ .ok ∧ frameReserveRange s base length = (status, s)) ∨
    ∃ first past, (∀ f, first ≤ f → f < past → ¬ (s.eligible f ∧ s.used f)) ∧
      frameReserveRange s base length = (.ok, recomputeStats (markReservedFrames s first past)) := by
  rw [frameReserveRange]
  split_ifs with hinit
  · exact .inl ⟨_, by decide, rfl⟩
  rcases coveringFrameBounds_spec base length with ⟨status, hne, hbounds⟩ | ⟨first, past, _, hbounds⟩
  · rw [hbounds]
    exact .inl ⟨status, hne, rfl⟩
  · rw [hbounds]
    dsimp only
    split_ifs with hany
    · exact .inl ⟨_, by decide, rfl⟩
    · refine .inr ⟨first, past, fun f h h' hboth => hany ?_, rfl⟩
      refine any_eq_true.mpr ⟨f, mem_range'_1.mpr ⟨h, by omega⟩, ?_⟩
      simpa using hboth

end OpenRFS.Frames
