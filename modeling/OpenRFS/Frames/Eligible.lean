import OpenRFS.Frames.Ownership

/-!
# Which frames are eligible

Available regions are rounded inward and all other ranges outward, and the available regions
are marked first. So a frame is eligible exactly if one available region contains it and no
other range meets it, whatever the order of the memory map.
-/

namespace OpenRFS.Frames

open Codec List

def frameBytes (frame : ℕ) : Set ℕ := Set.Ico (frame * pageSize) ((frame + 1) * pageSize)

def extent (base length : UInt64) : Set ℕ := Set.Ico base.toNat (base.toNat + length.toNat)

def BootMemoryRegion.bytes (region : BootMemoryRegion) : Set ℕ :=
  extent region.baseAddress region.length

/-- The range does not meet the frame, if this is one of the frames of the allocator. -/
def Clear (frame : ℕ) (bytes : Set ℕ) : Prop :=
  frame < frameCount → Disjoint (frameBytes frame) bytes

section Bounds

variable {frame first past : ℕ} {base length : UInt64}

theorem frameBytes_subset {start stop : ℕ} :
    frameBytes frame ⊆ Set.Ico start stop ↔ start ≤ frame * pageSize ∧
      (frame + 1) * pageSize ≤ stop :=
  Set.Ico_subset_Ico_iff (Nat.mul_lt_mul_of_pos_right frame.lt_succ_self (by decide))

theorem disjoint_frameBytes {start stop : ℕ} :
    Disjoint (frameBytes frame) (Set.Ico start stop) ↔
      stop ≤ start ∨ stop ≤ frame * pageSize ∨ (frame + 1) * pageSize ≤ start := by
  have hpage : frame * pageSize < (frame + 1) * pageSize :=
    Nat.mul_lt_mul_of_pos_right frame.lt_succ_self (by decide)
  rw [frameBytes, Set.Ico_disjoint_Ico]
  omega

theorem availableFrameBounds_eq_ok (h : availableFrameBounds base length = .ok (first, past)) :
    first ≤ frame ∧ frame < past ↔ frame < frameCount ∧ frameBytes frame ⊆ extent base length := by
  rw [extent, frameBytes_subset]
  rw [availableFrameBounds] at h
  dsimp only at h
  split_ifs at h with _ hempty
  · cases h
    unfold frameCount earlyPhysicalLimit pageSize at *
    rcases hempty with rfl | hbase
    · rw [UInt64.toNat_zero]
      omega
    · omega
  · cases h
    unfold frameCount earlyPhysicalLimit pageSize at *
    omega
  · cases h
    unfold frameCount earlyPhysicalLimit pageSize at *
    omega

/-- The covering frames are those below the limit that meet the range. -/
theorem coveringFrameBounds_cases (frame : ℕ) (base length : UInt64) :
    coveringFrameBounds base length = .error .rangeOverflow ∨
      coveringFrameBounds base length = .error .rangeOutsideLimit ∧
        Clear frame (extent base length) ∨
      ∃ first past, coveringFrameBounds base length = .ok (first, past) ∧
        (first ≤ frame ∧ frame < past ↔ ¬ Clear frame (extent base length)) := by
  rw [Clear, extent, disjoint_frameBytes, coveringFrameBounds]
  dsimp only
  split_ifs with _ hempty
  · exact .inl rfl
  · refine .inr (.inr ⟨0, 0, rfl, ?_⟩)
    rw [hempty, UInt64.toNat_zero]
    omega
  · refine .inr (.inl ⟨rfl, ?_⟩)
    unfold frameCount earlyPhysicalLimit pageSize at *
    omega
  all_goals
    have hpos : length.toNat ≠ 0 := fun hzero => hempty (UInt64.toNat_inj.mp hzero)
    refine .inr (.inr ⟨_, _, rfl, ?_⟩)
    unfold frameCount earlyPhysicalLimit pageSize at *
    omega

end Bounds

section Passes

variable {frame : ℕ} {s s' : State} {memoryMap : List BootMemoryRegion}

theorem eligible_markAvailableFrames (first past : ℕ) :
    (markAvailableFrames s first past).eligible frame ↔
      s.eligible frame ∨ first ≤ frame ∧ frame < past := by
  have happly : (markAvailableFrames s first past).eligible frame = _ :=
    bitmapSetRange_apply s.eligible first past true frame
  rw [happly]
  split_ifs with h <;> simp [h]

theorem eligible_reserveInternal {base length : UInt64}
    (h : reserveInternal s base length = .ok s') :
    s'.eligible frame ↔ s.eligible frame ∧ Clear frame (extent base length) := by
  obtain ⟨⟨first, past⟩, hbounds, h⟩ := bind_eq_ok.mp h
  cases h
  rcases coveringFrameBounds_cases frame base length with
    hcase | ⟨hcase, -⟩ | ⟨_, _, hcase, hmeets⟩
  · rw [hcase] at hbounds
    cases hbounds
  · rw [hcase] at hbounds
    cases hbounds
  · rw [hcase] at hbounds
    cases hbounds
    rw [eligible_markReservedFrames]
    split_ifs with hin
    · simp [hmeets.mp hin]
    · simp [not_not.mp (mt hmeets.mpr hin)]

theorem eligible_availablePass (h : memoryMap.foldlM (applyRegion true) s = .ok s') :
    s'.eligible frame ↔ s.eligible frame ∨ frame < frameCount ∧
      ∃ region ∈ memoryMap, region.type = memoryAvailable ∧ frameBytes frame ⊆ region.bytes := by
  induction memoryMap generalizing s with
  | nil =>
    cases h
    simp
  | cons region memoryMap ih =>
    obtain ⟨s₁, hregion, h⟩ := bind_eq_ok.mp (foldlM_cons.symm.trans h)
    rw [ih h]
    simp only [applyRegion, Bool.true_bne, Bool.not_eq_true'] at hregion
    by_cases htype : region.type = memoryAvailable
    · simp only [htype, beq_self_eq_true, Bool.true_eq_false, if_false, if_true] at hregion
      obtain ⟨⟨first, past⟩, hbounds, hregion⟩ := bind_eq_ok.mp hregion
      cases hregion
      rw [eligible_markAvailableFrames, availableFrameBounds_eq_ok hbounds]
      simp only [exists_mem_cons_iff, htype, true_and, BootMemoryRegion.bytes]
      tauto
    · simp only [beq_false_of_ne htype, if_true] at hregion
      cases hregion
      simp [htype]

theorem eligible_reservedPass (h : memoryMap.foldlM (applyRegion false) s = .ok s') :
    s'.eligible frame ↔ s.eligible frame ∧
      ∀ region ∈ memoryMap, region.type ≠ memoryAvailable → Clear frame region.bytes := by
  induction memoryMap generalizing s with
  | nil =>
    cases h
    simp
  | cons region memoryMap ih =>
    obtain ⟨s₁, hregion, h⟩ := bind_eq_ok.mp (foldlM_cons.symm.trans h)
    rw [ih h, forall_mem_cons, ← and_assoc]
    refine and_congr_left fun _ => ?_
    simp only [applyRegion, Bool.false_bne] at hregion
    by_cases htype : region.type = memoryAvailable
    · simp only [htype, beq_self_eq_true, if_true] at hregion
      cases hregion
      simp [htype]
    · simp only [beq_false_of_ne htype, Bool.false_eq_true, if_false] at hregion
      simp only [ne_eq, htype, not_false_eq_true, true_implies]
      rcases coveringFrameBounds_cases frame region.baseAddress region.length with
        hcase | ⟨hcase, hclear⟩ | ⟨_, _, hcase, -⟩
      · rw [hcase] at hregion
        cases hregion
      · rw [hcase] at hregion
        cases hregion
        exact (and_iff_left hclear).symm
      · refine eligible_reserveInternal ?_
        rw [hcase] at hregion
        rw [reserveInternal, hcase]
        exact hregion

end Passes

/-- A range that ends before it starts is refused. -/
theorem extent_of_reserveInternal {s s' : State} {start stop : UInt64}
    (h : reserveInternal s start (stop - start) = .ok s') :
    extent start (stop - start) = Set.Ico start.toNat stop.toNat := by
  obtain ⟨bounds, hbounds, -⟩ := bind_eq_ok.mp h
  have hfits : start.toNat + (stop - start).toNat ≤ uint64Max := by
    by_contra hlarge
    rw [coveringFrameBounds, if_pos (lt_of_not_ge hlarge)] at hbounds
    cases hbounds
  have hstart := start.toNat_lt
  have hstop := stop.toNat_lt
  rw [UInt64.toNat_sub, uint64Max] at hfits
  rw [extent, UInt64.toNat_sub]
  congr 1
  omega

/-- The low memory, the kernel and the boot information are reserved after the memory map. -/
theorem eligible_reservations {cold s : State} {boot : BootInformation}
    (h : frameAllocatorInitialize cold boot = .ok s) :
    ∃ s₁, applyMemoryMap (resetState cold) boot.memoryMap = .ok s₁ ∧ ∀ frame,
      s.eligible frame ↔ ((s₁.eligible frame ∧ Clear frame (Set.Iio lowMemoryReservation)) ∧
        Clear frame (Set.Ico boot.kernelStart.toNat boot.kernelEnd.toNat)) ∧
        Clear frame (Set.Ico boot.informationStart.toNat boot.informationEnd.toNat) := by
  have hlow : extent 0 (UInt64.ofNat lowMemoryReservation) = Set.Iio lowMemoryReservation := by
    ext address
    simp [extent, lowMemoryReservation]
  obtain ⟨s₁, h₁, h⟩ := bind_eq_ok.mp h
  dsimp only at h
  split_ifs at h
  cases h
  obtain ⟨s₂, h₂, h₁⟩ := bind_eq_ok.mp h₁
  obtain ⟨s₃, h₃, h₁⟩ := bind_eq_ok.mp h₁
  split_ifs at h₁
  obtain ⟨s₄, h₄, h₅⟩ := bind_eq_ok.mp h₁
  refine ⟨s₂, h₂, fun frame => ?_⟩
  change s₁.eligible frame ↔ _
  rw [← extent_of_reserveInternal h₅, ← extent_of_reserveInternal h₄, ← hlow,
    ← eligible_reserveInternal h₃, ← eligible_reserveInternal h₄]
  exact eligible_reserveInternal h₅

/-- After an initialization that succeeded, for every memory map. -/
theorem eligible_iff_of_initialized {cold s : State} {boot : BootInformation}
    (h : frameAllocatorInitialize cold boot = .ok s) (frame : ℕ) :
    s.eligible frame = true ↔ (∃ region ∈ boot.memoryMap, region.type = memoryAvailable ∧
        frameBytes frame ⊆ region.bytes) ∧
      frameBytes frame ⊆ Set.Iio earlyPhysicalLimit ∧
      (∀ region ∈ boot.memoryMap, region.type ≠ memoryAvailable →
        Disjoint (frameBytes frame) region.bytes) ∧
      Disjoint (frameBytes frame) (Set.Iio lowMemoryReservation) ∧
      Disjoint (frameBytes frame) (Set.Ico boot.kernelStart.toNat boot.kernelEnd.toNat) ∧
      Disjoint (frameBytes frame)
        (Set.Ico boot.informationStart.toNat boot.informationEnd.toNat) := by
  have hlimit : frameBytes frame ⊆ Set.Iio earlyPhysicalLimit ↔ frame < frameCount := by
    rw [← Set.Ico_bot, frameBytes_subset]
    dsimp only [frameCount, earlyPhysicalLimit, pageSize]
    exact ⟨fun hbelow => by omega, fun hbelow => ⟨bot_le, by omega⟩⟩
  obtain ⟨s₁, hmap, heligible⟩ := eligible_reservations h
  obtain ⟨s₂, hfirst, hsecond⟩ := bind_eq_ok.mp hmap
  rw [hlimit, heligible, eligible_reservedPass hsecond, eligible_availablePass hfirst]
  by_cases hframe : frame < frameCount
  · simp only [Clear, hframe, true_implies, true_and, resetState, Bool.false_eq_true, false_or]
    tauto
  · simp [hframe, resetState]

theorem eligible_iff_smallBoot :
    frameAllocatorInitialize coldState smallBoot = .ok smallState ∧
      smallState.eligible 4096 = true ∧ smallState.eligible 4098 = false := by
  have heligible := eligible_iff_of_initialized frameAllocatorInitialize_smallBoot
  refine ⟨frameAllocatorInitialize_smallBoot, (heligible 4096).mpr ?_,
    Bool.eq_false_of_not_eq_true fun hreserved => ?_⟩
  · refine ⟨⟨_, mem_cons_of_mem _ mem_cons_self, rfl, frameBytes_subset.mpr (by decide)⟩,
      fun address haddress => haddress.2.trans (by decide), fun region hregion htype => ?_, ?_, ?_, ?_⟩
    · rcases mem_pair.mp hregion with rfl | rfl
      · exact disjoint_frameBytes.mpr (by decide)
      · exact absurd rfl htype
    · rw [← Set.Ico_bot]
      exact disjoint_frameBytes.mpr (by decide)
    · exact disjoint_frameBytes.mpr (by decide)
    · exact disjoint_frameBytes.mpr (by decide)
  · -- the frame lies in the available region, but the reserved one meets it
    obtain ⟨-, -, hclear, -⟩ := (heligible 4098).mp hreserved
    exact absurd (disjoint_frameBytes.mp (hclear _ mem_cons_self (by decide))) (by decide)

end OpenRFS.Frames
