import OpenRFS.Frames.Eligible

/-!
# What the searches of the frame allocator find

`frame_allocate` goes through all frames above 16 MiB before those below.
`frame_allocate_contiguous` goes upwards, so that it returns the lowest run that fits.
-/

namespace OpenRFS.Frames

open Codec List

variable {s : State} {request : ContiguousRequest} {first : ℕ}

/-! ### Single frames -/

theorem Valid.outOfMemory_iff (h : Valid s) :
    (frameAllocate s).1 = .error .outOfMemory ↔ ∀ f < frameCount, available s f = false := by
  rw [frameAllocate, if_neg (by simp [h.initialized])]
  split_ifs with hfree
  · exact iff_of_true rfl (h.freeFrames_eq_zero.mp hfree)
  · rw [h.freeFrames_eq_zero] at hfree
    refine iff_of_false (fun hresult => hfree fun f hf => ?_) hfree
    split at hresult
    · rename_i hnone
      refine Bool.eq_false_of_not_eq_true (find?_eq_none.mp hnone f ?_)
      rw [mem_append, mem_searchPass, mem_searchPass]
      omega
    · cases hresult

/-- The frame returned could be handed out, and it is in use afterwards. -/
theorem frameAllocate_ok {address : UInt64} (h : (frameAllocate s).1 = .ok address) :
    ∃ f < frameCount, address.toNat = f * pageSize ∧ s.eligible f ∧ s.used f = false ∧
      (frameAllocate s).2.used f := by
  rcases frameAllocate_cases s with ⟨status, heq⟩ | ⟨f, next, hlt, havailable, heq⟩
  · rw [heq] at h
    cases h
  · rw [heq] at h ⊢
    cases h
    simp only [available, Bool.and_eq_true, Bool.not_eq_true'] at havailable
    exact ⟨f, hlt, toNat_physicalBase hlt.le, havailable.1, havailable.2,
      (used_take_iff next).mpr (.inl ⟨le_rfl, f.lt_succ_self⟩)⟩

theorem not_available_of_low {address : UInt64} (haddress : (frameAllocate s).1 = .ok address)
    (hlow : address.toNat < 0x1000000) {f : ℕ} (hf : isaDmaFrameLimit ≤ f) (hlt : f < frameCount) :
    available s f = false := by
  rw [frameAllocate, find?_append] at haddress
  split_ifs at haddress
  cases hfind : (searchPass s isaDmaFrameLimit frameCount).find? (available s) with
  | none =>
    exact Bool.eq_false_of_not_eq_true
      (find?_eq_none.mp hfind f (mem_searchPass.mpr ⟨hf, hlt⟩))
  | some high =>
    rw [hfind, Option.some_or] at haddress
    cases haddress
    obtain ⟨hle, hhigh⟩ := mem_searchPass.mp (mem_of_find?_eq_some hfind)
    rw [toNat_physicalBase hhigh.le] at hlow
    unfold isaDmaFrameLimit pageSize at *
    omega

/-! ### Runs of frames -/

/-- The request asks for pages at a power of two that is no smaller than a page. -/
structure ContiguousRequest.Proper (request : ContiguousRequest) : Prop where
  count : request.pageCount.toNat ≠ 0
  power : powerOfTwo request.alignment = true
  page : pageSize ≤ request.alignment.toNat

/-- The run of a request can start at a frame. -/
structure Fits (s : State) (request : ContiguousRequest) (first : ℕ) : Prop where
  aligned : request.alignment.toNat ∣ first * pageSize
  free : ∀ f, first ≤ f → f < first + request.pageCount.toNat → f < frameCount ∧ available s f = true
  bounded : (first + request.pageCount.toNat) * pageSize ≤ request.maximumPhysicalAddress.toNat + 1

theorem exists_two_pow {alignment : UInt64} (h : powerOfTwo alignment) :
    ∃ k, alignment.toNat = 2 ^ k := by
  simp only [powerOfTwo, Bool.and_eq_true, bne_iff_ne, beq_iff_eq] at h
  have hpos : alignment.toNat ≠ 0 := fun hzero => h.1 (UInt64.toNat_inj.mp hzero)
  have hmask := congrArg UInt64.toNat h.2
  rw [UInt64.toNat_and, UInt64.toNat_sub_of_le] at hmask
  · exact (Nat.and_sub_one_eq_zero_iff_isPowerOfTwo hpos).mp hmask
  · exact Nat.pos_of_ne_zero hpos

theorem checkRequest_cases (h : request.Proper) :
    (∃ status, checkRequest request = .error status ∧
      ∀ first, first ≠ 0 → request.alignment.toNat ∣ first * pageSize →
        first + request.pageCount.toNat ≤ frameCount →
        request.maximumPhysicalAddress.toNat + 1 < (first + request.pageCount.toNat) * pageSize) ∨
    ∃ past, checkRequest request = .ok past ∧ request.pageCount.toNat ≤ past ∧
      ∀ n, n ≤ past ↔ n ≤ frameCount ∧ n * pageSize ≤ request.maximumPhysicalAddress.toNat + 1 := by
  obtain ⟨k, hk⟩ := exists_two_pow h.power
  have hpage : request.alignment.toNat % pageSize = 0 := by
    have hle := h.page
    rw [hk] at hle ⊢
    exact Nat.mod_eq_zero_of_dvd (Nat.pow_dvd_pow 2 ((Nat.pow_le_pow_iff_right (by decide)).mp
      (show 2 ^ 12 ≤ 2 ^ k from hle)))
  have hcount := h.count
  have hle := h.page
  have halign := request.alignment.toNat_lt
  have hmax := request.maximumPhysicalAddress.toNat_lt
  have hgood : ¬ (!powerOfTwo request.alignment || decide (request.alignment.toNat < pageSize) ||
      request.alignment.toNat % pageSize != 0) := by
    simp [h.power, hpage, hle]
  cases hcheck : checkRequest request with
  | error status =>
    refine .inl ⟨status, rfl, fun first hfirst hdvd hlast => ?_⟩
    have hstart := Nat.le_of_dvd (Nat.mul_pos (Nat.pos_of_ne_zero hfirst) (by decide)) hdvd
    simp only [checkRequest, if_neg hcount, if_neg hgood] at hcheck
    unfold frameCount earlyPhysicalLimit pageSize uint64Max at *
    split_ifs at hcheck <;> omega
  | ok past =>
    simp only [checkRequest, if_neg hcount, if_neg hgood] at hcheck
    unfold frameCount earlyPhysicalLimit pageSize uint64Max at *
    split_ifs at hcheck
    all_goals
      cases hcheck
      refine .inr ⟨_, rfl, ?_, fun n => ?_⟩ <;> omega

theorem Fits.le_frameCount (h : Fits s request first) (hproper : request.Proper) :
    first + request.pageCount.toNat ≤ frameCount := by
  have hcount := hproper.count
  have hlast := (h.free (first + request.pageCount.toNat - 1) (by omega) (by omega)).1
  omega

/-- The frames of the low memory are never eligible, so no run starts at the first one. -/
theorem Fits.ne_zero (h : Fits s request first) (hproper : request.Proper)
    (hzero : s.eligible 0 = false) : first ≠ 0 := by
  rintro rfl
  have hcount := hproper.count
  have hfree := (h.free 0 le_rfl (by omega)).2
  simp [available, hzero] at hfree

/-- The runs that the search goes through are those that fit. -/
theorem fits_iff (hproper : request.Proper) {past : ℕ} (hle : request.pageCount.toNat ≤ past)
    (hpast : ∀ n, n ≤ past ↔
      n ≤ frameCount ∧ n * pageSize ≤ request.maximumPhysicalAddress.toNat + 1) :
    Fits s request first ↔
      first < past - request.pageCount.toNat + 1 ∧ runAvailable s request first := by
  obtain ⟨k, hk⟩ := exists_two_pow hproper.power
  rw [runAvailable_iff, Nat.lt_succ_iff, Nat.le_sub_iff_add_le hle, hpast, hk,
    Nat.and_two_pow_sub_one_eq_mod, ← Nat.dvd_iff_mod_eq_zero, ← hk]
  constructor
  · intro hfits
    exact ⟨⟨hfits.le_frameCount hproper, hfits.bounded⟩, hfits.aligned,
      fun f hf hlt => (hfits.free f hf hlt).2⟩
  · rintro ⟨⟨hcount, hbounded⟩, haligned, hfree⟩
    exact ⟨haligned, fun f hf hlt => ⟨hlt.trans_le hcount, hfree f hf hlt⟩, hbounded⟩

theorem Valid.contiguous_cases (h : Valid s) (hzero : s.eligible 0 = false)
    (hproper : request.Proper) :
    (∃ status, (frameAllocateContiguous s request).1 = .error status) ∧
        ((∀ first, ¬ Fits s request first) ∨ ∀ r ∈ s.records, r.active) ∨
      ∃ first a, (frameAllocateContiguous s request).1 = .ok a ∧
        a.physicalBase.toNat = first * pageSize ∧ a.pageCount = request.pageCount ∧
        Fits s request first ∧ (∀ lower, Fits s request lower → first ≤ lower) ∧
        (∀ f, first ≤ f → f < first + request.pageCount.toNat →
          (frameAllocateContiguous s request).2.used f) ∧
        ∃ r ∈ s.records, r.active = false := by
  rcases frameAllocateContiguous_cases s request with ⟨status, heq, hwhy⟩ |
    ⟨index, r, past, first, next, _, a, hr, hfree, hok, hin, hrun, hlowest, hbase, hcount, heq⟩
  · refine .inl ⟨⟨status, congrArg Prod.fst heq⟩, ?_⟩
    rcases checkRequest_cases hproper with ⟨_, -, hnone⟩ | ⟨past, hcheck, hle, hpast⟩
    · refine .inl fun first hfits => absurd hfits.bounded (not_le.mpr ?_)
      exact hnone first (hfits.ne_zero hproper hzero) hfits.aligned (hfits.le_frameCount hproper)
    · refine (hwhy h.initialized past hcheck).symm.imp_left fun hnone first hfits => ?_
      obtain ⟨hin, hrun⟩ := (fits_iff hproper hle hpast).mp hfits
      simp [hnone first hin] at hrun
  · rcases checkRequest_cases hproper with ⟨_, hcheck, -⟩ | ⟨past, hcheck, hle, hpast⟩
    · cases hcheck.symm.trans hok
    cases hcheck.symm.trans hok
    have hfits := (fits_iff hproper hle hpast).mpr ⟨hin, hrun⟩
    refine .inr ⟨first, a, congrArg Prod.fst heq, ?_, hcount, hfits, fun lower hlower => ?_,
      fun f hf hlt => ?_, r, mem_of_getElem? hr, hfree⟩
    · have hbelow := hfits.le_frameCount hproper
      rw [hbase]
      exact toNat_physicalBase (by omega)
    · by_contra hnot
      have hrefused := ((fits_iff hproper hle hpast).mp hlower).2
      simp [hlowest lower (lt_of_not_ge hnot)] at hrefused
    · rw [heq]
      exact (used_take_iff next).mpr (.inl ⟨hf, hlt⟩)

/-! ### Runs of the allocator -/

theorem not_eligible_zero {cold : State} {boot : BootInformation}
    (h : frameAllocatorInitialize cold boot = .ok s) (calls : List Call) :
    (run s calls).eligible 0 = false := by
  have hstart : s.eligible 0 = false := by
    obtain ⟨_, -, heligible⟩ := eligible_reservations h
    refine Bool.eq_false_of_not_eq_true fun hzero => ?_
    have hclear := ((heligible 0).mp hzero).1.1.2 (by decide)
    rw [← Set.Ico_bot] at hclear
    exact absurd (disjoint_frameBytes.mp hclear) (by decide)
  have hvalid := frameAllocatorInitialize_valid h
  clear h
  induction calls generalizing s with
  | nil => exact hstart
  | cons call calls ih =>
    obtain ⟨hnext, heffect⟩ := hvalid.call call
    exact ih (Bool.eq_false_of_not_eq_true fun hzero => by simp [heffect.eligible hzero] at hstart) hnext

/-- In every state that a run reaches: `frame_allocate` is out of memory exactly if no
eligible frame is unused; the frame it returns is eligible, was unused and is in use
afterwards, and lies below 16 MiB only if all eligible frames above are in use; a contiguous
request that is proper is granted exactly if some run fits it and a record is free, and then
the run returned is the lowest one, and is in use afterwards. -/
theorem searches_complete_of_run (cold s : State) (boot : BootInformation) (calls : List Call)
    (h : frameAllocatorInitialize cold boot = .ok s) :
    ((frameAllocate (run s calls)).1 = .error .outOfMemory ↔
      ∀ f < frameCount, ¬ ((run s calls).eligible f = true ∧ (run s calls).used f = false)) ∧
    (∀ address, (frameAllocate (run s calls)).1 = .ok address →
      (∃ f < frameCount, address.toNat = f * pageSize ∧ (run s calls).eligible f = true ∧
        (run s calls).used f = false ∧ (frameAllocate (run s calls)).2.used f = true) ∧
      (address.toNat < 0x1000000 → ∀ f < frameCount, 0x1000000 ≤ f * pageSize →
        (run s calls).eligible f = true → (run s calls).used f = true)) ∧
    ∀ request : ContiguousRequest, request.Proper →
      ((∃ a, (frameAllocateContiguous (run s calls) request).1 = .ok a) ↔
        (∃ first, Fits (run s calls) request first) ∧
          ∃ r ∈ (run s calls).records, r.active = false) ∧
      ∀ a, (frameAllocateContiguous (run s calls) request).1 = .ok a →
        ∃ first, a.physicalBase.toNat = first * pageSize ∧ a.pageCount = request.pageCount ∧
          Fits (run s calls) request first ∧
          (∀ lower, Fits (run s calls) request lower → first ≤ lower) ∧
          ∀ f, first ≤ f → f < first + request.pageCount.toNat →
            (frameAllocateContiguous (run s calls) request).2.used f = true := by
  have hvalid := (frameAllocatorInitialize_valid h).run calls
  refine ⟨?_, fun address haddress => ⟨frameAllocate_ok haddress, fun hlow f hlt hf heligible => ?_⟩,
    fun request hproper => ?_⟩
  · rw [hvalid.outOfMemory_iff]
    simp [available]
  · have hhigh : isaDmaFrameLimit ≤ f := Nat.div_le_of_le_mul (hf.trans_eq (mul_comm _ _))
    have hused := not_available_of_low haddress hlow hhigh hlt
    simpa [available, heligible] using hused
  · rcases hvalid.contiguous_cases (not_eligible_zero h calls) hproper with
      ⟨⟨status, hstatus⟩, hnone⟩ | ⟨first, a, ha, hbase, hcount, hfits, hlowest, hused, hfree⟩
    · rw [hstatus]
      refine ⟨iff_of_false (by simp) ?_, by simp⟩
      rintro ⟨⟨first, hfits⟩, r, hr, hinactive⟩
      rcases hnone with hnone | hfull
      · exact hnone first hfits
      · simp [hfull r hr] at hinactive
    · rw [ha]
      refine ⟨iff_of_true ⟨a, rfl⟩ ⟨⟨first, hfits⟩, hfree⟩, fun b hb => ?_⟩
      cases hb
      exact ⟨first, hbase, hcount, hfits, hlowest, hused⟩

/-- One page is left to the small machine, behind the reserved one. -/
theorem fits_reusedState (first : ℕ) :
    Fits reusedState ⟨1, 4096, 0xFFFFFFFF⟩ first ↔ first = 4099 := by
  constructor
  · intro hfits
    exact (available_reusedState first).mp (hfits.free first le_rfl first.lt_succ_self).2
  · rintro rfl
    refine ⟨by decide, fun f hf hlt => ?_, by decide⟩
    have heq : f = 4099 := le_antisymm (Nat.lt_succ_iff.mp hlt) hf
    exact ⟨heq ▸ by decide, (available_reusedState f).mpr heq⟩

theorem searches_complete_smallCalls :
    frameAllocatorInitialize coldState smallBoot = .ok smallState ∧
      (∃ a, (frameAllocateContiguous (run smallState smallCalls) ⟨1, 4096, 0xFFFFFFFF⟩).1 = .ok a ∧
        a.physicalBase.toNat = 0x1003000) ∧
      ¬ ∃ a, (frameAllocateContiguous (run smallState smallCalls) ⟨2, 4096, 0xFFFFFFFF⟩).1 = .ok a := by
  obtain ⟨-, -, hruns⟩ := searches_complete_of_run coldState smallState smallBoot smallCalls
    frameAllocatorInitialize_smallBoot
  rw [run_smallCalls] at hruns ⊢
  have hrecord : ∃ r ∈ reusedState.records, r.active = false := ⟨_, mem_cons_self, rfl⟩
  refine ⟨frameAllocatorInitialize_smallBoot, ?_, fun hgranted => ?_⟩
  · obtain ⟨hgranted, hlowest⟩ := hruns ⟨1, 4096, 0xFFFFFFFF⟩ ⟨by decide, by decide, by decide⟩
    obtain ⟨a, ha⟩ := hgranted.mpr ⟨⟨4099, (fits_reusedState 4099).mpr rfl⟩, hrecord⟩
    obtain ⟨first, hbase, -, hfits, -⟩ := hlowest a ha
    rw [(fits_reusedState first).mp hfits] at hbase
    exact ⟨a, ha, hbase⟩
  · obtain ⟨⟨first, hfits⟩, -⟩ :=
      (hruns ⟨2, 4096, 0xFFFFFFFF⟩ ⟨by decide, by decide, by decide⟩).1.mp hgranted
    have hfirst := (available_reusedState first).mp (hfits.free first le_rfl (by simp)).2
    have hsecond := (available_reusedState (first + 1)).mp
      (hfits.free (first + 1) (by omega) (by simp)).2
    omega

end OpenRFS.Frames
