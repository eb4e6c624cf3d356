import OpenRFS.NativeProcess.MappingSpecs

/-!
# What MEMORY_MAP and MEMORY_UNMAP do

MEMORY_UNMAP succeeds exactly on ranges of mapped anonymous pages and removes them.
MEMORY_MAP adds the pages of one mapping in a free span, or leaves the state as it was.
-/

namespace OpenRFS.NativeProcess

open Paging List

variable {s s' : State} {p : Process} {others : Multiset Hold} {base count : ℕ}
  {guardBefore guardAfter : Bool}

theorem sub64_of_le {a b : ℕ} (h : b ≤ a) (ha : a < 2 ^ 64) : sub64 a b = a - b := by
  unfold sub64
  rw [show a + 2 ^ 64 - b = a - b + 2 ^ 64 by omega, Nat.add_mod_right, Nat.mod_eq_of_lt (by omega)]

theorem spanAddress_of_lt {page : ℕ} (h : base + page * pageSize < 2 ^ 64) :
    spanAddress base page = base + page * pageSize := Nat.mod_eq_of_lt h

theorem pageWithin_iff {low high va : ℕ} :
    pageWithin low high va ↔ low ≤ va ∧ va < high ∧ va % pageSize = 0 := by
  simp [pageWithin, and_assoc]

theorem mappingRequestValid_anon {va : ℕ} {permissions : UInt32}
    (h : mappingRequestValid .nativeAnon va permissions) :
    nativeAnonBase ≤ va ∧ va < nativeAnonEnd := by
  simp only [mappingRequestValid, Bool.and_eq_true, pageWithin_iff] at h
  exact ⟨h.1.1, h.1.2.1⟩

/-! ### MEMORY_UNMAP -/

/-- Whole pages, all of them mapped and anonymous. -/
structure AnonymousRange (p : Process) (address length : ℕ) : Prop where
  pos : length ≠ 0
  aligned : address % pageSize = 0
  whole : length % pageSize = 0
  pages : ∀ j < length / pageSize, p.isAnonymous (address + j * pageSize) = true

theorem isAnonymous_within (h : s.process.Wf) {va : ℕ} (haligned : va % pageSize = 0)
    (hanon : s.process.isAnonymous va) : nativeAnonBase ≤ va ∧ va < nativeAnonEnd := by
  obtain ⟨q, hq, rfl, hmapped, hkind⟩ := (isAnonymous_iff h haligned).mp hanon
  have hvalid := h.valid q hq hmapped
  rw [hkind] at hvalid
  exact mappingRequestValid_anon hvalid

theorem AnonymousRange.within {address length : ℕ} (h : AnonymousRange s.process address length)
    (hwf : s.process.Wf) : nativeAnonBase ≤ address ∧ address + length ≤ nativeAnonEnd := by
  have hpos := h.pos
  have hwhole := Nat.div_add_mod length pageSize
  have haligned := h.aligned
  rw [h.whole] at hwhole
  have hcount : 0 < length / pageSize := by
    rw [pageSize] at hwhole ⊢
    omega
  have hfirst := isAnonymous_within hwf (aligned_page haligned 0) (h.pages 0 hcount)
  have hlast := isAnonymous_within hwf (aligned_page haligned _)
    (h.pages (length / pageSize - 1) (by omega))
  simp only [nativeAnonBase, nativeAnonEnd, pageSize] at *
  omega

theorem memoryUnmap_cases (h : s.Sound others) {address : ℕ} (haddress : address < 2 ^ 64)
    (length : ℕ) :
    (AnonymousRange s.process address length ∧ ∃ s', s.memoryUnmap address length = (.ok (), s') ∧
      Swept others (OnPages address (List.range (length / pageSize))) s s') ∨
    ¬ AnonymousRange s.process address length ∧
      ∃ e, s.memoryUnmap address length = (.error e, s) := by
  have hbound : nativeAnonEnd < 2 ^ 64 := by decide
  have hsize : length / pageSize * pageSize ≤ length := Nat.div_mul_le_self _ _
  by_cases hrange : AnonymousRange s.process address length
  · obtain ⟨hlow, hhigh⟩ := hrange.within h.wf
    have hwrap : ∀ j ∈ List.range (length / pageSize), address + j * pageSize < 2 ^ 64 := by
      intro j hj
      have hle := Nat.mul_le_mul_right pageSize (mem_range.mp hj).le
      omega
    obtain ⟨s', hunmap, hswept⟩ := swept_unmapPages h _ nodup_range hwrap fun j hj =>
      (isAnonymous_iff h.wf (aligned_page hrange.aligned j)).mp (hrange.pages j (mem_range.mp hj))
    refine .inl ⟨hrange, s', ?_, hswept⟩
    unfold State.memoryUnmap
    rw [if_neg, if_pos, hunmap]
    · refine all_eq_true.mpr fun j hj => ?_
      rw [spanAddress_of_lt (hwrap j hj)]
      exact hrange.pages j (mem_range.mp hj)
    · rw [sub64_of_le (by omega) hbound]
      rintro (hzero | haligned | hwhole | hbelow | hlong)
      · exact hrange.pos hzero
      · exact haligned hrange.aligned
      · exact hwhole hrange.whole
      · omega
      · omega
  · refine .inr ⟨hrange, ?_⟩
    unfold State.memoryUnmap
    split_ifs with hinvalid hall
    · exact ⟨_, rfl⟩
    · -- the call would accept pages that are not there
      simp only [not_or, not_not] at hinvalid
      obtain ⟨hpos, haligned, hwhole, hlow, hlong⟩ := hinvalid
      have hcount : 0 < length / pageSize := by
        have hsplit := Nat.div_add_mod length pageSize
        rw [hwhole, pageSize] at hsplit
        rw [pageSize]
        omega
      have hfirst := all_eq_true.mp hall 0 (mem_range.mpr hcount)
      rw [spanAddress_of_lt (by omega), zero_mul, add_zero] at hfirst
      have hwithin := isAnonymous_within h.wf haligned hfirst
      rw [sub64_of_le hwithin.2.le hbound] at hlong
      refine absurd ⟨hpos, haligned, hwhole, fun j hj => ?_⟩ hrange
      have hanon := all_eq_true.mp hall j (mem_range.mpr hj)
      have hle := Nat.mul_le_mul_right pageSize hj.le
      rwa [spanAddress_of_lt (by omega)] at hanon
    · exact ⟨_, rfl⟩

/-! ### The place of a mapping -/

/-- No record in a span of the region, nor in the guards asked for. -/
structure SpanFree (p : Process) (base count : ℕ) (guardBefore guardAfter : Bool) : Prop where
  low : nativeAnonBase ≤ base
  high : base + count * pageSize ≤ nativeAnonEnd
  inside : ∀ j < count, p.lookup (base + j * pageSize) = none
  before : guardBefore = true → nativeAnonBase + pageSize ≤ base ∧ p.lookup (base - pageSize) = none
  after : guardAfter = true → p.lookup (base + count * pageSize) = none

def spanFirst (base : ℕ) (guardBefore : Bool) : ℕ := base - guardBefore.toNat * pageSize

variable (h : p.anonymousSpanFree base count guardBefore guardAfter = true)
include h

theorem anonymousSpanFree_eq
    (hbase : base < 2 ^ 64) :
    nativeAnonBase ≤ spanFirst base guardBefore ∧
    spanFirst base guardBefore + guardBefore.toNat * pageSize = base ∧
    count + guardBefore.toNat + guardAfter.toNat ≤
      sub64 nativeAnonEnd (spanFirst base guardBefore) / pageSize ∧
    ∀ page < count + guardBefore.toNat + guardAfter.toNat,
      p.pageAt (spanAddress (spanFirst base guardBefore) page) = none := by
  simp only [Process.anonymousSpanFree, Bool.and_eq_true, decide_eq_true_eq, all_eq_true,
    mem_range, Option.isNone_iff_eq_none] at h
  obtain ⟨⟨⟨⟨hlow, -⟩, hfirst⟩, htotal⟩, hpages⟩ := h
  have hge : pageSize ≤ base := le_trans (by decide) hlow
  have heq : (if guardBefore = true then sub64 base pageSize else base) =
      spanFirst base guardBefore := by
    cases guardBefore with
    | false => simp [spanFirst]
    | true => simp [spanFirst, sub64_of_le hge hbase]
  rw [heq] at hfirst htotal hpages
  refine ⟨hfirst, ?_, htotal, hpages⟩
  cases guardBefore with
  | false => rfl
  | true =>
    simp only [spanFirst, Bool.toNat_true]
    omega

theorem anonymousSpanFree_lookup (hbase : base < 2 ^ 64)
    (haligned : base % pageSize = 0) (hcount : count ≠ 0) : p.lookup base = none := by
  obtain ⟨-, hfirst, -, hpages⟩ := anonymousSpanFree_eq h hbase
  have hnone := hpages guardBefore.toNat (by omega)
  rwa [spanAddress_of_lt (by omega), hfirst, pageAt_of_aligned haligned] at hnone

theorem anonymousSpanFree_span
    (hbase : base < nativeAnonEnd) (haligned : base % pageSize = 0) :
    SpanFree p base count guardBefore guardAfter := by
  have hbound : nativeAnonEnd < 2 ^ 64 := by decide
  obtain ⟨hlow, hfirst, htotal, hpages⟩ := anonymousSpanFree_eq h (hbase.trans hbound)
  rw [sub64_of_le (by omega) hbound, Nat.le_div_iff_mul_le (by decide)] at htotal
  -- the page `page` of the whole span, without a wrap
  have hat : ∀ page < count + guardBefore.toNat + guardAfter.toNat,
      p.lookup (spanFirst base guardBefore + page * pageSize) = none := by
    intro page hpage
    have hle := Nat.mul_le_mul_right pageSize hpage.le
    have hmod : (spanFirst base guardBefore + page * pageSize) % pageSize = 0 := by
      rw [Nat.add_mul_mod_self_right]
      rw [← hfirst, Nat.add_mul_mod_self_right] at haligned
      exact haligned
    have hnone := hpages page hpage
    rwa [spanAddress_of_lt (by omega), pageAt_of_aligned hmod] at hnone
  simp only [add_mul] at htotal
  refine ⟨by omega, by omega, fun j hj => ?_, fun hguard => ?_, fun hguard => ?_⟩
  · have hnone := hat (guardBefore.toNat + j) (by omega)
    rwa [add_mul, ← add_assoc, hfirst] at hnone
  · subst hguard
    rw [Bool.toNat_true, one_mul] at hfirst htotal
    have hnone := hat 0 (by rw [Bool.toNat_true]; omega)
    rw [zero_mul, add_zero] at hnone
    refine ⟨by omega, ?_⟩
    rwa [show base - pageSize = spanFirst base true by omega]
  · subst hguard
    have hnone := hat (guardBefore.toNat + count) (by rw [Bool.toNat_true]; omega)
    rwa [add_mul, ← add_assoc, hfirst] at hnone

omit h

theorem firstFit_eq_some {candidate : ℕ} (haligned : candidate % pageSize = 0)
    (h : p.firstFit count guardBefore guardAfter candidate = some base) :
    p.anonymousSpanFree base count guardBefore guardAfter ∧ base < nativeAnonEnd ∧
      base % pageSize = 0 := by
  induction hn : nativeAnonEnd - candidate using Nat.strong_induction_on generalizing candidate with
  | _ n ih =>
    rw [Process.firstFit] at h
    split_ifs at h with hend hroom hfree
    · cases h
      exact ⟨hfree, hend, haligned⟩
    · have hpos : 0 < pageSize := by decide
      exact ih _ (by omega) (by rw [Nat.add_mod_right, haligned]) h rfl

theorem placeMapping_eq_ok {request : MemoryMapRequest} (h : p.placeMapping request = .ok base) :
    p.anonymousSpanFree base request.pageCount request.guardBefore request.guardAfter ∧
      base < 2 ^ 64 ∧ base % pageSize = 0 := by
  unfold Process.placeMapping at h
  split_ifs at h with hhint haligned hfree
  · cases h
    exact ⟨hfree, request.addressHint.toNat_lt, not_not.mp haligned⟩
  · cases hfit : p.firstFit request.pageCount request.guardBefore request.guardAfter
        (nativeAnonBase + request.guardBefore.toNat * pageSize) with
    | none =>
      rw [hfit] at h
      cases h
    | some place =>
      rw [hfit] at h
      cases h
      have hstart : (nativeAnonBase + request.guardBefore.toNat * pageSize) % pageSize = 0 := by
        rw [Nat.add_mul_mod_self_right]
        rfl
      obtain ⟨hfree, hend, haligned⟩ := firstFit_eq_some hstart hfit
      exact ⟨hfree, hend.trans (by decide), haligned⟩

/-! ### MEMORY_MAP -/

structure Mapped (others : Multiset Hold) (s s' : State) (request : MemoryMapRequest) (base : ℕ) :
    Prop where
  sound : s'.Sound others
  pages : ∃ frames, Grown s s' (built .nativeAnon base frames request.pageCount)
  free : SpanFree s.process base request.pageCount request.guardBefore request.guardAfter
  aligned : base % pageSize = 0
  pos : request.pageCount ≠ 0

theorem anonymousRange_built (h : s'.Sound others) {frames : ℕ → ℕ}
    (hgrown : Grown s s' (built .nativeAnon base frames count)) (haligned : base % pageSize = 0)
    (hcount : count ≠ 0) : AnonymousRange s'.process base (count * pageSize) := by
  have hpos : 0 < pageSize := by decide
  refine ⟨mul_ne_zero hcount hpos.ne', haligned, Nat.mul_mod_left _ _, fun j hj => ?_⟩
  rw [Nat.mul_div_cancel _ hpos] at hj
  refine (isAnonymous_iff h.wf (aligned_page haligned j)).mpr ?_
  exact ⟨_, hgrown.mem.mpr (.inl (mem_built.mpr ⟨j, hj, rfl⟩)), rfl, rfl, rfl⟩

theorem memoryMap_cases (h : s.Sound others) (input : MapInput) :
    (∃ request base s', input.request = some request ∧
      s.memoryMap input = (.ok (base, request.roundedLength), s') ∧
      Mapped others s s' request base) ∨
    ∃ e, s.memoryMap input = (.error e, s) := by
  unfold State.memoryMap
  cases hrequest : input.request with
  | none => exact .inr ⟨_, rfl⟩
  | some request =>
    dsimp only
    by_cases hmalformed : request.malformed
    · rw [if_pos hmalformed]
      exact .inr ⟨_, rfl⟩
    rw [if_neg hmalformed]
    by_cases hroom : s.process.hasRoom request.pageCount
    swap
    · rw [if_neg hroom]
      exact .inr ⟨_, rfl⟩
    rw [if_pos hroom]
    have hcount : request.pageCount ≠ 0 := by
      simp only [Process.hasRoom, Bool.and_eq_true, decide_eq_true_eq] at hroom
      exact hroom.1.1.1
    cases hplace : s.process.placeMapping request with
    | error e => exact .inr ⟨e, rfl⟩
    | ok base =>
      obtain ⟨hspan, hbase, haligned⟩ := placeMapping_eq_ok hplace
      -- a hint behind the region passes the search and is refused by the first mapping
      have hfree : ∀ j < request.pageCount,
          (∀ i < j, mappingRequestValid .nativeAnon (base + i * pageSize) pagingWrite) →
            s.process.lookup (base + j * pageSize) = none := by
        intro j hj hvalid
        cases j with
        | zero =>
          exact anonymousSpanFree_lookup hspan hbase haligned hcount
        | succ j =>
          have hfirst := mappingRequestValid_anon (hvalid 0 j.succ_pos)
          exact (anonymousSpanFree_span hspan hfirst.2 haligned).inside _ hj
      dsimp only
      have hkind : MappingKind.nativeAnon ≠ .nativeImage := by decide
      rcases buildPages_cases input.answers h hkind haligned hfree request.pageCount 0
        (fun _ => 0) (zero_add _) h (.refl s) with
        ⟨s', frames, hbuild, hsound, hgrown⟩ | hbuild
      · rw [hbuild]
        have hrange := anonymousRange_built hsound hgrown haligned hcount
        have hwithin := hrange.within hsound.wf
        have hpos : 0 < request.pageCount * pageSize :=
          mul_pos (Nat.pos_of_ne_zero hcount) (by decide)
        have hspan' := anonymousSpanFree_span hspan (by omega) haligned
        split_ifs with hcopied
        · exact .inl ⟨request, base, s', rfl, rfl, hsound, ⟨frames, hgrown⟩, hspan', haligned,
            hcount⟩
        · -- the response could not be written: the mapping goes again
          refine .inr ⟨_, Prod.ext rfl ?_⟩
          rcases memoryUnmap_cases hsound hbase (request.pageCount * pageSize) with
            ⟨-, s'', hunmap, hswept⟩ | ⟨hnot, -⟩
          · show (s'.memoryUnmap base (request.pageCount * pageSize)).2 = s
            rw [hunmap]
            rw [Nat.mul_div_cancel _ (by decide)] at hswept
            exact hswept.restores_built hgrown h.wf hspan'.inside
          · exact absurd hrange hnot
      · rw [hbuild]
        exact .inr ⟨_, rfl⟩

end OpenRFS.NativeProcess
