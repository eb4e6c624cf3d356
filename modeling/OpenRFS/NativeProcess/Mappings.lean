import OpenRFS.NativeProcess.MemorySpecs

/-!
# The mappings of a process

The process remembers pages, not mappings. Beside a run of MEMORY_MAP and MEMORY_UNMAP
we keep what the calls returned: each mapping that was made, and which of its pages have
not been unmapped since. The anonymous pages of the process are exactly these pages,
which tells for every range whether MEMORY_UNMAP accepts it.
-/

namespace OpenRFS.NativeProcess

open Paging List

inductive MemoryCall where
  | map (input : MapInput)
  | unmap (address length : UInt64)

structure Mapping where
  base : ℕ
  length : ℕ
  guardBefore : Bool
  guardAfter : Bool
  deriving DecidableEq

def Mapping.pages (mapping : Mapping) : List ℕ :=
  (List.range (mapping.length / pageSize)).map fun j => mapping.base + j * pageSize

structure Holding where
  mapping : Mapping
  remaining : List ℕ
  deriving DecidableEq

def Holding.Intact (h : Holding) : Prop := h.remaining = h.mapping.pages

instance (h : Holding) : Decidable h.Intact := inferInstanceAs (Decidable (_ = _))

def InRange (address length a : ℕ) : Prop := address ≤ a ∧ a < address + length

instance (address length a : ℕ) : Decidable (InRange address length a) :=
  inferInstanceAs (Decidable (_ ∧ _))

def Holding.unmap (h : Holding) (address length : ℕ) : Holding :=
  { h with remaining := h.remaining.filter fun a => !decide (InRange address length a) }

def Mapping.ofRequest (request : MemoryMapRequest) (base length : ℕ) : Mapping :=
  ⟨base, length, request.guardBefore, request.guardAfter⟩

def Holding.whole (mapping : Mapping) : Holding := ⟨mapping, mapping.pages⟩

structure Tracked where
  state : State
  holdings : List Holding

def Tracked.step (w : Tracked) : MemoryCall → Tracked
  | .map input =>
    match input.request, w.state.memoryMap input with
    | some request, (.ok (base, length), s) =>
      ⟨s, .whole (.ofRequest request base length) :: w.holdings⟩
    | _, (_, s) => ⟨s, w.holdings⟩
  | .unmap address length =>
    match w.state.memoryUnmap address.toNat length.toNat with
    | (.ok _, s) => ⟨s, w.holdings.map fun h => h.unmap address.toNat length.toNat⟩
    | (.error _, s) => ⟨s, w.holdings⟩

def Tracked.run (w : Tracked) (calls : List MemoryCall) : Tracked := calls.foldl Tracked.step w

/-- A process that has not mapped anything yet, with what the other processes hold. -/
structure Start where
  state : State
  others : Multiset Hold
  sound : state.Sound others
  fresh : ∀ page ∈ state.process.pages, page.kind ≠ .nativeAnon

def Start.after (start : Start) (calls : List MemoryCall) : Tracked :=
  Tracked.run ⟨start.state, []⟩ calls

/-- A process without pages that may have up to 16 of them. -/
def Start.sample : Start where
  state := ⟨.zero, { Process.zero with memoryLimit := 16 * pageSize, threadCount := 1 }⟩
  others := 0
  sound := ⟨.of_empty rfl rfl, Balanced.zero⟩
  fresh _ hpage := absurd hpage List.not_mem_nil

/-- A request for memory at a hint, with every frame and every leaf granted. -/
def sampleMap (hint : UInt64) (pages : UInt64) (flags : UInt32) (frame : ℕ) : MemoryCall :=
  .map ⟨some ⟨32, abiVersion, pages * 4096, hint, memoryRead ||| memoryWrite ||| flags, 0⟩, true,
    fun page => some (frame + page), fun _ => true⟩

/-! ### What is mapped -/

/-- The anonymous pages of the process are the remaining pages of its mappings. -/
structure Tracks (others : Multiset Hold) (w : Tracked) : Prop where
  sound : w.state.Sound others
  known : ∀ q ∈ w.state.process.pages, q.kind = .nativeAnon →
    ∃ h ∈ w.holdings, q.virtualAddress ∈ h.remaining
  there : ∀ h ∈ w.holdings, ∀ a ∈ h.remaining,
    ∃ q ∈ w.state.process.pages, q.virtualAddress = a ∧ q.mapped = true ∧ q.kind = .nativeAnon
  aligned : ∀ h ∈ w.holdings, ∀ a ∈ h.remaining, a % pageSize = 0

variable {others : Multiset Hold} {w : Tracked} {s' : State}

variable {a address length : ℕ}

theorem mem_pages {mapping : Mapping} :
    a ∈ mapping.pages ↔ ∃ j < mapping.length / pageSize, a = mapping.base + j * pageSize := by
  simp [Mapping.pages, eq_comm]

theorem mem_unmap {h : Holding} :
    a ∈ (h.unmap address length).remaining ↔ a ∈ h.remaining ∧ ¬ InRange address length a := by
  simp [Holding.unmap]

theorem onPages_iff_inRange (haddress : address % pageSize = 0) (hlength : length % pageSize = 0)
    (ha : a % pageSize = 0) :
    OnPages address (List.range (length / pageSize)) a ↔ InRange address length a := by
  unfold OnPages InRange
  constructor
  · rintro ⟨j, hj, rfl⟩
    have hlt := mem_range.mp hj
    simp only [pageSize] at *
    omega
  · rintro ⟨hle, hlt⟩
    refine ⟨(a - address) / pageSize, mem_range.mpr ?_, ?_⟩ <;>
    · simp only [pageSize] at *
      omega

theorem tracks_map {request : MemoryMapRequest} {base : ℕ} (h : Tracks others w)
    (hmapped : Mapped others w.state s' request base) :
    Tracks others
      ⟨s', .whole (.ofRequest request base request.roundedLength) :: w.holdings⟩ := by
  obtain ⟨frames, hgrown⟩ := hmapped.pages
  have hcount : request.roundedLength / pageSize = request.pageCount :=
    Nat.mul_div_cancel _ (by decide)
  refine ⟨hmapped.sound, fun q hq hkind => ?_,
    forall_mem_cons.mpr ⟨fun a ha => ?_, fun x hx a ha => ?_⟩,
    forall_mem_cons.mpr ⟨fun a ha => ?_, h.aligned⟩⟩
  · rcases hgrown.mem.mp hq with hq | hq
    · obtain ⟨j, hj, rfl⟩ := mem_built.mp hq
      exact ⟨_, mem_cons_self, mem_pages.mpr ⟨j, hcount.symm ▸ hj, rfl⟩⟩
    · obtain ⟨x, hx, ha⟩ := h.known q hq hkind
      exact ⟨x, mem_cons_of_mem _ hx, ha⟩
  · obtain ⟨j, hj, rfl⟩ := mem_pages.mp ha
    exact ⟨_, hgrown.mem.mpr (.inl (mem_built.mpr ⟨j, hcount ▸ hj, rfl⟩)), rfl, rfl, rfl⟩
  · obtain ⟨q, hq, hrest⟩ := h.there x hx a ha
    exact ⟨q, hgrown.mem.mpr (.inr hq), hrest⟩
  · obtain ⟨j, -, rfl⟩ := mem_pages.mp ha
    exact aligned_page hmapped.aligned j

theorem tracks_unmap (h : Tracks others w) (hrange : AnonymousRange w.state.process address length)
    (hswept : Swept others (OnPages address (List.range (length / pageSize))) w.state s') :
    Tracks others ⟨s', w.holdings.map fun x => x.unmap address length⟩ := by
  have hon : ∀ a, a % pageSize = 0 →
      (OnPages address (List.range (length / pageSize)) a ↔ InRange address length a) := fun a ha =>
    onPages_iff_inRange hrange.aligned hrange.whole ha
  refine ⟨hswept.sound, fun q hq hkind => ?_, fun x hx a ha => ?_, fun x hx a ha => ?_⟩
  · obtain ⟨hq, hout⟩ := hswept.mem.mp hq
    obtain ⟨x, hx, ha⟩ := h.known q hq hkind
    refine ⟨_, mem_map_of_mem hx, mem_unmap.mpr ⟨ha, ?_⟩⟩
    rwa [← hon _ (h.aligned x hx _ ha)]
  · obtain ⟨y, hy, rfl⟩ := mem_map.mp hx
    obtain ⟨ha, hout⟩ := mem_unmap.mp ha
    obtain ⟨q, hq, rfl, hrest⟩ := h.there y hy a ha
    exact ⟨q, hswept.mem.mpr ⟨hq, by rwa [hon _ (h.aligned y hy _ ha)]⟩, rfl, hrest⟩
  · obtain ⟨y, hy, rfl⟩ := mem_map.mp hx
    exact h.aligned y hy a (mem_unmap.mp ha).1

/-- What a call does: it makes a mapping, it unmaps a range of anonymous pages, or it
changes nothing. -/
inductive Moved (others : Multiset Hold) (w : Tracked) : MemoryCall → Tracked → Prop
  | mapped {input request base s'} (hrequest : input.request = some request)
      (h : Mapped others w.state s' request base) :
      Moved others w (.map input)
        ⟨s', .whole (.ofRequest request base request.roundedLength) :: w.holdings⟩
  | unmapped {address length : UInt64} {s'}
      (hrange : AnonymousRange w.state.process address.toNat length.toNat)
      (h : Swept others (OnPages address.toNat (List.range (length.toNat / pageSize))) w.state s') :
      Moved others w (.unmap address length)
        ⟨s', w.holdings.map fun x => x.unmap address.toNat length.toNat⟩
  | refused {call} : Moved others w call w

theorem moved_step (h : Tracks others w) (call : MemoryCall) :
    Moved others w call (w.step call) := by
  cases call with
  | map input =>
    rcases memoryMap_cases h.sound input with
      ⟨request, base, s', hrequest, hmap, hmapped⟩ | ⟨e, hmap⟩
    · simp only [Tracked.step, hrequest, hmap]
      exact .mapped hrequest hmapped
    · have hsame : w.step (.map input) = w := by
        simp only [Tracked.step, hmap]
        cases input.request <;> rfl
      rw [hsame]
      exact .refused
  | unmap address length =>
    rcases memoryUnmap_cases h.sound address.toNat_lt length.toNat with
      ⟨hrange, s', hunmap, hswept⟩ | ⟨-, e, hunmap⟩
    · simp only [Tracked.step, hunmap]
      exact .unmapped hrange hswept
    · simp only [Tracked.step, hunmap]
      exact .refused

theorem Moved.tracks {call : MemoryCall} {w' : Tracked} (hmoved : Moved others w call w')
    (h : Tracks others w) : Tracks others w' := by
  cases hmoved with
  | mapped _ hmapped => exact tracks_map h hmapped
  | unmapped hrange hswept => exact tracks_unmap h hrange hswept
  | refused => exact h

theorem tracks_run (h : Tracks others w) (calls : List MemoryCall) :
    Tracks others (w.run calls) := by
  induction calls generalizing w with
  | nil => exact h
  | cons call calls ih => exact ih ((moved_step h call).tracks h)

theorem Start.tracks (start : Start) (calls : List MemoryCall) :
    Tracks start.others (start.after calls) :=
  tracks_run ⟨start.sound, fun q hq hkind => absurd hkind (start.fresh q hq),
    fun _ hx => absurd hx not_mem_nil, fun _ hx => absurd hx not_mem_nil⟩ calls

/-! ### What MEMORY_UNMAP accepts -/

/-- A range is exactly one mapping, none of whose pages has been unmapped. -/
def Exact (w : Tracked) (address length : ℕ) : Prop :=
  ∃ h ∈ w.holdings, h.Intact ∧ h.mapping.base = address ∧ h.mapping.length = length

instance (w : Tracked) (address length : ℕ) : Decidable (Exact w address length) :=
  inferInstanceAs (Decidable (∃ h ∈ w.holdings, _))

/-- Whole pages, each of which belongs to some mapping and has not been unmapped. -/
structure Covered (w : Tracked) (address length : ℕ) : Prop where
  pos : length ≠ 0
  aligned : address % pageSize = 0
  whole : length % pageSize = 0
  pages : ∀ j < length / pageSize, ∃ h ∈ w.holdings, address + j * pageSize ∈ h.remaining

theorem anonymousRange_iff_covered (h : Tracks others w) :
    AnonymousRange w.state.process address length ↔ Covered w address length := by
  constructor
  · rintro ⟨hpos, haligned, hwhole, hpages⟩
    refine ⟨hpos, haligned, hwhole, fun j hj => ?_⟩
    obtain ⟨q, hq, hva, -, hkind⟩ :=
      (isAnonymous_iff h.sound.wf (aligned_page haligned j)).mp (hpages j hj)
    rw [← hva]
    exact h.known q hq hkind
  · rintro ⟨hpos, haligned, hwhole, hpages⟩
    refine ⟨hpos, haligned, hwhole, fun j hj => ?_⟩
    obtain ⟨x, hx, ha⟩ := hpages j hj
    exact (isAnonymous_iff h.sound.wf (aligned_page haligned j)).mpr (h.there x hx _ ha)

/-- MEMORY_UNMAP of this range consumes exactly one mapping, or fails and changes
nothing. -/
def UnmapsOneMapping (w : Tracked) (address length : ℕ) : Prop :=
  ((w.state.memoryUnmap address length).1 = .ok () → Exact w address length) ∧
    (¬ Exact w address length → ∃ e, w.state.memoryUnmap address length = (.error e, w.state))

/-- After any calls MEMORY_UNMAP behaves as documented exactly for the ranges that are
one mapping, and for those with a page that is not mapped. -/
theorem unmaps_one_mapping_iff (start : Start) (calls : List MemoryCall) (address length : UInt64) :
    UnmapsOneMapping (start.after calls) address.toNat length.toNat ↔
      Exact (start.after calls) address.toNat length.toNat ∨
        ¬ Covered (start.after calls) address.toNat length.toNat := by
  have htracks := start.tracks calls
  rw [← anonymousRange_iff_covered htracks]
  rcases memoryUnmap_cases htracks.sound address.toNat_lt length.toNat with
    ⟨hrange, s', hunmap, -⟩ | ⟨hrange, e, hunmap⟩
  · constructor
    · intro hone
      exact .inl (hone.1 (by rw [hunmap]))
    · rintro (hexact | hnot)
      · exact ⟨fun _ => hexact, fun hne => absurd hexact hne⟩
      · exact absurd hrange hnot
  · refine ⟨fun _ => .inr hrange, fun _ => ⟨fun hok => ?_, fun _ => ⟨e, hunmap⟩⟩⟩
    rw [hunmap] at hok
    cases hok

/-- Two pages are mapped, and the first of them is unmapped alone. -/
theorem unmaps_half_a_mapping :
    ¬ UnmapsOneMapping (Start.sample.after [sampleMap 0 2 0 7]) 0x500000000000 4096 := by
  have hok : ((Start.sample.after [sampleMap 0 2 0 7]).state.memoryUnmap 0x500000000000 4096).1 =
      .ok () := by decide +kernel
  have hexact : ¬ Exact (Start.sample.after [sampleMap 0 2 0 7]) 0x500000000000 4096 := by
    decide +kernel
  exact fun hone => hexact (hone.1 hok)

end OpenRFS.NativeProcess
