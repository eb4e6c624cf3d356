import OpenRFS.PackageService.FloorSpecs

/-!
# Histories of the rollback floor

A history is a sequence of calls on the floor in which every call of the
filesystem may fail, with its change made or not, and every call of the service
may be cut off. What it shows to the outside are the versions that an advance has
accepted and the versions that a read has given.

Every operation of an advance leaves a store whose floor is not below the floor
before, if it can be read at all. So a version below which the store does not lie
stays below every later read, and every version that is accepted or read is one.
-/

namespace OpenRFS.PackageService

open Volume Crash Machine List Option

variable {w : World} {s t : Store} {version m : UInt64}

/-- The store cannot be read as a floor below `m`. -/
def AtLeast (m : UInt64) (s : Store) : Prop :=
  ∀ floor, floorOf s = some floor → m ≤ floor

theorem FloorEdit.le_floor (h : FloorEdit version s t) {floor : UInt64}
    (hfloor : floorOf t = some floor) : ∃ before, floorOf s = some before ∧ before ≤ floor := by
  obtain ⟨c', n', hc', hn', rfl⟩ := floorOf_eq_some.mp hfloor
  cases h with
  | keep hbin hnew =>
    rw [candidate_congr hbin] at hc'
    rw [candidate_congr hnew] at hn'
    exact ⟨_, floorOf_eq_some.mpr ⟨c', n', hc', hn', rfl⟩, UInt64.le_refl _⟩
  | drop c n hc hn hlt hbin hnew =>
    rw [candidate_congr hnew, hn] at hn'
    obtain rfl := Option.some.inj hn'
    refine ⟨_, floorOf_eq_some.mpr ⟨c, some n, hc, hn, rfl⟩, ?_⟩
    exact greater_le (UInt64.le_trans (UInt64.le_of_lt hlt) (le_greater_right _ _))
      (le_greater_right _ _)
  | move n hc hn hbin hnew =>
    rw [candidate_congr hbin, hn] at hc'
    obtain rfl := Option.some.inj hc'
    refine ⟨_, floorOf_eq_some.mpr ⟨none, some n, hc, hn, rfl⟩, ?_⟩
    exact greater_le (UInt64.zero_le) (le_greater_left _ _)
  | discard c n hc hn hle hbin hnew =>
    rw [candidate_congr hbin, hc] at hc'
    obtain rfl := Option.some.inj hc'
    refine ⟨_, floorOf_eq_some.mpr ⟨some c, some n, hc, hn, rfl⟩, ?_⟩
    exact greater_le (le_greater_left _ _) (UInt64.le_trans hle (le_greater_left _ _))
  | stage c record f hc hn hle hencode hgrowing hbin hnew =>
    rw [candidate_congr hbin, hc] at hc'
    obtain rfl := Option.some.inj hc'
    refine ⟨_, floorOf_eq_some.mpr ⟨c, none, hc, hn, rfl⟩, ?_⟩
    exact greater_le (le_greater_left _ _) UInt64.zero_le

theorem AtLeast.edit (hs : AtLeast m s) (h : FloorEdit version s t) : AtLeast m t := by
  intro floor hfloor
  obtain ⟨before, hbefore, hle⟩ := h.le_floor hfloor
  exact UInt64.le_trans (hs before hbefore) hle

theorem atLeast_of_candidates {version : UInt64}
    (hbin : candidate s repositoryFloorPath = some (some version)) : AtLeast version s := by
  intro floor hfloor
  obtain ⟨c, n, hc, -, rfl⟩ := floorOf_eq_some.mp hfloor
  rw [hbin] at hc
  obtain rfl := Option.some.inj hc
  exact le_greater_left _ _

inductive FloorRequest
  | read
  | advance (version : UInt64)

/-- What a call on the floor shows to the outside. -/
inductive FloorEvent
  | seen (version : UInt64)
  | accepted (version : UInt64)
  deriving DecidableEq

def FloorEvent.floor : FloorEvent → UInt64
  | .seen version => version
  | .accepted version => version

def FloorRequest.run : FloorRequest → Service (Option FloorEvent)
  | .read => do
      let (status, floor) ← repositoryFloorRead
      return if status = .ok then some (.seen floor) else none
  | .advance version => do
      let status ← repositoryFloorAdvance version
      return if status = .ok then some (.accepted version) else none

def Any : Cmd → Prop := fun _ => True

/-- A history from the world `w` on with its events. A call returns, in a run in
which any operation may fail, or is cut off, and then the next call finds the store
that the crash has left. -/
inductive FloorHistory : World → List FloorEvent → Prop
  | nil (w : World) : FloorHistory w []
  | call {w v : World} (request : FloorRequest) (event : Option FloorEvent)
      {events : List FloorEvent} : machine.Outcome Any request.run w event v →
      FloorHistory v events → FloorHistory w (event.toList ++ events)
  | cut {w v : World} (request : FloorRequest) {events : List FloorEvent} :
      machine.Reaches Any request.run w v → FloorHistory (boot v.store) events →
      FloorHistory w events

structure Bounded (m : UInt64) (w : World) : Prop where
  ready : Ready true w
  store : AtLeast m w.store

theorem bounded_boot (h : AtLeast m s) : Bounded m (boot s) :=
  ⟨ready_boot s true, h⟩

theorem wp_repositoryFloorRead {F : Cmd → Prop} {R : Store → Prop}
    {Q : Status × UInt64 → World → Prop} (hready : Ready true w) (hs : R w.store)
    (hok : ∀ v floor, v.store = w.store → Ready true v → floorOf w.store = some floor →
      Q (.ok, floor) v)
    (hbad : ∀ v status, v.store = w.store → Ready true v → floorOf w.store = none ∨ Faulty F →
      status ≠ .ok → Q (status, 0) v) : machine.wp F Q (Safe R) repositoryFloorRead w := by
  refine wp_serviceCall hready.read ?_
  rw [wp_bind]
  refine wp_repositoryFloorReadInternal (w := w.fresh) hs ?_ ?_
  · intro v c n hv hc hn
    refine ⟨hv.safe hs, hv.toSteady, ?_⟩
    exact hok _ _ hv.store (hready.finished hv.drive hv.heapActive)
      (floorOf_eq_some.mpr ⟨c, n, hc, hn, rfl⟩)
  · intro v r hv hbad' hr
    refine ⟨hv.safe hs, hv.toSteady, ?_⟩
    rw [if_neg hr]
    exact hbad _ _ hv.store (hready.finished hv.drive hv.heapActive) hbad' hr

theorem wp_repositoryFloorAdvance {F : Cmd → Prop} {R : Store → Prop}
    {Q : Status → World → Prop} (hready : Ready true w) (hs : R w.store)
    (hR : ∀ s t, R s → FloorEdit version s t → R t)
    (hok : ¬ Blocked w.store version → ∀ v, Ready true v → R v.store →
      Recorded version v.store → Q .ok v)
    (hfail : Faulty F ∨ Blocked w.store version ∨ version = 0 →
      ∀ status v, status ≠ .ok → Ready true v → R v.store → Q status v) :
    machine.wp F Q (Safe R) (repositoryFloorAdvance version) w := by
  rw [repositoryFloorAdvance]
  split_ifs with hversion
  · exact ⟨hs, hfail (.inr (.inr hversion)) _ _ (by decide) hready hs⟩
  · refine wp_statusCall hready ?_
    refine wp_repositoryFloorAdvanceInternal (w := w.fresh) hs hR hversion ?_ ?_
    · intro hfree v hv hsafe h
      exact ⟨hv, hok hfree _ (hready.finished hv.drive hv.heapActive) hsafe h⟩
    · intro hF status v hstatus hv hsafe
      refine ⟨hv, hfail (hF.imp_right .inl) _ _ hstatus ?_ hsafe⟩
      exact hready.finished hv.drive hv.heapActive

open FloorRequest

theorem wp_run {request : FloorRequest} (hw : Bounded m w) :
    machine.wp Any (fun event v => Bounded m v ∧ ∀ e ∈ event, Bounded e.floor v ∧
      ∀ floor, e = .seen floor → m ≤ floor) (Safe (AtLeast m)) request.run w := by
  cases request with
  | read =>
    rw [run, wp_bind]
    refine wp_repositoryFloorRead hw.ready hw.store ?_ ?_
    · intro v floor hstore hready hfloor
      have hv : Bounded m v := ⟨hready, by rw [hstore]; exact hw.store⟩
      rw [← hstore] at hfloor
      refine ⟨hv.store, hv, ?_⟩
      rintro e ⟨⟩
      refine ⟨⟨hready, fun floor' h => ?_⟩, ?_⟩
      · exact UInt64.le_of_eq (Option.some.inj (hfloor.symm.trans h))
      · rintro _ ⟨⟩
        exact hv.store floor hfloor
    · intro v status hstore hready _ hstatus
      dsimp only
      rw [if_neg hstatus]
      have hv : Bounded m v := ⟨hready, by rw [hstore]; exact hw.store⟩
      exact ⟨hv.store, hv, nofun⟩
  | advance version =>
    rw [run, wp_bind]
    refine wp_repositoryFloorAdvance hw.ready hw.store (fun _ _ => AtLeast.edit) ?_ ?_
    · intro _ v hready hsafe hrecorded
      refine ⟨hsafe, ⟨hready, hsafe⟩, ?_⟩
      rintro e ⟨⟩
      exact ⟨⟨hready, atLeast_of_candidates hrecorded.current⟩, nofun⟩
    · intro _ status v hstatus hready hsafe
      rw [if_neg hstatus]
      exact ⟨hsafe, ⟨hready, hsafe⟩, nofun⟩

theorem FloorHistory.bound {events : List FloorEvent} (h : FloorHistory w events)
    (hw : Bounded m w) : ∀ floor, .seen floor ∈ events → m ≤ floor := by
  induction h with
  | nil w => nofun
  | call request event hout _ ih =>
    obtain ⟨hv, hevent⟩ := hout.post (wp_run hw)
    intro floor hmem
    rcases mem_append.mp hmem with hmem | hmem
    · exact (hevent _ (mem_toList.mp hmem)).2 floor rfl
    · exact ih hv floor hmem
  | cut request hreach _ ih => exact ih (bounded_boot (hreach.crash (wp_run hw)))

/-- Every read gives at least what was seen or accepted before it. -/
def NeverRegresses (events : List FloorEvent) : Prop :=
  events.Pairwise fun earlier later => ∀ floor, later = .seen floor → earlier.floor ≤ floor

theorem FloorHistory.neverRegresses {events : List FloorEvent} (h : FloorHistory w events)
    (hw : Bounded m w) : NeverRegresses events := by
  induction h with
  | nil w => exact List.Pairwise.nil
  | call request event hout hrest ih =>
    obtain ⟨hv, hevent⟩ := hout.post (wp_run hw)
    refine pairwise_append.mpr ⟨?_, ih hv, ?_⟩
    · cases event <;> simp
    · rintro e he later hlater floor rfl
      exact hrest.bound (hevent e (mem_toList.mp he)).1 floor hlater
  | cut request hreach _ ih => exact ih (bounded_boot (hreach.crash (wp_run hw)))

/-- Whatever fails and wherever the calls are cut off, a read gives at least every
version that an advance has accepted or a read has given before. -/
theorem repositoryFloor_neverRegresses (s : Store) (events : List FloorEvent)
    (h : FloorHistory (boot s) events) : NeverRegresses events :=
  h.neverRegresses (bounded_boot (m := 0) fun _ _ => UInt64.zero_le)

/-- The barriers fail that have one of the numbers among the commands of a call. -/
def barriersFail (numbers : List ℕ) : ℕ → (c : Cmd) → Option (Reply c)
  | number, .sync => if number ∈ numbers then some .io else none
  | _, _ => none

theorem barriersFail_spec (numbers : List ℕ) (number : ℕ) (c : Cmd) (r : Reply c)
    (h : barriersFail numbers number c = some r) : Any c ∧ machine.Fails c r := by
  cases c with
  | sync =>
    rw [barriersFail] at h
    split_ifs at h
    cases h
    have hio : Device .io := by decide
    exact ⟨trivial, hio⟩
  | _ => cases h

/-- A call of which at most `left` commands are run, with failing barriers. -/
def FloorRequest.cutAfter (request : FloorRequest) (left : ℕ) (numbers : List ℕ) (w : World) :
    Option (Option FloorEvent) × World :=
  machine.cutRun (barriersFail numbers) request.run left 0 w

section CutAfter

variable {events : List FloorEvent}

theorem FloorHistory.call_cutAfter (request : FloorRequest) (left : ℕ) (numbers : List ℕ)
    (event : Option FloorEvent)
    (h : (request.cutAfter left numbers w).1 = some event)
    (hrest : FloorHistory (request.cutAfter left numbers w).2 events) :
    FloorHistory w (event.toList ++ events) :=
  .call request event (outcome_cutRun (barriersFail_spec numbers) (Prod.ext h rfl)) hrest

theorem FloorHistory.cut_cutAfter (request : FloorRequest) (left : ℕ) (numbers : List ℕ)
    (hrest : FloorHistory (boot (request.cutAfter left numbers w).2.store) events) :
    FloorHistory w events :=
  .cut request (reaches_cutRun (barriersFail_spec numbers)) hrest

end CutAfter

/-- The version 3 is accepted; the advance to 5 reports a failed barrier, and the
floor is 5 all the same; the advance to 7 is cut off when only the new record is
left, and the floor is 7. -/
theorem repositoryFloor_neverRegresses_cut :
    NeverRegresses [.accepted 3, .seen 5, .seen 7] := by
  refine repositoryFloor_neverRegresses .empty _ ?_
  refine .call_cutAfter (.advance 3) 50 [] (some (.accepted 3)) ?_ ?_
  · decide +kernel
  refine .call_cutAfter (.advance 5) 50 [23] none ?_ ?_
  · decide +kernel
  refine .call_cutAfter .read 50 [] (some (.seen 5)) ?_ ?_
  · decide +kernel
  refine .cut_cutAfter (.advance 7) 22 [] ?_
  refine .call_cutAfter .read 50 [] (some (.seen 7)) ?_ (.nil _)
  decide +kernel

/-- The two records, as advances that are only cut off leave them: the current one
is valid if it is there, and the candidate is a front part of a valid one. -/
structure Cuttable (s : Store) : Prop where
  current : candidate s repositoryFloorPath ≠ none
  new : s.get? repositoryFloorNewPath = none ∨ ∃ version record f,
    repositoryFloorRecordEncode version = some record ∧ Growing record f ∧
      s.get? repositoryFloorNewPath = some (.file f)

theorem Cuttable.edit (hs : Cuttable s) (h : FloorEdit version s t) : Cuttable t := by
  cases h with
  | keep hbin hnew => exact ⟨by rw [candidate_congr hbin]; exact hs.current, by rw [hnew]; exact hs.new⟩
  | drop c n hc hn hlt hbin hnew =>
    exact ⟨by rw [candidate_eq_absent.mpr hbin]; nofun, by rw [hnew]; exact hs.new⟩
  | move n hc hn hbin hnew => exact ⟨by rw [candidate_congr hbin, hn]; nofun, .inl hnew⟩
  | discard c n hc hn hle hbin hnew =>
    exact ⟨by rw [candidate_congr hbin]; exact hs.current, .inl hnew⟩
  | stage c record f hc hn hle hencode hgrowing hbin hnew =>
    exact ⟨by rw [candidate_congr hbin]; exact hs.current,
      .inr ⟨version, record, f, hencode, hgrowing, hnew⟩⟩

theorem candidate_of_growing {record : Bytes} {f : File} {p : Path}
    (hencode : repositoryFloorRecordEncode version = some record) (hgrowing : Growing record f)
    (hget : s.get? p = some (.file f)) : candidate s p =
      if f.bytes.length = repositoryFloorBytes then some (some version) else none := by
  have hversion : version ≠ 0 := by
    rintro rfl
    cases hencode
  obtain ⟨record', hencode', hlength, hparse⟩ := repositoryFloorRecord_roundtrip hversion
  obtain rfl : record = record' := Option.some.inj (hencode.symm.trans hencode')
  simp only [candidate, hget]
  split_ifs with hfull
  · have hbytes : f.bytes = record := hgrowing.bytes.eq_of_length (by rw [hfull, hlength])
    rw [hbytes, hparse]
    rfl
  · rfl

/-- An advance on the store `s` may be cut off and leave `t`. -/
def AdvanceCut (s t : Store) : Prop :=
  ∃ version w, machine.Reaches Clean (repositoryFloorAdvance version) (boot s) w ∧ w.store = t

theorem Cuttable.cut (hs : Cuttable s) (h : AdvanceCut s t) : Cuttable t := by
  obtain ⟨version, w, hreach, rfl⟩ := h
  refine hreach.crash (Q := fun _ _ => True) (C := Safe Cuttable) ?_
  exact wp_repositoryFloorAdvance (ready_boot s true) hs (fun _ _ => Cuttable.edit)
    (fun _ _ _ _ _ => trivial) fun _ _ _ _ _ _ => trivial

theorem Cuttable.cuts (hs : Cuttable s) (h : Relation.ReflTransGen AdvanceCut s t) :
    Cuttable t := by
  induction h with
  | refl => exact hs
  | tail _ hcut ih => exact ih.cut hcut

/-- The candidate of such a store can be read unless its record is not whole. -/
theorem Cuttable.candidate_new (hs : Cuttable s) :
    candidate s repositoryFloorNewPath ≠ none ↔
      ∀ f, s.get? repositoryFloorNewPath = some (.file f) →
        f.bytes.length = repositoryFloorBytes := by
  rcases hs.new with hnew | ⟨version, record, f, hencode, hgrowing, hnew⟩
  · simp [candidate_eq_absent.mpr hnew, hnew]
  · rw [candidate_of_growing hencode hgrowing hnew, hnew]
    split_ifs with hfull <;> simp [hfull]

theorem exec_repositoryFloorRead (s : Store) :
    ∃ status v, machine.exec repositoryFloorRead (boot s) =
        ((status, (floorOf s).getD 0), v) ∧ (status = .ok ↔ floorOf s ≠ none) ∧
      Ready true v ∧ v.store = s := by
  have h := post_exec (wp_repositoryFloorRead (F := Clean) (R := fun _ => True)
    (Q := fun r v => r.2 = (floorOf s).getD 0 ∧ (r.1 = .ok ↔ floorOf s ≠ none) ∧ Ready true v ∧
      v.store = s) (ready_boot s true) trivial ?_ ?_)
  · obtain ⟨hvalue, hrest⟩ := h
    exact ⟨_, _, by rw [← hvalue], hrest⟩
  · intro v floor hstore hready hfloor
    have hfloor : floorOf s = some floor := hfloor
    simp [hfloor, hready, hstore, boot]
  · intro v status hstore hready hbad hstatus
    have hfloor : floorOf s = none := hbad.resolve_right not_faulty_clean
    simp [hfloor, hready, hstore, boot, hstatus]

/-- An advance without failures is accepted unless something blocks it. -/
theorem exec_repositoryFloorAdvance (version : UInt64) (hready : Ready true w) :
    (machine.exec (repositoryFloorAdvance version) w).1 = .ok ↔
      version ≠ 0 ∧ ¬ Blocked w.store version := by
  by_cases hversion : version = 0
  · subst hversion
    rw [repositoryFloorAdvance, if_pos rfl]
    simp [Machine.exec]
  refine post_exec (wp_repositoryFloorAdvance (F := Clean) (R := fun _ => True)
    (Q := fun status _ => status = .ok ↔ version ≠ 0 ∧ ¬ Blocked w.store version) hready
    trivial (fun _ _ _ _ => trivial)
    (fun hfree _ _ _ _ => iff_of_true rfl ⟨hversion, hfree⟩) ?_)
  intro h status v hstatus _ _
  refine iff_of_false hstatus ?_
  rintro ⟨-, hfree⟩
  rcases h with h | h | h
  · exact not_faulty_clean h
  · exact hfree h
  · exact hversion h

theorem floorOf_eq_zero : floorOf s = some 0 ↔
    s.get? repositoryFloorPath = none ∧ s.get? repositoryFloorNewPath = none := by
  rw [floorOf_eq_some]
  constructor
  · rintro ⟨c, n, hc, hn, hzero⟩
    have habsent : ∀ {p : Path} {a : Option UInt64}, candidate s p = some a → a.getD 0 ≤ 0 →
        s.get? p = none := by
      intro p a ha hle
      cases a with
      | none => exact candidate_eq_absent.mp ha
      | some v => exact absurd (UInt64.le_zero_iff.mp hle) (version_ne_zero_of_candidate ha)
    have hleft := le_greater_left (c.getD 0) (n.getD 0)
    have hright := le_greater_right (c.getD 0) (n.getD 0)
    rw [hzero] at hleft hright
    exact ⟨habsent hc hleft, habsent hn hright⟩
  · rintro ⟨hbin, hnew⟩
    exact ⟨none, none, candidate_eq_absent.mpr hbin, candidate_eq_absent.mpr hnew, rfl⟩

/-- The two records of a store that advances have left show a floor, and an advance
to `version` that is not below it is accepted. -/
def FloorServes (s : Store) (version : UInt64) : Prop :=
  ∃ floor v, machine.exec repositoryFloorRead (boot s) = ((.ok, floor), v) ∧
    (floor ≤ version → (machine.exec (repositoryFloorAdvance version) v).1 = .ok)

theorem floorServes_iff : FloorServes s version ↔
    ∃ floor, floorOf s = some floor ∧ (floor ≤ version → version ≠ 0 ∧ ¬ Blocked s version) := by
  obtain ⟨status, v, hread, hstatus, hready, hstore⟩ := exec_repositoryFloorRead s
  have hadvance := exec_repositoryFloorAdvance version hready
  rw [hstore] at hadvance
  constructor
  · rintro ⟨floor, v', hread', h⟩
    obtain ⟨⟨rfl, rfl⟩, rfl⟩ : (status = .ok ∧ (floorOf s).getD 0 = floor) ∧ v = v' := by
      rw [hread] at hread'
      simpa using hread'
    obtain ⟨floor, hfloor⟩ := ne_none_iff_exists'.mp (hstatus.mp rfl)
    rw [hfloor] at h
    exact ⟨floor, hfloor, fun hle => hadvance.mp (h hle)⟩
  · rintro ⟨floor, hfloor, h⟩
    refine ⟨floor, v, ?_, fun hle => hadvance.mpr (h hle)⟩
    rw [hread, hstatus.mpr (by simp [hfloor]), hfloor]
    rfl

/-- Advances that were cut off leave a floor that serves later calls exactly if
the candidate, where there is one, is a whole record, and the state directory is
not taken by a file. The version zero is never accepted. -/
theorem repositoryFloor_serves_iff (s₀ s : Store) (version : UInt64)
    (hcurrent : candidate s₀ repositoryFloorPath ≠ none)
    (hnew : s₀.get? repositoryFloorNewPath = none)
    (hcuts : Relation.ReflTransGen AdvanceCut s₀ s) :
    FloorServes s version ↔ (∀ f, s.get? repositoryFloorNewPath = some (.file f) →
        f.bytes.length = repositoryFloorBytes) ∧
      (∀ f, s.get? stateDirectory ≠ some (.file f)) ∧
      (version = 0 → s.get? repositoryFloorPath ≠ none ∨ s.get? repositoryFloorNewPath ≠ none) := by
  have hs : Cuttable s := Cuttable.cuts ⟨hcurrent, .inl hnew⟩ hcuts
  rw [floorServes_iff, ← hs.candidate_new]
  constructor
  · rintro ⟨floor, hfloor, hserves⟩
    obtain ⟨c, n, -, hn, -⟩ := floorOf_eq_some.mp hfloor
    have hzero : s.get? repositoryFloorPath = none ∧ s.get? repositoryFloorNewPath = none →
        version ≠ 0 ∧ ¬ Blocked s version := by
      intro h
      obtain rfl : floor = 0 := Option.some.inj (hfloor.symm.trans (floorOf_eq_zero.mpr h))
      exact hserves UInt64.zero_le
    refine ⟨by rw [hn]; nofun, fun f hf => ?_, fun hversion => ?_⟩
    · -- below a file there is no record
      have hnone : ∀ name, s.get? (statePath name) = none := by
        intro name
        cases hget : s.get? (statePath name) with
        | none => rfl
        | some n => cases hf.symm.trans (directory_of_statePath hget)
      exact (hzero ⟨hnone _, hnone _⟩).2 (.inl ⟨f, hf⟩)
    · by_contra hboth
      simp only [not_or, not_not] at hboth
      exact (hzero hboth).1 hversion
  · rintro ⟨hn, hdir, hversion⟩
    obtain ⟨c, hc⟩ := ne_none_iff_exists'.mp hs.current
    obtain ⟨n, hn⟩ := ne_none_iff_exists'.mp hn
    have hfloor := floorOf_eq_some.mpr ⟨c, n, hc, hn, rfl⟩
    refine ⟨_, hfloor, fun hle => ⟨?_, ?_⟩⟩
    · rintro rfl
      rw [UInt64.le_zero_iff.mp hle, floorOf_eq_zero] at hfloor
      exact (hversion rfl).elim (fun h => h hfloor.1) fun h => h hfloor.2
    · rintro (⟨f, hf⟩ | hnone | ⟨floor, hsome, hlt⟩)
      · exact hdir f hf
      · cases hnone.symm.trans hfloor
      · cases hsome.symm.trans hfloor
        exact UInt64.not_lt.mpr hle hlt

/-- The world in which an advance to 5 has been cut off after its first commands. -/
def stagedFloor (left : ℕ) : World :=
  (machine.cutRun (fun _ _ => none) (repositoryFloorAdvance 5) left 0 (boot .empty)).2

theorem advanceCut_stagedFloor (left : ℕ) : AdvanceCut .empty (stagedFloor left).store :=
  ⟨5, _, reaches_cutRun (by simp), rfl⟩

/-- A cut behind the write of the candidate leaves a whole record, and the advance
is accepted when it is asked for again. -/
theorem repositoryFloor_serves_staged : FloorServes (stagedFloor 13).store 5 := by
  have hcurrent : candidate .empty repositoryFloorPath ≠ none := by decide
  have hcuts := Relation.ReflTransGen.single (advanceCut_stagedFloor 13)
  have hs : Cuttable (stagedFloor 13).store := Cuttable.cuts ⟨hcurrent, .inl rfl⟩ hcuts
  have hdirectory : (stagedFloor 13).store.get? stateDirectory = some .directory := by
    decide +kernel
  refine (repositoryFloor_serves_iff .empty _ 5 hcurrent rfl hcuts).mpr ⟨?_, ?_, ?_⟩
  · exact hs.candidate_new.mp (by decide +kernel)
  · simp [hdirectory]
  · simp

/-- A cut after the candidate has been created, and before it has been written,
leaves a floor that cannot be read any more. -/
theorem repositoryFloor_wedged :
    AdvanceCut .empty (stagedFloor 11).store ∧
      (machine.exec repositoryFloorRead (boot (stagedFloor 11).store)).1 = (.state, 0) ∧
      (machine.exec (repositoryFloorAdvance 5) (boot (stagedFloor 11).store)).1 = .state := by
  refine ⟨advanceCut_stagedFloor 11, ?_, ?_⟩
  · decide +kernel
  · decide +kernel

end OpenRFS.PackageService
