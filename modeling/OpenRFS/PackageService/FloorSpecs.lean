import OpenRFS.PackageService.Floor
import OpenRFS.PackageService.FileSpecs

/-!
# What the calls on the rollback floor do

`candidate` is the content of one of the two records, and `floorOf` the floor a
store shows. Both are functions of the store; the programs that read the records
compute them, unless a call of the filesystem fails.
-/

namespace OpenRFS.PackageService

open Codec Volume Crash PackageState Machine Service Option

variable {F : Cmd → Prop} {R : Store → Prop} {w : World} {p : Path}

theorem repositoryFloorRecord_roundtrip {version : UInt64} (h : version ≠ 0) :
    ∃ record, repositoryFloorRecordEncode version = some record ∧
      record.length = repositoryFloorBytes ∧
      repositoryFloorRecordParse record = some version := by
  have hbody : (repositoryFloorBody version).length = 32 := by
    simp [repositoryFloorBody, repositoryFloorMagic, asciiText]
  have hsha : sha256 (repositoryFloorBody version) = .ok (sha256Of (repositoryFloorBody version)) :=
    sha256Of_eq (by rw [hbody]; decide)
  set digest := sha256Of (repositoryFloorBody version) with hdigest
  have hlen := digest.property
  set record := repositoryFloorBody version ++ digest.val ++ zeros 64 with hrecord
  have hcut := cutAt_flatten [repositoryFloorMagic, writeU16 1, writeU16 128, writeU32 0,
    writeU64 version, writeU64 0, digest.val, zeros 64]
  have hflat : [repositoryFloorMagic, writeU16 1, writeU16 128, writeU32 0, writeU64 version,
      writeU64 0, digest.val, zeros 64].flatten = record := by
    simp [hrecord, repositoryFloorBody]
  have hmagic : repositoryFloorMagic.length = 8 := rfl
  rw [hflat] at hcut
  simp only [List.map_cons, List.map_nil, hmagic, length_writeU16, length_writeU32,
    length_writeU64, hlen, length_zeros, cutAt_cons, cutAt_nil, zero_add, Nat.reduceAdd,
    List.cons.injEq, and_true] at hcut
  obtain ⟨h0, h8, h10, h12, h16, h24, h32, h64⟩ := hcut
  have hfront : slice record 0 32 = repositoryFloorBody version := by
    rw [hrecord, List.append_assoc, slice_append_left (by rw [hbody]), ← hbody, slice_self]
  refine ⟨record, ?_, ?_, ?_⟩
  · rw [repositoryFloorRecordEncode, if_neg h, hsha]
  · rfl
  · have hzero : isZero (slice record 64 64) := by
      rw [h64, isZero_iff, length_zeros]
    rw [repositoryFloorRecordParse, h0, readU16_of_slice h8, readU16_of_slice h10,
      readU32_of_slice h12, readU64_of_slice h16, readU64_of_slice h24, hzero, if_neg,
      hfront, hsha]
    · dsimp only
      rw [h32, if_neg (not_not.mpr rfl)]
    · simp [h, repositoryFloorBytes]

/-- A floor record: `none` if it is malformed, `some none` if it is not there. -/
def candidate (s : Store) (p : Path) : Option (Option UInt64) :=
  match s.get? p with
  | none => some none
  | some .directory => none
  | some (.file f) =>
    if f.bytes.length = repositoryFloorBytes then
      (repositoryFloorRecordParse f.bytes).map some
    else none

def greater (a b : UInt64) : UInt64 :=
  if a > b then a else b

/-- The floor that a store shows, unless a record is malformed. -/
def floorOf (s : Store) : Option UInt64 := do
  let current ← candidate s repositoryFloorPath
  let new ← candidate s repositoryFloorNewPath
  return greater (current.getD 0) (new.getD 0)

theorem candidate_eq_absent {s : Store} : candidate s p = some none ↔ s.get? p = none := by
  rw [candidate]
  split
  · rename_i h
    simp [h]
  · rename_i h
    simp [h]
  · rename_i f h
    split_ifs <;> simp [h]

theorem candidate_eq_present {s : Store} {version : UInt64} :
    candidate s p = some (some version) ↔ ∃ f, s.get? p = some (.file f) ∧
      f.bytes.length = repositoryFloorBytes ∧
      repositoryFloorRecordParse f.bytes = some version := by
  rw [candidate]
  split
  · rename_i h
    simp [h]
  · rename_i h
    simp [h]
  · rename_i f h
    split_ifs with hlen <;> simp [h, hlen]

theorem candidate_congr {s t : Store} {q : Path} (h : t.get? q = s.get? p) :
    candidate t q = candidate s p := by
  rw [candidate, candidate, h]

theorem version_ne_zero_of_parse {record : Bytes} {version : UInt64}
    (h : repositoryFloorRecordParse record = some version) : version ≠ 0 := by
  rw [repositoryFloorRecordParse] at h
  split_ifs at h with hbad
  split at h
  · cases h
  · split_ifs at h
    cases h
    tauto

theorem version_ne_zero_of_candidate {s : Store} {version : UInt64}
    (h : candidate s p = some (some version)) : version ≠ 0 := by
  obtain ⟨f, -, -, hparse⟩ := candidate_eq_present.mp h
  exact version_ne_zero_of_parse hparse

variable {c : Option UInt64} {Q : Status → World → Prop}

theorem not_directory_of_candidate {s : Store} (h : candidate s p = some c) :
    s.get? p ≠ some .directory := by
  intro hd
  simp [candidate, hd] at h

theorem floorOf_eq_some {s : Store} {floor : UInt64} : floorOf s = some floor ↔
    ∃ c n, candidate s repositoryFloorPath = some c ∧ candidate s repositoryFloorNewPath = some n ∧
      greater (c.getD 0) (n.getD 0) = floor := by
  simp [floorOf, bind_eq_some_iff]

theorem greater_of_le {a b : UInt64} (h : b ≤ a) : greater a b = a := by
  rw [greater]
  split_ifs with hgt
  · rfl
  · exact UInt64.le_antisymm h (UInt64.not_lt.mp hgt)

theorem le_greater_left (a b : UInt64) : a ≤ greater a b := by
  rw [greater]
  split_ifs with h
  · exact UInt64.le_refl a
  · exact UInt64.not_lt.mp h

theorem le_greater_right (a b : UInt64) : b ≤ greater a b := by
  rw [greater]
  split_ifs with h
  · exact UInt64.le_of_lt h
  · exact UInt64.le_refl b

theorem greater_le {a b m : UInt64} (ha : a ≤ m) (hb : b ≤ m) : greater a b ≤ m := by
  rw [greater]
  split_ifs
  · exact ha
  · exact hb

theorem wp_readRepositoryFloorCandidate {Q : FloorCandidate → World → Prop}
    (hp : pathStatus p = .ok) (hs : R w.store)
    (hok : ∀ v c, Quiet w v → candidate w.store p = some c → Q ⟨.ok, c.isSome, c.getD 0⟩ v)
    (hbad : ∀ v r, Quiet w v → candidate w.store p = none ∨ Faulty F → r.status ≠ .ok →
      Q r v) : machine.wp F Q (Safe R) (readRepositoryFloorCandidate p) w := by
  rw [readRepositoryFloorCandidate, wp_bind]
  refine wp_readExactPath hs ?_ ?_
  · intro e
    have hquiet := quiet_failed w e
    have hsafe := hquiet.safe hs
    cases hget : w.store.get? p with
    | none =>
      have hc : candidate w.store p = some none := by rw [candidate, hget]
      rw [exactResult_of_none hp hget, if_pos (Or.inr rfl)]
      exact ⟨hsafe, hok _ none hquiet hc⟩
    | some n =>
      cases n with
      | directory =>
        have hc : candidate w.store p = none := by rw [candidate, hget]
        rw [exactResult_of_directory hget, if_pos (Or.inl (by decide))]
        exact ⟨hsafe, hbad _ _ hquiet (.inl hc) (by decide)⟩
      | file f =>
        by_cases hlen : f.bytes.length = repositoryFloorBytes
        · have hc : candidate w.store p = (repositoryFloorRecordParse f.bytes).map some := by
            simp only [candidate, hget, if_pos hlen]
          rw [exactResult_of_file hget hlen, if_neg (by simp)]
          cases hparse : repositoryFloorRecordParse f.bytes with
          | none =>
            rw [hparse] at hc
            rw [wp_note]
            refine ⟨hsafe, hbad _ _ ⟨⟨rfl, rfl, rfl, rfl, rfl⟩, rfl⟩
              (.inl hc) (by decide)⟩
          | some version =>
            rw [hparse] at hc
            exact ⟨hsafe, hok _ (some version) hquiet hc⟩
        · have hc : candidate w.store p = none := by
            simp only [candidate, hget, if_neg hlen]
          rw [exactResult_of_length hget hlen, if_pos (Or.inl (by decide))]
          exact ⟨hsafe, hbad _ _ hquiet (.inl hc) (by decide)⟩
  · intro hF r e hr
    have hquiet := quiet_failed w e
    rw [if_pos (Or.inl (by simp [hr]))]
    exact ⟨hquiet.safe hs, hbad _ _ hquiet (.inr hF) (by simp [hr])⟩

theorem wp_repositoryFloorReadInternal {Q : FloorState → World → Prop} (hs : R w.store)
    (hok : ∀ v c n, Quiet w v → candidate w.store repositoryFloorPath = some c →
      candidate w.store repositoryFloorNewPath = some n →
      Q ⟨.ok, greater (c.getD 0) (n.getD 0), c.isSome, c.getD 0, n.isSome, n.getD 0⟩ v)
    (hbad : ∀ v r, Quiet w v → floorOf w.store = none ∨ Faulty F → r.status ≠ .ok → Q r v) :
    machine.wp F Q (Safe R) repositoryFloorReadInternal w := by
  rw [repositoryFloorReadInternal, wp_bind]
  refine wp_readRepositoryFloorCandidate (by decide) hs ?_ ?_
  · intro v c hv hc
    rw [if_neg (by simp), wp_bind]
    refine wp_readRepositoryFloorCandidate (by decide) (hv.safe hs) ?_ ?_
    · intro u n hu hn
      rw [hv.store] at hn
      rw [if_neg (by simp), wp_note]
      refine ⟨(hv.trans hu).safe hs, ?_⟩
      refine hok _ c n ((hv.trans hu).trans ?_) hc hn
      exact ⟨⟨rfl, rfl, rfl, rfl, rfl⟩, rfl⟩
    · intro u r hu hn hr
      rw [hv.store] at hn
      rw [if_pos hr]
      refine ⟨(hv.trans hu).safe hs, hbad _ _ (hv.trans hu) (hn.imp_left fun hn => ?_) hr⟩
      simp [floorOf, hc, hn]
  · intro v r hv hc hr
    rw [if_pos hr]
    refine ⟨hv.safe hs, hbad _ _ hv (hc.imp_left fun hc => ?_) hr⟩
    simp [floorOf, hc]

/-- What one operation of an advance to `version` changes of the two records. -/
inductive FloorEdit (version : UInt64) (s t : Store) : Prop
  /-- Neither record is touched. -/
  | keep : t.get? repositoryFloorPath = s.get? repositoryFloorPath →
      t.get? repositoryFloorNewPath = s.get? repositoryFloorNewPath → FloorEdit version s t
  /-- The current record gives way to a newer one. -/
  | drop (c : Option UInt64) (n : UInt64) : candidate s repositoryFloorPath = some c →
      candidate s repositoryFloorNewPath = some (some n) → c.getD 0 < n →
      t.get? repositoryFloorPath = none →
      t.get? repositoryFloorNewPath = s.get? repositoryFloorNewPath → FloorEdit version s t
  /-- The newer record takes the place of the current one. -/
  | move (n : UInt64) : candidate s repositoryFloorPath = some none →
      candidate s repositoryFloorNewPath = some (some n) →
      t.get? repositoryFloorPath = s.get? repositoryFloorNewPath →
      t.get? repositoryFloorNewPath = none → FloorEdit version s t
  /-- A candidate that is not newer is discarded. -/
  | discard (c n : UInt64) : candidate s repositoryFloorPath = some (some c) →
      candidate s repositoryFloorNewPath = some (some n) → n ≤ c →
      t.get? repositoryFloorPath = s.get? repositoryFloorPath →
      t.get? repositoryFloorNewPath = none → FloorEdit version s t
  /-- The new record is written. -/
  | stage (c : Option UInt64) (record : Bytes) (f : File) :
      candidate s repositoryFloorPath = some c →
      candidate s repositoryFloorNewPath = some none → c.getD 0 ≤ version →
      repositoryFloorRecordEncode version = some record → Growing record f →
      t.get? repositoryFloorPath = s.get? repositoryFloorPath →
      t.get? repositoryFloorNewPath = some (.file f) → FloorEdit version s t

/-- The current record has the version, and there is no candidate. -/
structure Recorded (version : UInt64) (s : Store) : Prop where
  current : candidate s repositoryFloorPath = some (some version)
  new : candidate s repositoryFloorNewPath = some none

/-- The store on which an advance to `version` is refused. -/
def Blocked (s : Store) (version : UInt64) : Prop :=
  (∃ f, s.get? stateDirectory = some (.file f)) ∨ floorOf s = none ∨
    ∃ floor, floorOf s = some floor ∧ version < floor

section Advance

variable {version : UInt64} (hs : R w.store) (hR : ∀ s t, R s → FloorEdit version s t → R t)

include hs hR

theorem wp_renameRepositoryFloorNew {n : UInt64}
    (hc : candidate w.store repositoryFloorPath = some none)
    (hn : candidate w.store repositoryFloorNewPath = some (some n))
    (hok : ∀ v, Steady w v → R v.store → Recorded n v.store →
      v.store.get? stateDirectory = some .directory → Q .ok v)
    (hfail : Faulty F → ∀ status v, status ≠ .ok → Steady w v → R v.store → Q status v) :
    machine.wp F Q (Safe R) (do
      let renamed ← renameFile repositoryFloorNewPath repositoryFloorPath
      if renamed ≠ .ok then filesystemFailure renamed else syncData) w := by
  obtain ⟨f, hget, -, -⟩ := candidate_eq_present.mp hn
  have hdir := directory_of_statePath hget
  obtain ⟨t, hrename, hframe, hgone, hput⟩ := Store.rename_spec hget (by decide)
    (candidate_eq_absent.mp hc) (parentReady_statePath hdir)
  have hmoved : t.get? repositoryFloorPath = w.store.get? repositoryFloorNewPath := by
    rw [hput, hget]
  have hnew : R t := hR w.store t hs (.move n hc hn hmoved hgone)
  have hsteady := steady_mutate w (.ok t)
  rw [wp_renameFile, hrename]
  refine ⟨hs, ?_, fun hF e he => ?_⟩
  · rw [if_neg (by simp [statusOf])]
    refine wp_syncData hnew ?_ fun hF e => ?_
    · refine hok _ hsteady hnew ⟨?_, candidate_eq_absent.mpr hgone⟩ ?_
      · exact (candidate_congr hmoved).trans hn
      · exact (hframe.get? _ (by decide)).trans hdir
    · exact hfail hF _ _ (by decide) (hsteady.failed e) hnew
  · rw [if_pos he.1]
    exact wp_failed_or_late hs hnew (hfail ⟨_, hF⟩)

variable (hc : candidate w.store repositoryFloorPath = some c)

include hc

theorem wp_promoteRepositoryFloorNew {n : UInt64}
    (hn : candidate w.store repositoryFloorNewPath = some (some n)) (hlt : c.getD 0 < n)
    (hok : ∀ v, Steady w v → R v.store → Recorded n v.store →
      v.store.get? stateDirectory = some .directory → Q .ok v)
    (hfail : Faulty F → ∀ status v, status ≠ .ok → Steady w v → R v.store → Q status v) :
    machine.wp F Q (Safe R) (promoteRepositoryFloorNew c.isSome) w := by
  rw [promoteRepositoryFloorNew]
  cases c with
  | none => exact wp_renameRepositoryFloorNew hs hR hc hn hok hfail
  | some current =>
    have hkeep : ∀ t, Store.Frame [repositoryFloorPath] w.store t →
        t.get? repositoryFloorNewPath = w.store.get? repositoryFloorNewPath :=
      fun t ht => ht.get? _ (by decide)
    rw [isSome_some, if_pos rfl, wp_bind]
    refine wp_unlinkOptional hs (by decide) (not_directory_of_candidate hc) ?_ ?_ ?_
    · intro t ht hnone
      exact hR w.store t hs (.drop _ n hc hn hlt hnone (hkeep t ht))
    · intro v hv hsafe hframe hnone
      dsimp only
      rw [if_neg (not_not.mpr rfl)]
      refine wp_renameRepositoryFloorNew hsafe hR (candidate_eq_absent.mpr hnone) ?_
        (fun u hu => hok u (hv.trans hu))
        (fun hF status u hstatus hu => hfail hF status u hstatus (hv.trans hu))
      exact (candidate_congr (hkeep _ hframe)).trans hn
    · intro hF status v hstatus hv hsafe
      dsimp only
      rw [if_pos hstatus]
      exact ⟨hsafe, hfail hF status v hstatus hv hsafe⟩

theorem wp_discardRepositoryFloorNew {n : UInt64} {α : Type} {Q : α → World → Prop}
    {k : Status → Service α} (hcurrent : c.isSome)
    (hn : candidate w.store repositoryFloorNewPath = some (some n)) (hle : n ≤ c.getD 0)
    (hdir : w.store.get? stateDirectory = some .directory)
    (hok : ∀ v, Steady w v → R v.store → Recorded (c.getD 0) v.store →
      v.store.get? stateDirectory = some .directory → machine.wp F Q (Safe R) (k .ok) v)
    (hfail : Faulty F → ∀ status v, status ≠ .ok → Steady w v → R v.store →
      machine.wp F Q (Safe R) (k status) v) :
    machine.wp F Q (Safe R) (do
      let status ← unlinkOptional repositoryFloorNewPath
      let status ← andThen status syncData
      k status) w := by
  obtain ⟨current, rfl⟩ := isSome_iff_exists.mp hcurrent
  have hkeep : ∀ t, Store.Frame [repositoryFloorNewPath] w.store t →
      t.get? repositoryFloorPath = w.store.get? repositoryFloorPath :=
    fun t ht => ht.get? _ (by decide)
  rw [wp_bind]
  refine wp_unlinkOptional hs (by decide) (not_directory_of_candidate hn) ?_ ?_ ?_
  · intro t ht hnone
    exact hR w.store t hs (.discard current n hc hn hle (hkeep t ht) hnone)
  · intro v hv hsafe ht hnone
    rw [andThen_ok, wp_bind]
    refine wp_syncData hsafe ?_ fun hF e => hfail hF _ _ (by decide) (hv.failed e) hsafe
    exact hok v hv hsafe ⟨(candidate_congr (hkeep _ ht)).trans hc, candidate_eq_absent.mpr hnone⟩
      ((ht.get? _ (by decide)).trans hdir)
  · intro hF status v hstatus hv hsafe
    rw [andThen_of_ne hstatus]
    exact hfail hF status v hstatus hv hsafe

theorem wp_normalizeRepositoryFloor {Q : Status × Bool × UInt64 → World → Prop} {n : Option UInt64}
    {floor : UInt64} (hn : candidate w.store repositoryFloorNewPath = some n)
    (hdir : w.store.get? stateDirectory = some .directory)
    (hok : ∀ v c', Steady w v → R v.store → candidate v.store repositoryFloorPath = some c' →
      candidate v.store repositoryFloorNewPath = some none →
      v.store.get? stateDirectory = some .directory →
      c'.getD 0 = greater (c.getD 0) (n.getD 0) → Q (.ok, c'.isSome, c'.getD 0) v)
    (hfail : Faulty F → ∀ status r v, status ≠ .ok → Steady w v → R v.store → Q (status, r) v) :
    machine.wp F Q (Safe R)
      (normalizeRepositoryFloor ⟨.ok, floor, c.isSome, c.getD 0, n.isSome, n.getD 0⟩) w := by
  rw [normalizeRepositoryFloor]
  cases n with
  | none =>
    rw [if_neg (by simp), if_neg (by simp)]
    refine ⟨hs, hok w c (.refl w) hs hc hn hdir ?_⟩
    exact (greater_of_le UInt64.zero_le).symm
  | some new =>
    rw [getD_some] at hok ⊢
    have hpos : 0 < new := UInt64.pos_iff_ne_zero.mpr (version_ne_zero_of_candidate hn)
    by_cases hlt : c.getD 0 < new
    · have hgreater : greater (c.getD 0) new = new := if_neg (UInt64.lt_asymm hlt)
      rw [if_pos ⟨rfl, .inr hlt⟩, wp_bind]
      refine wp_promoteRepositoryFloorNew hs hR hc hn hlt ?_ ?_
      · intro v hv hsafe hrecorded hdir'
        exact ⟨hsafe, hok v (some new) hv hsafe hrecorded.current hrecorded.new hdir' hgreater.symm⟩
      · intro hF status v hstatus hv hsafe
        exact ⟨hsafe, hfail hF status _ v hstatus hv hsafe⟩
    · have hle : new ≤ c.getD 0 := UInt64.not_lt.mp hlt
      have hcurrent : c.isSome := by
        cases c with
        | none => exact absurd hpos hlt
        | some current => rfl
      rw [if_neg (by simpa [hcurrent] using hle), if_pos isSome_some]
      refine wp_discardRepositoryFloorNew hs hR hc hcurrent hn hle hdir ?_ ?_
      · intro v hv hsafe hrecorded hdir'
        obtain ⟨current, rfl⟩ := isSome_iff_exists.mp hcurrent
        exact ⟨hsafe, hok v (some current) hv hsafe hrecorded.current hrecorded.new hdir'
          (greater_of_le hle).symm⟩
      · intro hF status v hstatus hv hsafe
        exact ⟨hsafe, hfail hF status _ v hstatus hv hsafe⟩

theorem wp_stageRepositoryFloor (hn : candidate w.store repositoryFloorNewPath = some none)
    (hdir : w.store.get? stateDirectory = some .directory) (hlt : c.getD 0 < version)
    (hok : ∀ v, Steady w v → R v.store → Recorded version v.store → Q .ok v)
    (hfail : Faulty F → ∀ status v, status ≠ .ok → Steady w v → R v.store → Q status v) :
    machine.wp F Q (Safe R) (stageRepositoryFloor version c.isSome) w := by
  have hversion : version ≠ 0 := UInt64.pos_iff_ne_zero.mp (UInt64.lt_of_le_of_lt UInt64.zero_le hlt)
  obtain ⟨record, hencode, hlength, hparse⟩ := repositoryFloorRecord_roundtrip hversion
  have hvacant : Vacant w.store repositoryFloorNewPath :=
    ⟨by decide, candidate_eq_absent.mp hn, parentReady_statePath hdir⟩
  have hkeep : ∀ t, Store.Frame [repositoryFloorNewPath] w.store t →
      t.get? repositoryFloorPath = w.store.get? repositoryFloorPath :=
    fun t ht => ht.get? _ (by decide)
  have hstop : ∀ {status : Status} {v : World}, status ≠ .ok → Faulty F → Steady w v →
      R v.store → machine.wp F Q (Safe R) (do
        if status = .ok then
          note fun r => { r with repositoryFloor := version }
          return .ok
        else return status) v := fun hstatus hF hv hsafe => by
    rw [if_neg hstatus]
    exact ⟨hsafe, hfail hF _ _ hstatus hv hsafe⟩
  rw [stageRepositoryFloor, hencode]
  dsimp only
  rw [wp_bind]
  refine wp_writeNewFile hs ?_ ?_ ?_ ?_
  · intro _ t f ht hget hgrowing
    exact hR w.store t hs (.stage c record f hc hn (UInt64.le_of_lt hlt) hencode hgrowing
      (hkeep t ht) hget)
  · intro t ht hnone
    exact hR w.store t hs (.keep (hkeep t ht) (hnone.trans (candidate_eq_absent.mp hn).symm))
  · intro _ v f hv hsafe ht hget hbytes
    rw [andThen_ok, wp_bind]
    refine wp_syncData hsafe ?_ fun hF e => ?_
    · have hcur : candidate v.store repositoryFloorPath = some c :=
        (candidate_congr (hkeep _ ht)).trans hc
      have hnew : candidate v.store repositoryFloorNewPath = some (some version) :=
        candidate_eq_present.mpr ⟨f, hget, by rw [hbytes, hlength], by rw [hbytes, hparse]⟩
      rw [andThen_ok, wp_bind]
      refine wp_promoteRepositoryFloorNew hsafe hR hcur hnew hlt ?_ ?_
      · intro u hu hsafe' hrecorded _
        rw [if_pos rfl, wp_note]
        exact ⟨hsafe', hok _ ((hv.trans hu).trans ⟨rfl, rfl, rfl, rfl, rfl⟩) hsafe' hrecorded⟩
      · intro hF status u hstatus hu hsafe'
        exact hstop hstatus hF (hv.trans hu) hsafe'
    · have hne : Status.durability ≠ .ok := by decide
      simp only [andThen_of_ne hne, Prog.done_bind]
      exact hstop hne hF (hv.failed e) hsafe
  · intro hblocked status v hstatus hv hsafe
    have hF := hblocked.resolve_right (not_not.mpr hvacant)
    simp only [andThen_of_ne hstatus, Prog.done_bind]
    exact hstop hstatus hF hv hsafe

theorem wp_raiseRepositoryFloor {n : Option UInt64} (hversion : version ≠ 0)
    (hn : candidate w.store repositoryFloorNewPath = some n)
    (hdir : w.store.get? stateDirectory = some .directory)
    (hok : greater (c.getD 0) (n.getD 0) ≤ version → ∀ v, Steady w v → R v.store →
      Recorded version v.store → Q .ok v)
    (hfail : Faulty F ∨ version < greater (c.getD 0) (n.getD 0) →
      ∀ status v, status ≠ .ok → Steady w v → R v.store → Q status v) :
    machine.wp F Q (Safe R) (raiseRepositoryFloor version
      ⟨.ok, greater (c.getD 0) (n.getD 0), c.isSome, c.getD 0, n.isSome, n.getD 0⟩) w := by
  rw [raiseRepositoryFloor]
  split_ifs with hbelow
  · exact ⟨hs, hfail (.inr hbelow) _ _ (by decide) (.refl w) hs⟩
  have hle := UInt64.not_lt.mp hbelow
  rw [wp_bind]
  refine wp_normalizeRepositoryFloor hs hR hc hn hdir ?_ ?_
  · intro v c' hv hsafe hcur hnone hdir' hvalue
    dsimp only
    rw [if_neg (not_not.mpr rfl)]
    split_ifs with hequal
    · obtain ⟨current, rfl⟩ := isSome_iff_exists.mp hequal.1
      obtain rfl : current = version := hequal.2
      rw [wp_note]
      exact ⟨hsafe, hok hle _ (hv.trans ⟨rfl, rfl, rfl, rfl, rfl⟩) hsafe ⟨hcur, hnone⟩⟩
    · refine wp_stageRepositoryFloor hsafe hR hcur hnone hdir' ?_
        (fun u hu => hok hle u (hv.trans hu))
        (fun hF status u hstatus hu => hfail (.inl hF) status u hstatus (hv.trans hu))
      refine UInt64.lt_of_le_of_ne (hvalue.trans_le hle) fun heq => ?_
      cases c' with
      | none => exact hversion heq.symm
      | some current => exact hequal ⟨rfl, heq⟩
  · intro hF status r v hstatus hv hsafe
    dsimp only
    rw [if_pos hstatus]
    exact ⟨hsafe, hfail (.inl hF) status v hstatus hv hsafe⟩

omit hc in
theorem wp_repositoryFloorAdvanceInternal (hversion : version ≠ 0)
    (hok : ¬ Blocked w.store version → ∀ v, Steady w v → R v.store → Recorded version v.store →
      Q .ok v)
    (hfail : Faulty F ∨ Blocked w.store version → ∀ status v, status ≠ .ok → Steady w v →
      R v.store → Q status v) :
    machine.wp F Q (Safe R) (repositoryFloorAdvanceInternal version) w := by
  have hrecords : ∀ t, Store.Frame [stateDirectory] w.store t →
      t.get? repositoryFloorPath = w.store.get? repositoryFloorPath ∧
        t.get? repositoryFloorNewPath = w.store.get? repositoryFloorNewPath :=
    fun t ht => ⟨ht.get? _ (by decide), ht.get? _ (by decide)⟩
  rw [repositoryFloorAdvanceInternal, if_neg hversion, wp_bind]
  refine wp_ensureDirectory hs ?_ ?_ ?_
  · intro t ht _
    exact hR w.store t hs (.keep (hrecords t ht).1 (hrecords t ht).2)
  · intro v hv hsafe ht hdir hbefore
    obtain ⟨hbin, hnew⟩ := hrecords _ ht
    have hfloor : floorOf v.store = floorOf w.store := by
      rw [floorOf, floorOf, candidate_congr hbin, candidate_congr hnew]
    rw [if_neg (not_not.mpr rfl), wp_bind]
    refine wp_repositoryFloorReadInternal hsafe ?_ ?_
    · intro u c n hu hc hn
      have hsteady := hv.trans hu.toSteady
      have hshown : floorOf w.store = some (greater (c.getD 0) (n.getD 0)) :=
        hfloor.symm.trans (floorOf_eq_some.mpr ⟨c, n, hc, hn, rfl⟩)
      rw [← hu.store] at hc hn hdir
      rw [if_neg (not_not.mpr rfl)]
      refine wp_raiseRepositoryFloor (hu.safe hsafe) hR hc hversion hn hdir ?_ ?_
      · intro hle x hx
        refine hok ?_ x (hsteady.trans hx)
        rintro (⟨f, hf⟩ | hnone | ⟨floor, hsome, hlt⟩)
        · exact hbefore f hf
        · cases hnone.symm.trans hshown
        · cases hsome.symm.trans hshown
          exact UInt64.not_lt.mpr hle hlt
      · intro hF status x hstatus hx
        refine hfail (hF.imp_right fun hlt => .inr (.inr ⟨_, hshown, hlt⟩)) status x hstatus ?_
        exact hsteady.trans hx
    · intro u r hu hbad hr
      rw [hfloor] at hbad
      rw [if_pos hr]
      refine ⟨hu.safe hsafe, hfail ?_ _ _ hr (hv.trans hu.toSteady) (hu.safe hsafe)⟩
      exact hbad.elim (fun h => .inr (.inr (.inl h))) .inl
  · intro hbad status v hstatus hv hsafe
    rw [if_pos hstatus]
    refine ⟨hsafe, hfail (hbad.imp_right fun h => .inl ?_) status v hstatus hv hsafe⟩
    -- the directory is missing or a file, and a missing one can be made
    cases hget : w.store.get? stateDirectory with
    | none =>
      refine absurd ?_ h.2
      exact ⟨by decide, hget, by simp [Store.parentReady, stateDirectory]⟩
    | some n =>
      cases n with
      | directory => exact absurd hget h.1
      | file f => exact ⟨f, rfl⟩

end Advance

end OpenRFS.PackageService
