import OpenRFS.PackageService.Rules

/-!
# What the file helpers do

One statement for each helper of the service. In a run without failures the
result is determined by the store; a run in which calls may fail has the result
`filesystem` as a further case, with the failed status noted in the report and the
change of the failed call made or not. A helper that writes a file leaves on its way
stores in which the file holds a front part of its bytes.
-/

namespace OpenRFS.PackageService

open Codec Volume Crash Machine Service List Store World File

variable {α : Type} {F : Cmd → Prop} {R : Store → Prop} {w v : World} {p : Path}
variable {Q : Status → World → Prop}

def Faulty (F : Cmd → Prop) : Prop := ∃ c, F c

theorem not_faulty_clean : ¬ Faulty (Clean : Cmd → Prop) := by
  rintro ⟨c, hc⟩
  exact hc

/-- The worlds agree in everything that later calls of the service look at,
except the store. -/
structure Steady (w v : World) : Prop where
  drive : v.drive = w.drive
  heapActive : v.heapActive = w.heapActive
  servicing : v.memory.servicing = w.memory.servicing
  liveFileHandles : v.memory.report.liveFileHandles = w.memory.report.liveFileHandles
  liveAllocations : v.memory.report.liveAllocations = w.memory.report.liveAllocations

theorem Steady.trans {u : World} (h : Steady w v) (h' : Steady v u) : Steady w u :=
  ⟨h'.drive.trans h.drive, h'.heapActive.trans h.heapActive, h'.servicing.trans h.servicing,
    h'.liveFileHandles.trans h.liveFileHandles, h'.liveAllocations.trans h.liveAllocations⟩

theorem Steady.refl (w : World) : Steady w w := ⟨rfl, rfl, rfl, rfl, rfl⟩

theorem Steady.failed (h : Steady w v) (e : FsStatus) : Steady w (v.failed e) :=
  h.trans ⟨rfl, rfl, rfl, rfl, rfl⟩

theorem steady_mutate (w : World) (result : Except FsStatus Store) :
    Steady w (w.mutate result) := by
  cases result <;> exact ⟨rfl, rfl, rfl, rfl, rfl⟩

/-- The worlds agree in everything that later calls of the service look at. -/
structure Quiet (w v : World) : Prop extends Steady w v where
  store : v.store = w.store

theorem Quiet.trans {u : World} (h : Quiet w v) (h' : Quiet v u) : Quiet w u :=
  ⟨h.toSteady.trans h'.toSteady, h'.store.trans h.store⟩

theorem quiet_failed (w : World) (e : FsStatus) : Quiet w (w.failed e) :=
  ⟨⟨rfl, rfl, rfl, rfl, rfl⟩, rfl⟩

theorem Quiet.safe (h : Quiet w v) (hs : R w.store) : R v.store := by
  rwa [h.store]

theorem wp_filesystemFailure {e : FsStatus} :
    machine.wp F Q (Safe R) (filesystemFailure e) w ↔ R w.store ∧ Q .filesystem (w.failed e) := by
  rw [filesystemFailure, wp_note]
  exact Iff.rfl

/-- A helper with more results than a status passes the noted failure on among them. -/
theorem wp_return_failure {Q : α → World → Prop} {e : FsStatus} {result : Status → α}
    (hs : R w.store) (hQ : Q (result .filesystem) (w.failed e)) :
    machine.wp F Q (Safe R) (do return result (← filesystemFailure e)) w :=
  wp_bind.mpr (wp_filesystemFailure.mpr ⟨hs, hs, hQ⟩)

def World.closed (w : World) : World :=
  w.noted fun r => { r with liveFileHandles := r.liveFileHandles - 1 }

def World.opened (w : World) : World :=
  w.noted fun r => { r with liveFileHandles := r.liveFileHandles + 1 }

@[simp] theorem World.closed_opened (w : World) : w.opened.closed = w := by
  simp [closed, opened, noted]

theorem wp_handleAcquired {Q : α → World → Prop} {k : Unit → Service α} :
    machine.wp F Q (Safe R) (handleAcquired >>= k) w ↔ machine.wp F Q (Safe R) (k ()) w.opened :=
  wp_note

theorem wp_closeFile (hs : R w.store) (hok : Q .ok w.closed)
    (hfail : Faulty F → ∀ e, Q .filesystem (w.closed.failed e)) :
    machine.wp F Q (Safe R) (closeFile p) w := by
  rw [closeFile, wp_closeHandle]
  refine ⟨?_, fun hF e he => ?_⟩
  · rw [wp_note]
    exact ⟨hs, hok⟩
  · rw [wp_note, if_neg he.1]
    exact wp_filesystemFailure.mpr ⟨hs, hfail ⟨_, hF⟩ e⟩

theorem slice_eq_drop {b : Bytes} {off n : ℕ} (h : b.length = off + n) :
    slice b off n = b.drop off := by
  rw [slice, take_of_length_le (by simp [h])]

theorem wp_readOpenLoop {Q : Status × Bytes → World → Prop} {f : File} {count fuel : ℕ}
    {done : Bytes} (hfile : w.store.get? p = some (.file f)) (hlen : f.bytes.length = count)
    (hdone : f.bytes.take done.length = done) (hle : done.length ≤ count)
    (hfuel : count < done.length + fuel) (hs : R w.store) (hok : Q (.ok, f.bytes) w)
    (hfail : Faulty F → ∀ e b, Q (.filesystem, b) (w.failed e)) :
    machine.wp F Q (Safe R) (readOpenLoop p count fuel done) w := by
  induction fuel generalizing done with
  | zero => omega
  | succ fuel ih =>
    rw [readOpenLoop]
    split_ifs with hlt
    · have hread : w.store.read p done.length (count - done.length) =
          .ok (f.bytes.drop done.length) := by
        rw [read_of_file hfile, slice_eq_drop (by omega)]
      have hbytes : (f.bytes.drop done.length).length = count - done.length := by
        rw [length_drop, hlen]
      have hjoin : done ++ f.bytes.drop done.length = f.bytes := by
        have htake := take_append_drop done.length f.bytes
        rwa [hdone] at htake
      rw [wp_readAt, hread]
      refine ⟨?_, fun hF e he => ?_⟩
      · simp only
        rw [if_neg (by omega)]
        apply ih
        · rw [hjoin, take_length]
        · rw [hjoin, hlen]
        · rw [hjoin]
          omega
      · exact wp_return_failure hs (hfail ⟨_, hF⟩ e _)
    · have heq : done = f.bytes := by
        rw [← hdone, take_of_length_le (by omega)]
      exact ⟨hs, heq ▸ hok⟩

theorem wp_readOpenFile {Q : Status × Bytes → World → Prop} {f : File} {count : ℕ}
    (hfile : w.store.get? p = some (.file f)) (hlen : f.bytes.length = count)
    (hs : R w.store) (hok : Q (.ok, f.bytes) w)
    (hfail : Faulty F → ∀ e b, Q (.filesystem, b) (w.failed e)) :
    machine.wp F Q (Safe R) (readOpenFile p count) w := by
  rw [readOpenFile, wp_bind]
  refine wp_readOpenLoop hfile hlen (by simp) (Nat.zero_le _) (by simp) hs ?_ ?_
  · have hread : w.store.read p count 1 = .ok [] := by
      rw [read_of_file hfile, slice, drop_of_length_le hlen.le]
      rfl
    simp only [ne_eq, not_true_eq_false, if_false]
    rw [wp_readAt, hread]
    refine ⟨⟨hs, hok⟩, fun hF e _ => ?_⟩
    exact wp_return_failure hs (hfail ⟨_, hF⟩ e _)
  · intro hF e b
    exact ⟨hs, hfail hF e b⟩

def exactResult (s : Store) (p : Path) (expected : ℕ) (optional : Bool) : ReadResult :=
  match s.get? p with
  | none => if pathStatus p = .ok ∧ optional then ⟨.ok, false, []⟩ else ⟨.filesystem, false, []⟩
  | some .directory => ⟨.state, true, []⟩
  | some (.file f) =>
    if f.bytes.length = expected then ⟨.ok, true, f.bytes⟩ else ⟨.state, true, []⟩

section ExactResult

variable {s : Store} {f : File} {expected : ℕ} {optional : Bool}

theorem exactResult_of_none (hp : pathStatus p = .ok) (h : s.get? p = none) :
    exactResult s p expected true = ⟨.ok, false, []⟩ := by
  simp only [exactResult, h, hp, and_self, if_true]

theorem exactResult_of_directory (h : s.get? p = some .directory) :
    exactResult s p expected optional = ⟨.state, true, []⟩ := by
  simp only [exactResult, h]

theorem exactResult_of_file (h : s.get? p = some (.file f)) (hlen : f.bytes.length = expected) :
    exactResult s p expected optional = ⟨.ok, true, f.bytes⟩ := by
  simp only [exactResult, h, hlen, if_true]

theorem exactResult_of_length (h : s.get? p = some (.file f)) (hlen : f.bytes.length ≠ expected) :
    exactResult s p expected optional = ⟨.state, true, []⟩ := by
  simp only [exactResult, h, hlen, if_false]

end ExactResult

/-- The part of `readExactPath` that reads a file of the expected length and closes it. -/
theorem wp_readAndClose {Q : ReadResult → World → Prop} {f : File} {expected : ℕ}
    (hget : w.store.get? p = some (.file f)) (hlen : f.bytes.length = expected)
    (hs : R w.store) (hok : Q ⟨.ok, true, f.bytes⟩ w)
    (hfail : Faulty F → ∀ r e, r.status = .filesystem → Q r (w.failed e)) :
    machine.wp F Q (Safe R) (do
      handleAcquired
      let (status, bytes) ← readOpenFile p expected
      let closed ← closeFile p
      return ⟨if status ≠ .ok then status else closed, true, bytes⟩) w := by
  rw [wp_handleAcquired, wp_bind]
  refine wp_readOpenFile hget hlen hs ?_ ?_
  · rw [wp_bind]
    refine wp_closeFile hs ?_ fun hF e => ⟨hs, hfail hF _ _ rfl⟩
    rw [closed_opened]
    exact ⟨hs, hok⟩
  · intro hF e b
    rw [wp_bind]
    refine wp_closeFile hs ⟨hs, hfail hF _ e rfl⟩ fun _ e' => ⟨hs, ?_⟩
    exact hfail hF _ e' rfl

theorem wp_readExactPath {Q : ReadResult → World → Prop} {expected : ℕ} {optional : Bool}
    (hs : R w.store) (hok : ∀ e, Q (exactResult w.store p expected optional) (w.failed e))
    (hfail : Faulty F → ∀ r e, r.status = .filesystem → Q r (w.failed e)) :
    machine.wp F Q (Safe R) (readExactPath p expected optional) w := by
  have hfailed : ∀ {present bytes e}, Faulty F →
      machine.wp F Q (Safe R) (do return ⟨← filesystemFailure e, present, bytes⟩) w :=
    fun hF => wp_return_failure hs (hfail hF _ _ rfl)
  rw [readExactPath, wp_statPath]
  refine ⟨?_, fun hF e he => ?_⟩
  · cases hget : w.store.get? p with
    | none =>
      simp only [exactResult, hget] at hok
      by_cases hp : pathStatus p = .ok
      · rw [stat_of_none hp hget]
        dsimp only
        cases optional with
        | true =>
          rw [if_pos ⟨hp, rfl⟩] at hok
          exact ⟨hs, hok w.memory.report.filesystemStatus⟩
        | false =>
          rw [if_neg (by simp)] at hok
          exact wp_return_failure hs (hok _)
      · rw [stat_of_invalid hp]
        dsimp only
        rw [if_neg (fun h => pathStatus_ne_notFound p h.1)]
        rw [if_neg (fun h => hp h.1)] at hok
        exact wp_return_failure hs (hok _)
    | some n =>
      rw [stat_of_get? hget]
      dsimp only
      cases n with
      | directory =>
        simp only [exactResult, hget] at hok
        rw [if_pos (by simp [Node.stat])]
        exact ⟨hs, hok w.memory.report.filesystemStatus⟩
      | file f =>
        simp only [exactResult, hget] at hok
        by_cases hlen : f.bytes.length = expected
        · rw [if_neg (by simp [Node.stat, hlen]), wp_openFile, openFile_of_file hget]
          rw [if_pos hlen] at hok
          refine ⟨?_, fun hF e he => ?_⟩
          · rw [if_neg (by simp [statusOf])]
            exact wp_readAndClose hget hlen hs (hok w.memory.report.filesystemStatus) hfail
          · rw [if_pos he.1]
            exact hfailed ⟨_, hF⟩
        · rw [if_pos (by simp [Node.stat, hlen])]
          rw [if_neg hlen] at hok
          exact ⟨hs, hok w.memory.report.filesystemStatus⟩
  · dsimp only
    rw [if_neg (fun h => he.2 h.1)]
    exact hfailed ⟨_, hF⟩

theorem wp_syncData (hs : R w.store) (hok : Q .ok w)
    (hfail : Faulty F → ∀ e, Q .durability (w.failed e)) : machine.wp F Q (Safe R) syncData w := by
  rw [syncData, wp_syncVolume]
  refine ⟨⟨hs, hok⟩, fun hF e he => ?_⟩
  rw [if_pos he.1, wp_note]
  exact ⟨hs, hfail ⟨_, hF⟩ e⟩

section Mutations

variable (hs : R w.store)

include hs

/-- The result of a call that may fail, with the change on the medium or without it. -/
theorem wp_failed_or_late {result : Except FsStatus Store} {e : FsStatus}
    (hlate : R (w.mutate result).store)
    (hfail : ∀ status v, status ≠ .ok → Steady w v → R v.store → Q status v) :
    machine.wp F Q (Safe R) (filesystemFailure e) w ∧
      machine.wp F Q (Safe R) (filesystemFailure e) (w.mutate result) := by
  refine ⟨wp_filesystemFailure.mpr ⟨hs, ?_⟩, wp_filesystemFailure.mpr ⟨hlate, ?_⟩⟩
  · exact hfail _ _ (by decide) ((Steady.refl w).failed e) hs
  · exact hfail _ _ (by decide) ((steady_mutate w result).failed e) hlate

theorem wp_unlinkOptional (hp : pathStatus p = .ok) (hdirectory : w.store.get? p ≠ some .directory)
    (hR : ∀ s, Store.Frame [p] w.store s → s.get? p = none → R s)
    (hok : ∀ v, Steady w v → R v.store → Store.Frame [p] w.store v.store →
      v.store.get? p = none → Q .ok v)
    (hfail : Faulty F → ∀ status v, status ≠ .ok → Steady w v → R v.store → Q status v) :
    machine.wp F Q (Safe R) (unlinkOptional p) w := by
  -- the call takes the file away, or there is none
  have hunlink : Store.Frame [p] w.store (w.mutate (w.store.unlink p)).store ∧
      (w.mutate (w.store.unlink p)).store.get? p = none ∧
      (statusOf (w.store.unlink p) = .ok ∨ statusOf (w.store.unlink p) = .notFound) := by
    cases hget : w.store.get? p with
    | none =>
      rw [unlink_of_none hp hget]
      exact ⟨.refl _, hget, .inr rfl⟩
    | some n =>
      cases n with
      | directory => exact absurd hget hdirectory
      | file f =>
        obtain ⟨s, hunlink, hframe, hnone⟩ := unlink_spec hget
        rw [hunlink]
        exact ⟨hframe, hnone, .inl rfl⟩
  obtain ⟨hframe, hnone, hstatus⟩ := hunlink
  have hnew := hR _ hframe hnone
  rw [unlinkOptional, wp_unlinkFile]
  refine ⟨hs, ?_, fun hF e he => ?_⟩
  · rw [if_pos hstatus]
    exact ⟨hnew, hok _ (steady_mutate w _) hnew hframe hnone⟩
  · rw [if_neg (fun h => h.elim he.1 he.2)]
    exact wp_failed_or_late hs hnew (hfail ⟨_, hF⟩)

end Mutations

def Vacant (s : Store) (p : Path) : Prop :=
  pathStatus p = .ok ∧ s.get? p = none ∧ s.parentReady p

theorem create_of_vacant {s : Store} (hv : Vacant s p) (mode : UInt16) :
    ∃ s', s.create p mode = .ok s' ∧ Store.Frame [p] s s' ∧
      s'.get? p = some (.file ⟨mode, 1, s.nextObject, []⟩) := by
  obtain ⟨s', hadd⟩ := add_isOk hv.1 hv.2.1 hv.2.2
  exact ⟨s', hadd, (add_spec hadd).2⟩

theorem mkdir_of_vacant {s : Store} (hv : Vacant s p) :
    ∃ s', s.mkdir p = .ok s' ∧ Store.Frame [p] s s' ∧ s'.get? p = some .directory := by
  obtain ⟨s', hadd⟩ := add_isOk (n := .directory) hv.1 hv.2.1 hv.2.2
  exact ⟨s', hadd, (add_spec hadd).2⟩

theorem add_of_not_vacant {s : Store} (hv : ¬ Vacant s p) (n : Node) :
    ∃ e, s.add p n = .error e ∧ e ≠ .ok := by
  rw [add, checkPath]
  split_ifs with hp hnew hready
  · exact absurd ⟨hp, hnew, hready.2⟩ hv
  · refine ⟨_, rfl, ?_⟩
    rw [parentStatus]
    split_ifs <;> decide
  · exact ⟨_, rfl, by decide⟩
  · exact ⟨_, rfl, hp⟩

theorem wp_ensureDirectory (hs : R w.store)
    (hR : ∀ s, Store.Frame [p] w.store s → s.get? p = some .directory → R s)
    (hok : ∀ v, Steady w v → R v.store → Store.Frame [p] w.store v.store →
      v.store.get? p = some .directory → (∀ f, w.store.get? p ≠ some (.file f)) → Q .ok v)
    (hfail : Faulty F ∨ w.store.get? p ≠ some .directory ∧ ¬ Vacant w.store p →
      ∀ status v, status ≠ .ok → Steady w v → R v.store → Q status v) :
    machine.wp F Q (Safe R) (ensureDirectory p) w := by
  have hfailed : ∀ e, (Faulty F ∨ w.store.get? p ≠ some .directory ∧ ¬ Vacant w.store p) →
      machine.wp F Q (Safe R) (filesystemFailure e) w := fun e h =>
    wp_filesystemFailure.mpr ⟨hs, hfail h _ _ (by decide) ((Steady.refl w).failed e) hs⟩
  rw [ensureDirectory, wp_statPath]
  refine ⟨?_, fun hF e he => ?_⟩
  · cases hget : w.store.get? p with
    | none =>
      by_cases hp : pathStatus p = .ok
      · rw [stat_of_none hp hget, wp_makeDirectory]
        by_cases hv : Vacant w.store p
        · obtain ⟨s, hmkdir, hframe, hdir⟩ := mkdir_of_vacant hv
          rw [hmkdir]
          have hnew := hR s hframe hdir
          refine ⟨hs, ⟨hnew, ?_⟩, fun hF e he => ?_⟩
          · exact hok _ (steady_mutate w (.ok s)) hnew hframe hdir (by simp [hget])
          · rw [if_neg he.1]
            exact wp_failed_or_late hs hnew (hfail (.inl ⟨_, hF⟩))
        · obtain ⟨e, hadd, he⟩ := add_of_not_vacant hv .directory
          have hmkdir : w.store.mkdir p = .error e := hadd
          rw [hmkdir, statusOf, if_neg he]
          refine ⟨hs, hfailed _ (.inr ⟨by simp [hget], hv⟩), fun hF e he => ?_⟩
          rw [if_neg he.1]
          exact wp_failed_or_late hs hs (hfail (.inl ⟨_, hF⟩))
      · rw [stat_of_invalid hp]
        have hnot := pathStatus_ne_notFound p
        split
        · rename_i h
          cases h
        · rename_i h
          exact absurd (Except.error.inj h) hnot
        · rename_i h
          exact hfailed _ (.inr ⟨by simp [hget], fun h => hp h.1⟩)
    | some n =>
      rw [stat_of_get? hget]
      cases n with
      | directory => exact ⟨hs, hok w (.refl w) hs (.refl _) hget (by simp [hget])⟩
      | file f =>
        refine ⟨hs, hfail (.inr ⟨by simp [hget], fun h => ?_⟩) _ _ (by simp [Node.stat])
          (.refl w) hs⟩
        cases hget.symm.trans h.2.1
  · split
    · rename_i h
      cases h
    · rename_i h
      exact absurd (Except.error.inj h) he.2
    · exact hfailed _ (.inl ⟨_, hF⟩)

theorem wp_writeHandleLoop {fuel : ℕ} {bytes : Bytes} {f : File}
    (hfile : w.store.get? p = some (.file f)) (hfuel : bytes.length < fuel)
    (hR : ∀ s b, Store.Frame [p] w.store s → s.get? p = some (.file (f.append b)) →
      b <+: bytes → R s)
    (hok : ∀ v, Steady w v → Store.Frame [p] w.store v.store →
      v.store.get? p = some (.file (f.append bytes)) → Q .ok v)
    (hfail : Faulty F → ∀ v b, Steady w v → Store.Frame [p] w.store v.store →
      v.store.get? p = some (.file (f.append b)) → b <+: bytes → Q .filesystem v) :
    machine.wp F Q (Safe R) (writeHandleLoop p fuel f.bytes.length bytes) w := by
  induction fuel generalizing w f bytes with
  | zero => omega
  | succ fuel ih =>
    have hfile' : w.store.get? p = some (.file (f.append [])) := by
      rw [File.append_nil, hfile]
    have hs : R w.store := hR _ [] (.refl _) hfile' nil_prefix
    rw [writeHandleLoop]
    split_ifs with hempty
    · obtain rfl := length_eq_zero_iff.mp hempty
      exact ⟨hs, hok w (.refl w) (.refl _) hfile'⟩
    · set chunk := bytes.take transactionBytes with hchunk
      have hpos : 0 < chunk.length := by
        rw [hchunk, length_take, transactionBytes]
        omega
      have hjoin : chunk ++ bytes.drop chunk.length = bytes :=
        prefix_iff_eq_append.mp ( take_prefix _ _)
      have hfront : ∀ b, b <+: bytes.drop chunk.length → chunk ++ b <+: bytes := by
        intro b hb
        rw [← hjoin]
        exact (prefix_append_right_inj chunk).mpr hb
      obtain ⟨s, hwrite, hframe, hget⟩ := write_spec hfile f.bytes.length chunk
      rw [write_length] at hget
      have hsteady := steady_mutate w (.ok s)
      have hnew : R s := hR s chunk hframe hget ( take_prefix _ _)
      rw [wp_writeAt, hwrite]
      refine ⟨hs, ?_, fun hF e he => ?_⟩
      · simp only [Except.map]
        rw [if_neg (by omega)]
        have hposition : f.bytes.length + chunk.length = (f.append chunk).bytes.length := by
          simp [append]
        rw [hposition]
        refine ih (w := w.mutate (.ok s)) hget ?_ ?_ ?_ ?_
        · rw [length_drop]
          omega
        · intro t b ht hb hle
          exact hR t (chunk ++ b) (hframe.step ht) (by rw [← append_append]; exact hb)
            (hfront b hle)
        · intro v hv ht hb
          refine hok v (hsteady.trans hv) (hframe.step ht) ?_
          rwa [append_append, hjoin] at hb
        · intro hF v b hv ht hb hle
          exact hfail hF v (chunk ++ b) (hsteady.trans hv) (hframe.step ht)
            (by rw [← append_append]; exact hb) (hfront b hle)
      · -- the chunk is in the file or not
        refine ⟨wp_filesystemFailure.mpr ⟨hs, ?_⟩, wp_filesystemFailure.mpr ⟨hnew, ?_⟩⟩
        · exact hfail ⟨_, hF⟩ _ [] ((Steady.refl w).failed e) (.refl _) hfile' nil_prefix
        · exact hfail ⟨_, hF⟩ _ chunk (hsteady.failed e) hframe hget ( take_prefix _ _)

/-- A file that is being written: it is new and holds a front part of `bytes`. -/
structure Growing (bytes : Bytes) (f : File) : Prop where
  mode : f.mode = 0o644
  links : f.links = 1
  bytes : f.bytes <+: bytes

theorem growing_append {bytes b : Bytes} (object : ℕ) (h : b <+: bytes) :
    Growing bytes (File.append ⟨0o644, 1, object, []⟩ b) :=
  ⟨rfl, rfl, by simpa [append] using h⟩

section NewFile

variable {bytes : Bytes}
  (hR : ∀ s f, Store.Frame [p] w.store s → s.get? p = some (.file f) → Growing bytes f → R s)
  (hgone : ∀ s, Store.Frame [p] w.store s → s.get? p = none → R s)
  (hfail : ∀ status v, status ≠ .ok → Steady w v → R v.store → Q status v)

include hR hgone hfail

/-- After a failure the file is taken away again, unless that fails, too. -/
theorem wp_undoNewFile {f : File} {status : Status} (hstatus : status ≠ .ok)
    (hv : Steady w v) (hframe : Store.Frame [p] w.store v.store)
    (hget : v.store.get? p = some (.file f)) (hgrowing : Growing bytes f) :
    machine.wp F Q (Safe R) (do let _ ← unlinkFile p; return status) v := by
  obtain ⟨t, hunlink, ht, hnone⟩ := unlink_spec hget
  have hleft := hR _ f hframe hget hgrowing
  have hnew := hgone t (hframe.step ht) hnone
  have hundone : R t ∧ Q status (v.mutate (.ok t)) :=
    ⟨hnew, hfail _ _ hstatus (hv.trans (steady_mutate v _)) hnew⟩
  rw [wp_unlinkFile, hunlink]
  exact ⟨hleft, hundone, fun _ _ _ => ⟨⟨hleft, hfail _ _ hstatus hv hleft⟩, hundone⟩⟩

end NewFile

theorem wp_writeNewFile {bytes : Bytes} (hs : R w.store)
    (hR : Vacant w.store p → ∀ s f, Store.Frame [p] w.store s → s.get? p = some (.file f) →
      Growing bytes f → R s)
    (hgone : ∀ s, Store.Frame [p] w.store s → s.get? p = none → R s)
    (hok : Vacant w.store p → ∀ v f, Steady w v → R v.store → Store.Frame [p] w.store v.store →
      v.store.get? p = some (.file f) → f.bytes = bytes → Q .ok v)
    (hfail : Faulty F ∨ ¬ Vacant w.store p →
      ∀ status v, status ≠ .ok → Steady w v → R v.store → Q status v) :
    machine.wp F Q (Safe R) (writeNewFile p bytes) w := by
  rw [writeNewFile, wp_createFile]
  by_cases hvacant : Vacant w.store p
  · obtain ⟨s, hcreate, hframe, hget⟩ := create_of_vacant hvacant 0o644
    have hR := hR hvacant
    have hgrowing : ∀ b, b <+: bytes →
        Growing bytes (File.append ⟨0o644, 1, w.store.nextObject, []⟩ b) :=
      fun b => growing_append _
    have hnew : R s := hR s _ hframe hget (by simpa using hgrowing [] nil_prefix)
    have hsteady := steady_mutate w (.ok s)
    rw [hcreate]
    refine ⟨hs, ?_, fun hF e he => ?_⟩
    · rw [if_neg (by simp [statusOf]), wp_handleAcquired, wp_bind]
      -- the handle is open in the loop, and closed behind it
      have hclosed : ∀ {v : World}, Steady (w.mutate (.ok s)).opened v → Steady w v.closed :=
        fun hv => ⟨hv.drive, hv.heapActive, hv.servicing,
          congrArg (· - 1) hv.liveFileHandles, hv.liveAllocations⟩
      refine wp_writeHandleLoop (w := (w.mutate (.ok s)).opened) hget (by simp) ?_ ?_ ?_
      · intro t b ht hb hle
        exact hR t _ (hframe.step ht) hb (hgrowing b hle)
      · intro v hv ht hb
        have hsafe := hR _ _ (hframe.step ht) hb (hgrowing _ (prefix_refl _))
        rw [wp_bind]
        refine wp_closeFile hsafe ?_ fun hF e => ?_
        · exact ⟨hsafe, hok hvacant _ _ (hclosed hv) hsafe (hframe.step ht) hb (by simp [append])⟩
        · exact wp_undoNewFile hR hgone (hfail (.inl hF)) (by decide) ((hclosed hv).failed e)
            (hframe.step ht) hb (hgrowing _ (prefix_refl _))
      · intro hF v b hv ht hb hle
        have hsafe := hR _ _ (hframe.step ht) hb (hgrowing b hle)
        rw [wp_bind]
        refine wp_closeFile hsafe ?_ fun _ e => ?_
        · exact wp_undoNewFile hR hgone (hfail (.inl hF)) (by decide) (hclosed hv)
            (hframe.step ht) hb (hgrowing b hle)
        · exact wp_undoNewFile hR hgone (hfail (.inl hF)) (by decide) ((hclosed hv).failed e)
            (hframe.step ht) hb (hgrowing b hle)
    · rw [if_pos he.1]
      exact wp_failed_or_late hs hnew (hfail (.inl ⟨_, hF⟩))
  · obtain ⟨e, hadd, he⟩ := add_of_not_vacant hvacant (.file ⟨0o644, 1, w.store.nextObject, []⟩)
    have hcreate : w.store.create p 0o644 = .error e := hadd
    rw [hcreate, statusOf, if_pos he]
    refine ⟨hs, ?_, fun hF e he => ?_⟩
    · exact wp_filesystemFailure.mpr
        ⟨hs, hfail (.inr hvacant) _ _ (by decide) ((Steady.refl w).failed e) hs⟩
    · rw [if_pos he.1]
      exact wp_failed_or_late hs hs (hfail (.inl ⟨_, hF⟩))

variable {writes : Bool}

/-- A call finds the service idle and the drive ready. -/
structure Ready (writes : Bool) (w : World) : Prop where
  idle : w.memory.servicing = false
  present : w.drive.present = true
  mounted : w.drive.mounted = true
  healthy : w.drive.healthy = true
  writable : writes = true → w.drive.readOnly = false
  heap : w.heapActive = true

def World.fresh (w : World) : World :=
  { w with memory := { servicing := true } }

def World.finished (w : World) (status : Status) : World :=
  { w with
    memory := { servicing := false, report := { w.memory.report with status := status } } }

theorem Ready.finished {status : Status} (hw : Ready writes w) (hdrive : v.drive = w.drive)
    (hheap : v.heapActive = w.heapActive) : Ready writes (v.finished status) where
  idle := rfl
  present := (congrArg Drive.present hdrive).trans hw.present
  mounted := (congrArg Drive.mounted hdrive).trans hw.mounted
  healthy := (congrArg Drive.healthy hdrive).trans hw.healthy
  writable hwrites := (congrArg Drive.readOnly hdrive).trans (hw.writable hwrites)
  heap := hheap.trans hw.heap

theorem ready_boot (s : Store) (writes : Bool) : Ready writes (boot s) :=
  ⟨rfl, rfl, rfl, rfl, fun _ => rfl, rfl⟩

theorem Ready.read (h : Ready writes w) : Ready false w :=
  { h with writable := nofun }

theorem wp_serviceCall {β : Type} {Q : Status × β → World → Prop} {refused : β}
    {body : Service (Status × β)} (hready : Ready writes w)
    (hbody : machine.wp F (fun r v => Steady w.fresh v ∧
      Q (r.1, if r.1 = .ok then r.2 else refused) (v.finished r.1)) (Safe R) body w.fresh) :
    machine.wp F Q (Safe R) (serviceCall writes refused body) w := by
  have hdrive : (!w.drive.present || !w.drive.mounted || !w.drive.healthy ||
      (writes && w.drive.readOnly) || !w.heapActive) = false := by
    cases hw : writes <;>
      simp [hready.present, hready.mounted, hready.healthy, hready.heap]
    exact hready.writable hw
  rw [serviceCall, wp_note, wp_loadMemory, noted, if_neg (by simp [hready.idle]), wp_alter,
    wp_driveInfo, wp_heapIsActive, if_neg (by simpa using hdrive), wp_bind]
  refine wp_mono ?_ (fun _ h => h) (wp_post hbody)
  rintro ⟨status, value⟩ v ⟨⟨hsteady, hQ⟩, hv⟩
  have hlive : ¬ (v.memory.report.liveFileHandles ≠ 0 ∨ v.memory.report.liveAllocations ≠ 0) := by
    rw [hsteady.liveFileHandles, hsteady.liveAllocations]
    simp [fresh]
  rw [wp_loadMemory, if_neg hlive, wp_alter, wp_note]
  exact ⟨hv, hQ⟩

theorem wp_statusCall {body : Service Status} (hready : Ready writes w)
    (hbody : machine.wp F (fun status v => Steady w.fresh v ∧ Q status (v.finished status))
      (Safe R) body w.fresh) : machine.wp F Q (Safe R) (statusCall writes body) w := by
  rw [statusCall, wp_bind]
  refine wp_serviceCall hready ?_
  rw [wp_bind]
  refine wp_mono ?_ (fun _ h => h) (wp_post hbody)
  rintro status v ⟨⟨hsteady, hQ⟩, hv⟩
  exact ⟨hv, hsteady, hv, hQ⟩

end OpenRFS.PackageService
