import OpenRFS.Crash.Program
import OpenRFS.Volume.Subtree

/-!
# PATH_REPLACE without an atomic replace

On a volume that cannot replace an entry in one operation, `syscall_rename` moves the
destination to a backup name, moves the source to the destination and unlinks the
backup. If the second move fails, the first one is undone. The filesystem calls are
the commands of a program, each of which may fail without an effect, and the power
may be cut between two of them.
-/

namespace OpenRFS.NativeProcess

open Crash Volume List Option Machine Store

inductive RenameCall
  | rename (source destination : Path)
  | stat (path : Path)
  | unlink (path : Path)

@[reducible] def RenameCall.Reply : RenameCall → Type
  | .rename _ _ => FsStatus
  | .stat _ => Except FsStatus Stat
  | .unlink _ => FsStatus

def applied (s : Store) : Except FsStatus Store → FsStatus × Store
  | .ok s' => (.ok, s')
  | .error status => (status, s)

def dataVolume : Machine RenameCall RenameCall.Reply Store where
  step
    | .rename source destination, s => applied s (s.rename source destination)
    | .stat path, s => (s.stat path, s)
    | .unlink path, s => applied s (s.unlink path)
  Fails
    | .rename _ _, status => status ≠ FsStatus.ok
    | .stat _, reply => ∃ status, reply = Except.error status
    | .unlink _, status => status ≠ FsStatus.ok

abbrev RenameProg := Prog RenameCall RenameCall.Reply

def rsdfsRename (source destination : Path) : RenameProg FsStatus :=
  Prog.lift (RenameCall.rename source destination)

def rsdfsStatPath (path : Path) : RenameProg (Except FsStatus Stat) := Prog.lift (RenameCall.stat path)

def rsdfsUnlink (path : Path) : RenameProg FsStatus := Prog.lift (RenameCall.unlink path)

def backupName : Bytes := [0x4f, 0x52, 0x46, 0x42, 0x4b, 0x2e, 0x54, 0x4d, 0x50]

/-- `replacement_backup_path`: the backup name beside the destination. The last
separator of a path stands behind the text of its parent. -/
def replacementBackupPath (destination : Path) : Option Path :=
  if 1 < destination.length ∧
      maxPath ≤ textLength destination.dropLast + (backupName.length + 1) then none
  else some (destination.dropLast ++ [backupName])

/-- The calls of `syscall_rename` once the destination is at the backup name. If the
source cannot be moved, the destination is moved back; nobody asks whether it was. -/
def publishMoved (backup source destination : Path) : RenameProg FsStatus := do
  let status ← rsdfsRename source destination
  if status = .ok then rsdfsUnlink backup
  else
    let _ ← rsdfsRename backup destination
    pure status

/-- The chain of calls of `syscall_rename` once the backup name is known to be free. -/
def replaceThrough (backup source destination : Path) : RenameProg FsStatus := do
  let status ← rsdfsRename destination backup
  if status = .ok then publishMoved backup source destination else pure status

def statStatus : Except FsStatus Stat → FsStatus
  | .ok _ => .ok
  | .error status => status

/-- The reply says that there is an entry that is no directory. -/
def statFile : Except FsStatus Stat → Bool
  | .ok stat => !stat.directory
  | .error _ => false

/-- The calls of `syscall_rename` for a destination that is there: it must be a file,
and the backup name must be free. Otherwise the status of the first rename stays. -/
def replaceExisting (backup source destination : Path) (status : FsStatus) :
    RenameProg FsStatus := do
  let reply ← rsdfsStatPath destination
  if statFile reply then
    let reply ← rsdfsStatPath backup
    if statStatus reply = .notFound then replaceThrough backup source destination
    else pure status
  else pure status

/-- `syscall_rename`, from its first filesystem call on, for two paths on a data volume
without an atomic replace. The status is returned as an error number, which is zero
for `ok` and negative for every other one. -/
def syscallRename (source destination : Path) (replace : Bool) : RenameProg FsStatus := do
  let status ← rsdfsRename source destination
  if status = .entryExists ∧ replace then
    match replacementBackupPath destination with
    | none => pure status
    | some backup => replaceExisting backup source destination status
  else pure status

/-! The programs, call by call. -/

theorem publishMoved_eq (backup source destination : Path) :
    publishMoved backup source destination = .call (.rename source destination) fun status =>
      if status = .ok then .call (.unlink backup) .done
      else .call (.rename backup destination) fun _ => .done status := rfl

theorem replaceThrough_eq (backup source destination : Path) :
    replaceThrough backup source destination = .call (.rename destination backup) fun status =>
      if status = .ok then publishMoved backup source destination else .done status := rfl

theorem replaceExisting_eq (backup source destination : Path) (status : FsStatus) :
    replaceExisting backup source destination status = .call (.stat destination) fun reply =>
      if statFile reply then .call (.stat backup) fun reply =>
        if statStatus reply = .notFound then replaceThrough backup source destination
        else .done status
      else .done status := rfl

theorem syscallRename_eq (source destination : Path) (replace : Bool) :
    syscallRename source destination replace = .call (.rename source destination) fun status =>
      if status = .entryExists ∧ replace then
        match replacementBackupPath destination with
        | none => .done status
        | some backup => replaceExisting backup source destination status
      else .done status := rfl

abbrev Failure := { status : FsStatus // status ≠ .ok }

def failed (failures : ℕ → Option Failure) (number : ℕ) :
    (call : RenameCall) → Option call.Reply
  | .rename _ _ => (failures number).map fun failure => failure.1
  | .stat _ => (failures number).map fun failure => Except.error failure.1
  | .unlink _ => (failures number).map fun failure => failure.1

/-- What `syscall_rename` leaves, with the calls that fail and the number of calls after
which the power is cut: its status, if it returns, and the store. -/
def replaceRun (s : Store) (source destination : Path) (failures : ℕ → Option Failure)
    (cut : ℕ) : Option FsStatus × Store :=
  dataVolume.cutRun (failed failures) (syscallRename source destination true) cut 0 s

/-! ### The calls on a store -/

section Runs

variable {s : Store} {source destination backup : Path} {f g : File}
  {failures : ℕ → Option Failure} {left number : ℕ} {α : Type}

theorem failed_none {call : RenameCall} (h : failures number = none) :
    failed failures number call = none := by
  cases call <;> exact map_eq_none_iff.mpr h

theorem step_rename (hsource : s.get? source = some (.file f))
    (hvalid : pathStatus destination = .ok) (hfree : s.get? destination = none)
    (hready : s.parentReady destination) :
    ∃ s', dataVolume.step (.rename source destination) s = (FsStatus.ok, s') ∧
      Store.Frame [source, destination] s s' ∧ s'.get? source = none ∧
      s'.get? destination = some (.file f) := by
  obtain ⟨s', hrename, hframe, hgone, hthere⟩ := rename_spec hsource hvalid hfree hready
  refine ⟨s', ?_, hframe, hgone, hthere⟩
  show applied s (s.rename source destination) = _
  rw [hrename]
  rfl

theorem step_rename_exists {n : Node} (hsource : s.get? source = some (.file f))
    (hdestination : s.get? destination = some n) :
    dataVolume.step (.rename source destination) s = (FsStatus.entryExists, s) := by
  have hexists : s.rename source destination = .error .entryExists := by
    rw [rename, checkPath_of_valid (valid_of_get? hsource),
      checkPath_of_valid (valid_of_get? hdestination)]
    split <;> rename_i hget
    · cases hsource.symm.trans hget
    · cases hsource.symm.trans hget
    · rw [dif_neg (by simp [hdestination])]
  show applied s (s.rename source destination) = _
  rw [hexists]
  rfl

theorem step_unlink (hfile : s.get? source = some (.file f)) :
    ∃ s', dataVolume.step (.unlink source) s = (FsStatus.ok, s') ∧ Store.Frame [source] s s' ∧
      s'.get? source = none := by
  obtain ⟨s', hunlink, hframe, hgone⟩ := unlink_spec hfile
  refine ⟨s', ?_, hframe, hgone⟩
  show applied s (s.unlink source) = _
  rw [hunlink]
  rfl

theorem pathStatus_backup (hvalid : pathStatus destination = .ok)
    (h : replacementBackupPath destination = some backup) : pathStatus backup = .ok := by
  rw [replacementBackupPath] at h
  split_ifs at h with hlong
  cases h
  obtain ⟨-, hne, hdepth, hcomponents⟩ := pathStatus_eq_ok.mp hvalid
  have hpos := length_pos_of_ne_nil hne
  refine pathStatus_eq_ok.mpr ⟨?_, by simp, by simp; omega, fun c hc => ?_⟩
  · by_cases hsingle : destination.dropLast = []
    · rw [hsingle]
      decide
    · have hlength : 1 < destination.length := by
        have := length_pos_of_ne_nil hsingle
        rw [length_dropLast] at this
        omega
      rw [textLength_concat hsingle]
      have hname : backupName.length = 9 := rfl
      rw [hname] at hlong ⊢
      omega
  · rcases mem_append.mp hc with hc | hc
    · exact hcomponents c (mem_of_mem_dropLast hc)
    · rw [mem_singleton.mp hc]
      decide

theorem parentReady_backup {n : Node} (hdestination : s.get? destination = some n)
    (h : replacementBackupPath destination = some backup) : s.parentReady backup := by
  rw [replacementBackupPath] at h
  split_ifs at h with hlong
  cases h
  intro hlength
  rw [dropLast_concat]
  rw [length_append, length_singleton, length_dropLast] at hlength
  exact get?_eq_some.mpr (s.parent _ (get?_eq_some.mp hdestination) (by simp only; omega))

/-! ### Interrupted replacements -/

/-- What an interrupted replacement may leave: the destination as it was or with the
contents of the source; with a zero result the contents of the source and no backup,
and with a negative one the source and the destination as they were. -/
structure Safe (s : Store) (source destination : Path) (result : Option FsStatus × Store) :
    Prop where
  present : result.2.get? destination = s.get? destination ∨
    result.2.get? destination = s.get? source
  success : result.1 = some .ok → result.2.get? destination = s.get? source ∧
    ∀ backup, replacementBackupPath destination = some backup → result.2.get? backup = none
  failure : ∀ status, result.1 = some status → status ≠ .ok →
    result.2.get? source = s.get? source ∧ result.2.get? destination = s.get? destination

/-- The destination is moved to the backup name, if the power lasts: the name is free,
and the calls up to the move say what they would without failures. -/
def Moves (s : Store) (destination : Path) (failures : ℕ → Option Failure) : Prop :=
  (∃ backup, replacementBackupPath destination = some backup ∧ s.get? backup = none) ∧
    (∀ failure, failures 0 = some failure → failure.1 = .entryExists) ∧ failures 1 = none ∧
    (∀ failure, failures 2 = some failure → failure.1 = .notFound) ∧ failures 3 = none

/-- The power is not cut between the move to the backup name and the one that gives the
destination a file again, and neither the call that undoes the first move nor the one
that removes the backup fails. -/
def Spared (failures : ℕ → Option Failure) (cut : ℕ) : Prop :=
  cut ≤ 3 ∨ 5 ≤ cut ∧ failures 4 = none ∧ (cut = 5 ∨ failures 5 = none) ∨
    6 ≤ cut ∧ failures 4 ≠ none ∧ failures 5 = none

section Unchanged

variable (hsource : s.get? source = some (.file f))
  (hdestination : s.get? destination = some (.file g))

include hsource hdestination in
theorem first_reply (k : FsStatus → RenameProg FsStatus) :
    ∃ status : FsStatus, status ≠ .ok ∧
      dataVolume.cutRun (failed failures) (.call (.rename source destination) k) (left + 1) number s =
        dataVolume.cutRun (failed failures) (k status) left (number + 1) s ∧
      (status = .entryExists ↔
        ∀ failure, failures number = some failure → failure.1 = .entryExists) := by
  cases hfail : failures number with
  | none =>
    refine ⟨.entryExists, by simp, ?_, by simp⟩
    rw [cutRun_step (failed_none hfail), step_rename_exists hsource hdestination]
  | some failure =>
    refine ⟨failure.1, failure.2, ?_, by simp⟩
    exact cutRun_fail (congrArg (Option.map _) hfail)

/-- The reply to a call of `stat`, which changes nothing. -/
theorem stat_reply (path : Path) (k : Except FsStatus Stat → RenameProg FsStatus) :
    ∃ reply, dataVolume.cutRun (failed failures) (.call (.stat path) k) (left + 1) number s =
        dataVolume.cutRun (failed failures) (k reply) left (number + 1) s ∧
      (failures number = none → reply = s.stat path) ∧
      ∀ failure, failures number = some failure → reply = .error failure.1 := by
  cases hfail : failures number with
  | none =>
    refine ⟨s.stat path, ?_, fun _ => rfl, nofun⟩
    rw [cutRun_step (failed_none hfail)]
    rfl
  | some failure =>
    refine ⟨.error failure.1, ?_, nofun, fun _ h => by cases h; rfl⟩
    exact cutRun_fail (congrArg (Option.map _) hfail)

/-- Nothing was changed, and the result is not zero. -/
def Unchanged (s : Store) (result : Option FsStatus × Store) : Prop :=
  result.2 = s ∧ result.1 ≠ some .ok

theorem safe_of_unchanged {result : Option FsStatus × Store} (h : Unchanged s result) :
    Safe s source destination result :=
  ⟨.inl (by rw [h.1]), fun hok => absurd hok h.2, fun _ _ _ => by rw [h.1]; exact ⟨rfl, rfl⟩⟩

theorem unchanged_cut : Unchanged s (none, s) := ⟨rfl, nofun⟩

theorem unchanged_done {status : FsStatus} (h : status ≠ .ok) :
    Unchanged s (dataVolume.cutRun (failed failures) (.done status) left number s) := by
  exact ⟨rfl, by simpa using h⟩

include hdestination

theorem unchanged_through
    (h : left = 0 ∨ failures number ≠ none ∨ s.get? backup ≠ none) :
    Unchanged s (dataVolume.cutRun (failed failures) (replaceThrough backup source destination)
      left number s) := by
  rw [replaceThrough_eq]
  cases left with
  | zero => exact unchanged_cut
  | succ left =>
    cases hfail : failures number with
    | some failure =>
      rw [cutRun_fail (r := failure.1) (congrArg (Option.map _) hfail), if_neg failure.2]
      exact unchanged_done failure.2
    | none =>
      have htaken : s.get? backup ≠ none := by
        rcases h with h | h | h
        · cases h
        · exact absurd hfail h
        · exact h
      obtain ⟨n, hn⟩ := ne_none_iff_exists'.mp htaken
      rw [cutRun_step (failed_none hfail), step_rename_exists hdestination hn, if_neg (by simp)]
      exact unchanged_done (by simp)

/-- The destination is not found to be a file with a free backup name, or the move
behind is not reached or fails. -/
theorem unchanged_existing
    (h : left ≤ 2 ∨ failures number ≠ none ∨
      (∃ failure, failures (number + 1) = some failure ∧ failure.1 ≠ .notFound) ∨
      failures (number + 2) ≠ none ∨ s.get? backup ≠ none) :
    Unchanged s (dataVolume.cutRun (failed failures)
      (replaceExisting backup source destination .entryExists) left number s) := by
  rw [replaceExisting_eq]
  cases left with
  | zero => exact unchanged_cut
  | succ left =>
    obtain ⟨reply, hrun, -, hfailed⟩ := stat_reply destination _
    rw [hrun]
    split_ifs with hfile
    · have hnone : failures number = none := by
        by_contra hsome
        obtain ⟨failure, hfail⟩ := ne_none_iff_exists'.mp hsome
        simp [hfailed failure hfail, statFile] at hfile
      cases left with
      | zero => exact unchanged_cut
      | succ left =>
        obtain ⟨reply, hrun, -, hfailed'⟩ := stat_reply backup _
        rw [hrun]
        split_ifs with hfree
        · refine unchanged_through hdestination ?_
          rcases h with h | h | ⟨failure, hfail, hother⟩ | h | h
          · exact .inl (by omega)
          · exact absurd hnone h
          · rw [hfailed' failure hfail] at hfree
            exact absurd hfree hother
          · exact .inr (.inl h)
          · exact .inr (.inr h)
        · exact unchanged_done (by simp)
    · exact unchanged_done (by simp)

include hsource

theorem unchanged_run {cut : ℕ} (h : ¬ Moves s destination failures ∨ cut ≤ 3) :
    Unchanged s (replaceRun s source destination failures cut) := by
  rw [replaceRun, syscallRename_eq]
  cases cut with
  | zero => exact unchanged_cut
  | succ cut =>
    obtain ⟨status, hstatus, hrun, hexists⟩ := first_reply hsource hdestination _
    rw [hrun]
    split_ifs with hreplace
    · obtain ⟨rfl, -⟩ := hreplace
      cases hbackup : replacementBackupPath destination with
      | none => exact unchanged_done hstatus
      | some backup =>
        refine unchanged_existing hdestination ?_
        by_contra hnot
        simp only [not_or, not_exists, not_and, not_not] at hnot
        obtain ⟨hcut, h1, h2, h3, hfree⟩ := hnot
        refine h.elim (fun hmoves => hmoves ?_) (fun hle => by omega)
        exact ⟨⟨backup, hbackup, hfree⟩, hexists.mp rfl, h1, h2, h3⟩
    · exact unchanged_done hstatus

theorem moved_run {cut : ℕ} (h : Moves s destination failures) (hcut : 4 ≤ cut) :
    ∃ backup s', replacementBackupPath destination = some backup ∧ s.get? backup = none ∧
      replaceRun s source destination failures cut =
        dataVolume.cutRun (failed failures) (publishMoved backup source destination) (cut - 4) 4 s' ∧
      Store.Frame [destination, backup] s s' ∧ s'.get? destination = none ∧
      s'.get? backup = some (.file g) := by
  obtain ⟨⟨backup, hbackup, hfree⟩, h0, h1, h2, h3⟩ := h
  obtain ⟨left, rfl⟩ : ∃ left, cut = left + 4 := ⟨cut - 4, by omega⟩
  have hvalid := pathStatus_backup (valid_of_get? hdestination) hbackup
  obtain ⟨s', hmove, hframe, hgone, hthere⟩ :=
    step_rename hdestination hvalid hfree (parentReady_backup hdestination hbackup)
  refine ⟨backup, s', hbackup, hfree, ?_, hframe, hgone, hthere⟩
  obtain ⟨status, -, hrun, hexists⟩ := first_reply hsource hdestination _
  rw [replaceRun, syscallRename_eq, hrun, hexists.mpr h0, if_pos ⟨rfl, rfl⟩, hbackup]
  simp only
  obtain ⟨reply, hrun, hreal, -⟩ := stat_reply destination _
  rw [replaceExisting_eq, hrun, hreal h1, stat_of_get? hdestination,
    if_pos (show statFile (.ok (Node.file g).stat) = true from rfl)]
  obtain ⟨reply, hrun, hreal, hfailed⟩ := stat_reply backup _
  have hreply : statStatus reply = .notFound := by
    cases hfail : failures 2 with
    | none => rw [hreal hfail, stat_of_none hvalid hfree, statStatus]
    | some failure => rw [hfailed failure hfail, statStatus, h2 failure hfail]
  rw [hrun, if_pos hreply, replaceThrough_eq, cutRun_step (failed_none h3), hmove, if_pos rfl]
  rfl

end Unchanged

/-- A store in which the destination of a replacement is at the backup name. -/
structure Parked (s s' : Store) (backup source destination : Path) (f g : File) : Prop where
  sourceFile : s.get? source = some (.file f)
  destinationFile : s.get? destination = some (.file g)
  different : source ≠ destination
  backupPath : replacementBackupPath destination = some backup
  free : s.get? backup = none
  frame : Store.Frame [destination, backup] s s'
  gone : s'.get? destination = none
  parked : s'.get? backup = some (.file g)

theorem Parked.source_kept {s' : Store} (h : Parked s s' backup source destination f g) :
    s'.get? source = some (.file f) := by
  rw [h.frame.get? source, h.sourceFile]
  simp only [mem_cons, not_mem_nil, or_false, not_or]
  refine ⟨h.different, ?_⟩
  rintro rfl
  cases h.sourceFile.symm.trans h.free

theorem Parked.parentReady {s' : Store} (h : Parked s s' backup source destination f g) :
    s'.parentReady destination := by
  intro hlength
  have hparent := s.parent _ (get?_eq_some.mp h.destinationFile) hlength
  have hget := get?_eq_some.mpr hparent
  rw [h.frame.get? _, hget]
  simp only [mem_cons, not_mem_nil, or_false, not_or]
  refine ⟨fun heq => ?_, fun heq => ?_⟩
  · rw [heq] at hget
    cases h.destinationFile.symm.trans hget
  · rw [heq, h.free] at hget
    cases hget

/-- Once the destination is at the backup name, the replacement is safe exactly if the
destination gets a file back, and nothing fails behind that. -/
theorem publishMoved_safe_iff {s' : Store} (h : Parked s s' backup source destination f g) :
    Safe s source destination
        (dataVolume.cutRun (failed failures) (publishMoved backup source destination) left 4 s') ↔
      1 ≤ left ∧ failures 4 = none ∧ (left = 1 ∨ failures 5 = none) ∨
        2 ≤ left ∧ failures 4 ≠ none ∧ failures 5 = none := by
  have hvalid := valid_of_get? h.destinationFile
  have hnames : backup ≠ source := by
    rintro rfl
    cases h.sourceFile.symm.trans h.free
  have hbackup : backup ≠ destination := by
    rintro rfl
    cases h.destinationFile.symm.trans h.free
  -- a store without the destination is never what the property allows
  have habsent : ∀ result : Option FsStatus × Store, result.2 = s' →
      ¬ Safe s source destination result := by
    rintro result rfl hsafe
    have hpresent := hsafe.present
    rw [h.gone, h.destinationFile, h.sourceFile] at hpresent
    exact hpresent.elim nofun nofun
  rw [publishMoved_eq]
  cases left with
  | zero =>
    rw [cutRun_zero]
    refine iff_of_false (habsent _ rfl) ?_
    omega
  | succ left =>
    cases hfirst : failures 4 with
    | none =>
      obtain ⟨t, hmove, hframe, hsource, hdestination⟩ :=
        step_rename h.source_kept hvalid h.gone h.parentReady
      rw [cutRun_step (failed_none hfirst), hmove, if_pos rfl]
      have hpublished : t.get? destination = s.get? source := by
        rw [hdestination, h.sourceFile]
      have hparked : t.get? backup = some (.file g) := by
        rw [hframe.get? backup (by simp [hnames, hbackup]), h.parked]
      cases left with
      | zero =>
        rw [cutRun_zero]
        exact iff_of_true ⟨.inr hpublished, nofun, nofun⟩ (.inl ⟨le_rfl, rfl, .inl rfl⟩)
      | succ left =>
        cases hsecond : failures 5 with
        | none =>
          obtain ⟨u, hunlink, hframe', hgone⟩ := step_unlink hparked
          rw [cutRun_step (failed_none hsecond), hunlink, cutRun_done]
          have hkept : u.get? destination = s.get? source := by
            rw [hframe'.get? destination (by simp [hbackup.symm]), hpublished]
          refine iff_of_true ⟨.inr hkept, fun _ => ⟨hkept, fun b hb => ?_⟩,
            fun status hstatus hne => ?_⟩ (.inl ⟨by omega, rfl, .inr rfl⟩)
          · cases h.backupPath.symm.trans hb
            exact hgone
          · cases hstatus
            exact absurd rfl hne
        | some failure =>
          rw [cutRun_fail (r := failure.1) (congrArg (Option.map _) hsecond), cutRun_done]
          refine iff_of_false (fun hsafe => ?_) (by simp)
          have hback := (hsafe.failure failure.1 rfl failure.2).1
          rw [hsource, h.sourceFile] at hback
          cases hback
    | some failure =>
      rw [cutRun_fail (r := failure.1) (congrArg (Option.map _) hfirst), if_neg failure.2]
      cases left with
      | zero =>
        exact iff_of_false (habsent _ rfl) (by simp)
      | succ left =>
        cases hsecond : failures 5 with
        | none =>
          obtain ⟨t, hmove, hframe, -, hdestination⟩ :=
            step_rename h.parked hvalid h.gone h.parentReady
          rw [cutRun_step (failed_none hsecond), hmove, cutRun_done]
          have hrestored : t.get? destination = s.get? destination := by
            rw [hdestination, h.destinationFile]
          have hsource : t.get? source = s.get? source := by
            rw [hframe.get? source (by simp [hnames.symm, h.different]), h.source_kept,
              h.sourceFile]
          refine iff_of_true ⟨.inl hrestored, fun hok => ?_,
            fun _ _ _ => ⟨hsource, hrestored⟩⟩ (.inr ⟨by omega, by simp, rfl⟩)
          exact absurd (Option.some.inj hok) failure.2
        | some other =>
          rw [cutRun_fail (r := other.1) (congrArg (Option.map _) hsecond), cutRun_done]
          exact iff_of_false (habsent _ rfl) (by simp)

/-- A replacement of an existing file by another one is safe exactly if the power is
not cut while the destination has no file, and neither the call that moves the
destination back nor the one that unlinks the backup fails. -/
theorem replace_safe_iff (s : Store) (source destination : Path) (f g : File)
    (failures : ℕ → Option Failure) (cut : ℕ) (hsource : s.get? source = some (.file f))
    (hdestination : s.get? destination = some (.file g)) (hdifferent : source ≠ destination) :
    Safe s source destination (replaceRun s source destination failures cut) ↔
      (Moves s destination failures → Spared failures cut) := by
  by_cases hmoves : Moves s destination failures ∧ 4 ≤ cut
  · obtain ⟨hmoves, hcut⟩ := hmoves
    obtain ⟨backup, s', hbackup, hfree, hrun, hframe, hgone, hparked⟩ :=
      moved_run hsource hdestination hmoves hcut
    rw [hrun, publishMoved_safe_iff
      ⟨hsource, hdestination, hdifferent, hbackup, hfree, hframe, hgone, hparked⟩]
    constructor
    · rintro (⟨hleft, h4, h5⟩ | ⟨hleft, h4, h5⟩) -
      · exact .inr (.inl ⟨by omega, h4, h5.imp (by omega) id⟩)
      · exact .inr (.inr ⟨by omega, h4, h5⟩)
    · intro h
      rcases h hmoves with hshort | ⟨hle, h4, h5⟩ | ⟨hle, h4, h5⟩
      · omega
      · exact .inl ⟨by omega, h4, h5.imp (by omega) id⟩
      · exact .inr ⟨by omega, h4, h5⟩
  · have hunchanged := unchanged_run hsource hdestination
      (show ¬ Moves s destination failures ∨ cut ≤ 3 by
        by_contra hnot
        rw [not_or, not_not] at hnot
        exact hmoves ⟨hnot.1, by omega⟩)
    refine iff_of_true (safe_of_unchanged hunchanged) fun h => .inl ?_
    by_contra hlong
    exact hmoves ⟨h, by omega⟩

end Runs

def sampleStore : Store where
  nodes := [([[0x41]], .file ⟨0, 1, 1, [1]⟩), ([[0x42]], .file ⟨0, 1, 2, [2]⟩)]
  nextObject := 3
  nodup := by decide
  valid := by decide
  parent := by decide

theorem replace_safe_iff_sample :
    sampleStore.get? [[0x41]] = some (.file ⟨0, 1, 1, [1]⟩) ∧
      sampleStore.get? [[0x42]] = some (.file ⟨0, 1, 2, [2]⟩) ∧
      Safe sampleStore [[0x41]] [[0x42]]
        (replaceRun sampleStore [[0x41]] [[0x42]] (fun _ => none) 6) :=
  ⟨by decide, by decide, (replace_safe_iff sampleStore [[0x41]] [[0x42]] ⟨0, 1, 1, [1]⟩
    ⟨0, 1, 2, [2]⟩ (fun _ => none) 6 (by decide) (by decide) (by decide)).mpr fun _ =>
      .inr (.inl ⟨by decide, rfl, .inr rfl⟩)⟩

/-- If the power is cut after the fourth call, the destination is absent; and if the
backup cannot be unlinked, the result is negative although the destination holds the
contents of the source. -/
theorem replace_unsafe_sample :
    sampleStore.get? [[0x41]] = some (.file ⟨0, 1, 1, [1]⟩) ∧
      sampleStore.get? [[0x42]] = some (.file ⟨0, 1, 2, [2]⟩) ∧
      (replaceRun sampleStore [[0x41]] [[0x42]] (fun _ => none) 4).2.get? [[0x42]] = none ∧
      (let failures : ℕ → Option Failure := fun number =>
        if number = 5 then some ⟨.io, by decide⟩ else none
      (replaceRun sampleStore [[0x41]] [[0x42]] failures 6).1 = some .io ∧
        (replaceRun sampleStore [[0x41]] [[0x42]] failures 6).2.get? [[0x42]] =
          some (.file ⟨0, 1, 1, [1]⟩)) ∧
      ¬ Safe sampleStore [[0x41]] [[0x42]]
        (replaceRun sampleStore [[0x41]] [[0x42]] (fun _ => none) 4) := by
  have habsent : (replaceRun sampleStore [[0x41]] [[0x42]] (fun _ => none) 4).2.get? [[0x42]] =
      none := by decide +kernel
  refine ⟨by decide, by decide, habsent, by decide +kernel, fun hsafe => ?_⟩
  have hpresent := hsafe.present
  exact hpresent.elim nofun nofun

end OpenRFS.NativeProcess
