import OpenRFS.Tcp.Connection
import OpenRFS.Volume.Store

/-!
# The publication of a download

`finalize_download` renames the finished temporary file to the destination. An existing
destination is first put aside under a backup name, and some failures move it back. A
filesystem call takes effect as a whole, or fails and changes nothing.
-/

namespace OpenRFS.Download

open Tcp Volume Function

inductive Name
  | destination | temporary | backup
  deriving DecidableEq

inductive Entry
  | file (contents : Bytes)
  | directory
  deriving DecidableEq

abbrev Folder := Name → Option Entry

/-- The filesystem calls, in the order of the source. -/
inductive Call
  | stat | clearBackup | setAside | publish | putBack | sync | retract | restore | resync
  | dropBackup | settle
  deriving DecidableEq

/-- Which calls fail, and the status of a failed `stat`. -/
structure Faults where
  fails : Call → Bool
  status : FsStatus
  status_ne_ok : status ≠ .ok
  status_ne_notFound : status ≠ .notFound

def rename (source target : Name) (s : Folder) : Option Folder :=
  match s source, s target with
  | some entry, none =>
    some (Function.update (Function.update s source none) target (some entry))
  | _, _ => none

def unlink (name : Name) (s : Folder) : Option Folder :=
  match s name with
  | some (.file _) => some (Function.update s name none)
  | _ => none

def filesystemStatus (status : FsStatus) : NetworkStatus :=
  if status = .full then .tooLarge else .filesystem

namespace Faults

variable (f : Faults) (call : Call) (operation : Folder → Option Folder) (s : Folder)

def stat : FsStatus × Option Entry :=
  if f.fails .stat then (f.status, none)
  else if s .destination = none then (.notFound, none)
  else (.ok, s .destination)

def attempt : Option Folder := if f.fails call then none else operation s

def ignore : Folder := (f.attempt call operation s).getD s

end Faults

def publish (f : Faults) (hadExisting : Bool) (s : Folder) : NetworkStatus × Folder :=
  match f.attempt .publish (rename .temporary .destination) s with
  | none =>
    (.filesystem, if hadExisting then f.ignore .putBack (rename .backup .destination) s else s)
  | some s =>
    match f.attempt .sync some s with
    | none =>
      (.filesystem,
        if hadExisting then
          let s := f.ignore .retract (rename .destination .temporary) s
          f.ignore .resync some (f.ignore .restore (rename .backup .destination) s)
        else s)
    | some s =>
      if hadExisting then
        match f.attempt .dropBackup (unlink .backup) s with
        | none => (.filesystem, s)
        | some s =>
          match f.attempt .settle some s with
          | none => (.filesystem, s)
          | some s => (.ok, s)
      else (.ok, s)

def finalizeDownload (f : Faults) (s : Folder) : NetworkStatus × Folder :=
  let (status, existing) := f.stat s
  let hadExisting := status = .ok
  if hadExisting ∧ existing = some .directory then (.filesystem, s)
  else if status ≠ .ok ∧ status ≠ .notFound then (filesystemStatus status, s)
  else
    let s := f.ignore .clearBackup (unlink .backup) s
    if hadExisting then
      match f.attempt .setAside (rename .destination .backup) s with
      | none => (.filesystem, s)
      | some s => publish f true s
    else publish f false s

/-- On success the destination is what the temporary file was, and the other names are gone;
after a failure the destination is what it was. -/
def AllOrNothing (s : Folder) (result : NetworkStatus × Folder) : Prop :=
  if result.1 = .ok then
    result.2 .destination = s .temporary ∧ result.2 .temporary = none ∧ result.2 .backup = none
  else result.2 .destination = s .destination

/-- There is no backup once an old one has been cleared. -/
def Cleared (f : Faults) (s : Folder) : Prop :=
  s .backup = none ∨ f.fails .clearBackup = false ∧ s .backup ≠ some .directory

def Published (f : Faults) (s : Folder) : Prop :=
  s .temporary ≠ none ∧ f.fails .publish = false

/-- After the destination has been put aside, nothing fails where the source does not move it
back, unless the download is what was there. -/
def Restored (f : Faults) (s : Folder) : Prop :=
  (¬ Published f s → f.fails .putBack = false) ∧
  (Published f s →
    if f.fails .sync then
      if f.fails .retract then s .temporary = s .destination else f.fails .restore = false
    else s .temporary = s .destination ∨ f.fails .dropBackup = false ∧ f.fails .settle = false)

def Tolerated (f : Faults) (s : Folder) : Prop :=
  f.fails .stat = false →
    match s .destination with
    | some .directory => True
    | none => Published f s → f.fails .sync = false ∧ Cleared f s
    | some (.file _) => Cleared f s → f.fails .setAside = false → Restored f s

variable {f : Faults} {s : Folder}

namespace Faults

variable {call : Call} {operation : Folder → Option Folder}

theorem attempt_failed (h : f.fails call) : f.attempt call operation s = none := if_pos h

theorem attempt_done (h : f.fails call = false) : f.attempt call operation s = operation s := by
  simp [attempt, h]

theorem ignore_failed (h : f.fails call) : f.ignore call operation s = s := by
  rw [ignore, attempt_failed h, Option.getD_none]

theorem ignore_done (h : f.fails call = false) :
    f.ignore call operation s = (operation s).getD s := by
  rw [ignore, attempt_done h]

@[simp] theorem ignore_some : f.ignore call some s = s := by
  cases h : f.fails call with
  | true => exact ignore_failed h
  | false => exact ignore_done h

end Faults

open Faults

theorem allOrNothing_publish_new (h : s .destination = none) : AllOrNothing s (publish f false s) ↔
    (Published f s → f.fails .sync = false ∧ s .backup = none) := by
  cases hpublish : f.fails .publish <;> cases htemporary : s .temporary <;>
    cases hsync : f.fails .sync <;>
    simp [publish, attempt_failed, attempt_done, rename, AllOrNothing, Published, *]

theorem allOrNothing_publish_over {old : Bytes} (h : s .destination = some (.file old)) :
    AllOrNothing s (publish f true (update (update s .destination none)
      .backup (some (.file old)))) ↔ Restored f s := by
  by_cases hpublished : Published f s
  · obtain ⟨entry, htemporary⟩ := Option.ne_none_iff_exists'.mp hpublished.1
    have hpublish := hpublished.2
    cases hsync : f.fails .sync with
    | true =>
      cases hretract : f.fails .retract <;> cases hrestore : f.fails .restore <;>
        simp [publish, attempt_failed, attempt_done, ignore_failed, ignore_done, rename,
          AllOrNothing, Restored, *]
    | false =>
      cases hdrop : f.fails .dropBackup <;> cases hsettle : f.fails .settle <;>
        simp [publish, attempt_failed, attempt_done, rename, unlink, AllOrNothing, Restored, *]
  · have hfailed : f.attempt .publish (rename .temporary .destination) (update
        (update s .destination none) .backup (some (.file old))) = none := by
      cases hpublish : f.fails .publish with
      | true => exact attempt_failed hpublish
      | false =>
        have htemporary : s .temporary = none := by simpa [Published, hpublish] using hpublished
        simp [attempt_done hpublish, rename, htemporary]
    cases hback : f.fails .putBack <;>
      simp [publish, ignore_failed, ignore_done, rename, AllOrNothing, Restored, *]

theorem clearBackup_spec {t : Folder} (ht : t = f.ignore .clearBackup (unlink .backup) s) :
    t .destination = s .destination ∧ t .temporary = s .temporary ∧
      (t .backup = none ↔ Cleared f s) := by
  subst ht
  cases hclear : f.fails .clearBackup <;> rcases hbackup : s .backup with _ | (_ | _) <;>
    simp [ignore_failed, ignore_done, unlink, Cleared, *]

/-- A publication is all or nothing exactly when no call fails at a place where the source
cannot undo what it has done. -/
theorem finalizeDownload_allOrNothing_iff (f : Faults) (s : Folder) :
    AllOrNothing s (finalizeDownload f s) ↔ Tolerated f s := by
  generalize ht : f.ignore .clearBackup (unlink .backup) s = t
  obtain ⟨hdestination, htemporary, hbackup⟩ := clearBackup_spec ht.symm
  have hall : ∀ r, AllOrNothing s r ↔ AllOrNothing t r := fun r => by
    rw [AllOrNothing, AllOrNothing, hdestination, htemporary]
  have hpublished : Published f t ↔ Published f s := by rw [Published, Published, htemporary]
  cases hstat : f.fails .stat with
  | true =>
    have hfailed : filesystemStatus f.status ≠ .ok := by
      rw [filesystemStatus]
      split_ifs <;> nofun
    simp [finalizeDownload, Faults.stat, Tolerated, AllOrNothing, hstat, hfailed, f.status_ne_ok,
      f.status_ne_notFound]
  | false =>
    rcases hold : s .destination with _ | (old | _)
    · rw [hold] at hdestination
      simp [finalizeDownload, Faults.stat, Tolerated, hstat, hold, ht, hall,
        allOrNothing_publish_new hdestination, hpublished, hbackup]
    · rw [hold] at hdestination
      have hrestored := allOrNothing_publish_over (f := f) hdestination
      rw [← hall, Restored, hpublished, htemporary, hdestination, ← hold, ← Restored] at hrestored
      cases haside : f.fails .setAside with
      | true => simp [finalizeDownload, Faults.stat, Tolerated, attempt_failed, AllOrNothing, *]
      | false =>
        by_cases hcleared : Cleared f s
        · simp_all [finalizeDownload, Faults.stat, Tolerated, attempt_done haside, rename]
        · obtain ⟨entry, hsome⟩ := Option.ne_none_iff_exists'.mp (mt hbackup.mp hcleared)
          simp [finalizeDownload, Faults.stat, Tolerated, attempt_done haside, rename, AllOrNothing,
            hstat, hold, ht, hdestination, hsome, hcleared]
    · simp [finalizeDownload, Faults.stat, Tolerated, AllOrNothing, hstat, hold]

/-- The old file is lost although the publication fails, when the backup cannot be dropped. -/
theorem finalizeDownload_not_undone :
    let f : Faults := ⟨fun call => call = .dropBackup, .io, by decide, by decide⟩
    let s : Folder := fun name => if name = .backup then none else
      some (.file (if name = .destination then [1] else [2]))
    (finalizeDownload f s).1 = .filesystem ∧ s .destination = some (.file [1]) ∧
      (finalizeDownload f s).2 .destination = some (.file [2]) := by
  decide

end OpenRFS.Download
