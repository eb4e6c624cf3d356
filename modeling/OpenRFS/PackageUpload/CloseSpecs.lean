import OpenRFS.PackageUpload.Calls

/-!
# The steps of a close

A close unlinks the held inode, closes the handle, removes the file by its name and
syncs. Each step is taken only if the flags of the slot say that it is still to be
done, and takes its flag back when it was done. `CloseSteps` collects what holds of
any part of this sequence, so that the parts can be put together.
-/

namespace OpenRFS.PackageUpload

open Crash List Prog
open Volume (FsStatus)

abbrev Entry := Σ c : FsCall, c.Reply

/-- The call changes a file that it finds by its path. -/
def FsCall.ByName : FsCall → Prop
  | .truncate _ _ => True
  | .unlink _ => True
  | _ => False

def FsCall.UnlinksHeld : FsCall → Prop
  | .unlinkHeldFile _ => True
  | _ => False

def FsCall.ClosesFile : FsCall → Prop
  | .closeReport => True
  | _ => False

def Entry.UnlinkedHeld : Entry → Prop
  | ⟨.unlinkHeldFile _, status⟩ => status = .ok
  | _ => False

def Entry.ClosedFile : Entry → Prop
  | ⟨.closeReport, r⟩ => r.consumed = true
  | _ => False

def Entry.Succeeded : Entry → Prop
  | ⟨.statPath _, r⟩ => r.status = .ok
  | ⟨.write _ _, r⟩ => r.status = .ok
  | ⟨.pread _ _ _, r⟩ => r.status = .ok
  | ⟨.closeReport, r⟩ => r.status = .ok ∧ r.consumed = true
  | ⟨.mkdir _, status⟩ => status = .ok
  | ⟨.truncate _ _, status⟩ => status = .ok
  | ⟨.unlink _, status⟩ => status = .ok
  | ⟨.openOptions _, status⟩ => status = .ok
  | ⟨.fsync, status⟩ => status = .ok
  | ⟨.sync, status⟩ => status = .ok
  | ⟨.unlinkHeldFile _, status⟩ => status = .ok

def Entry.FoundDirectory : Entry → Prop
  | ⟨.statPath _, r⟩ => r.directory = true
  | _ => False

/-- What a part of a close that makes the calls of the log does to the slot. -/
structure CloseSteps (slot : Slot) (log : FsLog) (slot' : Slot) : Prop where
  frame : slot' =
    { slot with
      filePresent := slot'.filePresent, fileOpen := slot'.fileOpen, file := slot'.file }
  present_of : slot'.filePresent = true → slot.filePresent = true
  open_of : slot'.fileOpen = true → slot.fileOpen = true
  unlinked : ∀ x : Entry, x ∈ log → x.UnlinkedHeld → slot'.filePresent = false
  closed : ∀ x : Entry, x ∈ log → x.ClosedFile → slot'.fileOpen = false
  no_unlink : slot.filePresent = false → ∀ x ∈ log, ¬x.1.UnlinksHeld
  no_close : slot.fileOpen = false → ∀ x ∈ log, ¬x.1.ClosesFile
  no_name : slot.filePresent = false → ∀ x ∈ log, ¬x.1.ByName

namespace CloseSteps

variable {slot slot₁ slot₂ : Slot} {log log' : FsLog}

theorem absent (h : CloseSteps slot log slot₁) (hf : slot.filePresent = false) :
    slot₁.filePresent = false := by
  by_contra hp
  rw [h.present_of (by simpa using hp)] at hf
  cases hf

theorem shut (h : CloseSteps slot log slot₁) (hf : slot.fileOpen = false) :
    slot₁.fileOpen = false := by
  by_contra hp
  rw [h.open_of (by simpa using hp)] at hf
  cases hf

theorem nil (slot : Slot) : CloseSteps slot [] slot where
  frame := rfl
  present_of := id
  open_of := id
  unlinked := by simp
  closed := by simp
  no_unlink := by simp
  no_close := by simp
  no_name := by simp

theorem append (h : CloseSteps slot log slot₁) (h' : CloseSteps slot₁ log' slot₂) :
    CloseSteps slot (log ++ log') slot₂ where
  frame := by
    rw [h'.frame, h.frame]
  present_of hp := h.present_of (h'.present_of hp)
  open_of hp := h.open_of (h'.open_of hp)
  unlinked := forall_mem_append.mpr ⟨fun x hx hu => h'.absent (h.unlinked x hx hu), h'.unlinked⟩
  closed := forall_mem_append.mpr ⟨fun x hx hc => h'.shut (h.closed x hx hc), h'.closed⟩
  no_unlink hf := forall_mem_append.mpr ⟨h.no_unlink hf, h'.no_unlink (h.absent hf)⟩
  no_close hf := forall_mem_append.mpr ⟨h.no_close hf, h'.no_close (h.shut hf)⟩
  no_name hf := forall_mem_append.mpr ⟨h.no_name hf, h'.no_name (h.absent hf)⟩

end CloseSteps

/-! ### The parts -/

variable {slot : Slot} {path : Bytes} {log : FsLog}

/-- The call works on a path and neither on a held file nor on a handle. -/
def FsCall.OnPath : FsCall → Prop
  | .statPath _ => True
  | .truncate _ _ => True
  | .unlink _ => True
  | _ => False

theorem FsCall.OnPath.not_unlinksHeld {c : FsCall} (h : c.OnPath) : ¬c.UnlinksHeld := by
  cases c <;> simp_all [FsCall.OnPath, FsCall.UnlinksHeld]

theorem FsCall.OnPath.not_closesFile {c : FsCall} (h : c.OnPath) : ¬c.ClosesFile := by
  cases c <;> simp_all [FsCall.OnPath, FsCall.ClosesFile]

/-- All calls succeeded, and none found a directory. -/
def Clean (log : FsLog) : Prop :=
  ∀ x : Entry, x ∈ log → x.Succeeded ∧ ¬x.FoundDirectory

@[simp] theorem clean_nil : Clean [] := by simp [Clean]

@[simp] theorem clean_cons {x : Entry} : Clean (x :: log) ↔
    (x.Succeeded ∧ ¬x.FoundDirectory) ∧ Clean log := by
  simp [Clean]

@[simp] theorem clean_append {log' : FsLog} : Clean (log ++ log') ↔ Clean log ∧ Clean log' := by
  simp only [Clean, mem_append]
  exact ⟨fun h => ⟨fun x hx => h x (.inl hx), fun x hx => h x (.inr hx)⟩,
    fun h x hx => hx.elim (h.1 x) (h.2 x)⟩

theorem trim_only (path : Bytes) (size : ℕ) (changed : Bool) :
    (trim path size changed).Only FsCall.OnPath := by
  induction size using Nat.strong_induction_on generalizing changed with
  | _ size ih =>
    rw [trim]
    by_cases hzero : size = 0
    · rw [if_pos hzero]
      trivial
    · rw [if_neg hzero]
      refine ⟨trivial, fun status => ?_⟩
      dsimp only
      by_cases hok : status ≠ .ok
      · rw [if_pos hok]
        trivial
      · rw [if_neg hok]
        refine ih _ ?_ true
        unfold cleanupChunk
        split <;> omega

theorem trim_clean {size : ℕ} {changed : Bool} {out : FsStatus × Bool}
    (h : Prog.Answered FsCall.Admits (trim path size changed) log out) (hclean : Clean log) :
    out.1 = .ok := by
  induction size using Nat.strong_induction_on generalizing log changed with
  | _ size ih =>
    rw [trim] at h
    obtain ⟨hzero, -, rfl⟩ | ⟨hzero, h⟩ := answered_guard h
    · rfl
    · obtain ⟨status, rest, rfl, -, h⟩ := answered_call.mp h
      obtain ⟨⟨hok, -⟩, hrest⟩ := clean_cons.mp hclean
      have hok : status = .ok := hok
      rw [if_neg (not_not.mpr hok)] at h
      refine ih _ ?_ h hrest
      unfold cleanupChunk
      split <;> omega

theorem removePrivateFile_only (path : Bytes) (changed : Bool) :
    (removePrivateFile path changed).Only FsCall.OnPath := by
  refine ⟨trivial, fun stat => ?_⟩
  dsimp only
  split_ifs
  · trivial
  · trivial
  · trivial
  · refine only_bind (trim_only path _ changed) fun trimmed => ?_
    split_ifs
    · trivial
    · refine ⟨trivial, fun status => ?_⟩
      dsimp only
      split_ifs <;> trivial

theorem removePrivateFile_clean {changed : Bool} {out : FsStatus × Bool}
    (h : Prog.Answered FsCall.Admits (removePrivateFile path changed) log out)
    (hclean : Clean log) : out.1 = .ok := by
  obtain ⟨stat, rest, rfl, -, h⟩ := answered_call.mp h
  obtain ⟨⟨hok, hdir⟩, hrest⟩ := clean_cons.mp hclean
  have hok : stat.status = .ok := hok
  have hfound : ¬stat.status = .notFound := fun hn => by cases hn.symm.trans hok
  have hfile : ¬(stat.status ≠ .ok ∨ stat.directory) := by
    rintro (hn | hd)
    · exact hn hok
    · exact hdir hd
  rw [if_neg hfound, if_neg hfile] at h
  obtain ⟨trimmed, first, last, rfl, htrim, h⟩ := answered_bind.mp h
  obtain ⟨hfirst, hlast⟩ := clean_append.mp hrest
  rw [if_neg (not_not.mpr (trim_clean htrim hfirst))] at h
  obtain ⟨status, tail, rfl, -, h⟩ := answered_call.mp h
  have hunlinked : status = .ok := (clean_cons.mp hlast).1.1
  rw [if_pos hunlinked] at h
  obtain ⟨-, rfl⟩ := answered_done.mp h
  rfl

/-- What is left of the name once the first part did not stop the close: with an
inode-bound cleanup, nothing of a file whose handle was open. -/
theorem closeUnlink_spec {out : Option FsStatus × Slot}
    (h : Prog.Answered FsCall.Admits (closeUnlink path slot) log out) :
    CloseSteps slot log out.2 ∧
      ((∃ status, out = (some status, slot) ∧ ¬Clean log ∧ ∀ x ∈ log, ¬x.1.ByName) ∨ out.1 = none ∧
          (slot.inodeBoundCleanup → (slot.filePresent → slot.fileOpen) →
            out.2.filePresent = false ∧ ∀ x ∈ log, ¬x.1.ByName)) := by
  rw [closeUnlink] at h
  by_cases hdue : slot.inodeBoundCleanup ∧ slot.fileOpen ∧ slot.filePresent
  · rw [if_pos hdue] at h
    obtain ⟨status, rest, rfl, -, h⟩ := answered_call.mp h
    obtain ⟨-, hopen, hpresent⟩ := hdue
    obtain ⟨hrefused, rfl, rfl⟩ | ⟨hrefused, h⟩ := answered_guard h
    · refine ⟨?_, .inl ⟨status, rfl, ?_, by simp [FsCall.ByName]⟩⟩
      · refine ⟨rfl, id, id, ?_, ?_, ?_, ?_, ?_⟩ <;>
          simp [Entry.UnlinkedHeld, Entry.ClosedFile, FsCall.ClosesFile, hpresent, hrefused.1]
      · simp [Entry.Succeeded, hrefused.1]
    · obtain ⟨rfl, rfl⟩ := answered_done.mp h
      refine ⟨?_, .inr ⟨rfl, fun _ _ => ⟨rfl, by simp [FsCall.ByName]⟩⟩⟩
      constructor <;> simp [Entry.ClosedFile, FsCall.ClosesFile, hpresent]
  · rw [if_neg hdue] at h
    obtain ⟨rfl, rfl⟩ := answered_done.mp h
    refine ⟨.nil slot, .inr ⟨rfl, fun hbound hheld => ⟨?_, by simp⟩⟩⟩
    by_contra hpresent
    have hpresent : slot.filePresent := by simpa using hpresent
    exact hdue ⟨hbound, hheld hpresent, hpresent⟩

theorem closeFile_spec {out : CloseReply × Slot}
    (h : Prog.Answered FsCall.Admits (closeFile slot) log out) :
    CloseSteps slot log out.2 ∧ (out.1.consumed = false → ¬Clean log) := by
  rw [closeFile] at h
  by_cases hopen : slot.fileOpen
  · rw [if_pos hopen] at h
    obtain ⟨r, rest, rfl, -, h⟩ := answered_call.mp h
    obtain ⟨hkept, rfl, rfl⟩ | ⟨hkept, h⟩ := answered_guard h
    · refine ⟨?_, fun _ => by simp [Entry.Succeeded, hkept]⟩
      refine ⟨rfl, id, id, ?_, ?_, ?_, ?_, ?_⟩ <;>
        simp [Entry.UnlinkedHeld, Entry.ClosedFile, FsCall.UnlinksHeld, FsCall.ByName, hopen, hkept]
    · obtain ⟨rfl, rfl⟩ := answered_done.mp h
      refine ⟨?_, fun hno => absurd hno hkept⟩
      constructor <;> simp [Entry.UnlinkedHeld, FsCall.UnlinksHeld, FsCall.ByName, hopen]
  · rw [if_neg hopen] at h
    obtain ⟨rfl, rfl⟩ := answered_done.mp h
    exact ⟨.nil slot, by simp⟩

theorem Entry.UnlinkedHeld.unlinksHeld {x : Entry} (h : x.UnlinkedHeld) : x.1.UnlinksHeld := by
  obtain ⟨c, r⟩ := x
  cases c <;> simp_all [Entry.UnlinkedHeld, FsCall.UnlinksHeld]

theorem Entry.ClosedFile.closesFile {x : Entry} (h : x.ClosedFile) : x.1.ClosesFile := by
  obtain ⟨c, r⟩ := x
  cases c <;> simp_all [Entry.ClosedFile, FsCall.ClosesFile]

theorem closeName_spec {out : FsStatus × Slot}
    (h : Prog.Answered FsCall.Admits (closeName path slot) log out) :
    CloseSteps slot log out.2 ∧ (out.1 ≠ .ok → ¬Clean log) := by
  rw [closeName] at h
  by_cases hpresent : slot.filePresent
  · rw [if_pos hpresent] at h
    obtain ⟨removed, first, rest, rfl, hremove, h⟩ := answered_bind.mp h
    have hpath := hremove.only (removePrivateFile_only path false)
    have hunlink : ∀ x ∈ first, ¬x.1.UnlinksHeld := fun x hx => (hpath x hx).not_unlinksHeld
    have hclose : ∀ x ∈ first, ¬x.1.ClosesFile := fun x hx => (hpath x hx).not_closesFile
    have hunlinked : ∀ x : Entry, x ∈ first → ¬x.UnlinkedHeld :=
      fun x hx hu => hunlink x hx hu.unlinksHeld
    have hclosed : ∀ x : Entry, x ∈ first → ¬x.ClosedFile :=
      fun x hx hc => hclose x hx hc.closesFile
    obtain ⟨hfailed, rfl, rfl⟩ | ⟨hfailed, h⟩ := answered_guard h
    · rw [append_nil]
      refine ⟨?_, fun _ hclean => hfailed (removePrivateFile_clean hremove hclean)⟩
      exact ⟨rfl, id, id, fun x hx hu => absurd hu (hunlinked x hx),
        fun x hx hc => absurd hc (hclosed x hx), fun _ => hunlink, fun _ => hclose,
        fun hf => by rw [hpresent] at hf; cases hf⟩
    · obtain ⟨rfl, rfl⟩ := answered_done.mp h
      rw [append_nil]
      refine ⟨?_, fun hno => absurd rfl hno⟩
      exact ⟨rfl, fun hf => (by cases hf), id, fun _ _ _ => rfl,
        fun x hx hc => absurd hc (hclosed x hx), fun _ => hunlink, fun _ => hclose,
        fun hf => by rw [hpresent] at hf; cases hf⟩
  · rw [if_neg hpresent] at h
    obtain ⟨rfl, rfl⟩ := answered_done.mp h
    exact ⟨.nil slot, by simp⟩

/-- A whole close: the steps, and for a volume with inode-bound cleanup that nothing is
looked up by name as long as an unlinked name is the only way to lose the handle. -/
structure CloseWork (slot : Slot) (log : FsLog) (slot' : Slot) : Prop where
  steps : CloseSteps slot log slot'
  bound : slot.inodeBoundCleanup = true → (slot.filePresent = true → slot.fileOpen = true) →
    (∀ x ∈ log, ¬x.1.ByName) ∧ (slot'.filePresent = true → slot'.fileOpen = true)

theorem CloseWork.of_unlinked {slot₁ slot₂ : Slot} {log' : FsLog} (h : CloseSteps slot log slot₁)
    (hbound : slot.inodeBoundCleanup → (slot.filePresent → slot.fileOpen) →
      slot₁.filePresent = false ∧ ∀ x ∈ log, ¬x.1.ByName)
    (h' : CloseSteps slot₁ log' slot₂) : CloseWork slot (log ++ log') slot₂ where
  steps := h.append h'
  bound hb hheld := by
    obtain ⟨hgone, hlog⟩ := hbound hb hheld
    refine ⟨forall_mem_append.mpr ⟨hlog, h'.no_name hgone⟩, fun hp => ?_⟩
    rw [h'.absent hgone] at hp
    cases hp

/-- How a close ends: the slot is kept after a call that did not succeed, or released. -/
inductive Closed (s : State) (index : Fin slotLimit) (log : FsLog) (slot' : Slot) :
    Answer × State → Prop
  | kept {status : Status} {filesystemStatus : FsStatus} :
      status = .filesystem ∨ status = .durability → ¬Clean log →
        Closed s index log slot' (keepSlot s index status filesystemStatus slot')
  | released {status : Status} {filesystemStatus : FsStatus} :
      status = .ok ∨ status = .filesystem → Closed s index log slot'
          ({ finish status filesystemStatus with consumed := true },
            s.put index (releaseSlot slot'))

theorem CloseSteps.sync (slot : Slot) (status : FsStatus) :
    CloseSteps slot [⟨.sync, status⟩] slot := by
  refine ⟨rfl, id, id, ?_, ?_, ?_, ?_, ?_⟩ <;>
    simp [Entry.UnlinkedHeld, Entry.ClosedFile, FsCall.UnlinksHeld, FsCall.ClosesFile, FsCall.ByName]

theorem closeSlot_spec {s : State} {index : Fin slotLimit} {out : Answer × State}
    (h : Prog.Answered FsCall.Admits (closeSlot s index slot) log out) :
    ∃ slot', CloseWork slot log slot' ∧ Closed s index log slot' out := by
  obtain ⟨unlinked, first, rest, rfl, hunlink, h⟩ := answered_bind.mp h
  obtain ⟨hfirst, ⟨status, rfl, hfailed, hname⟩ | ⟨hnone, hbound⟩⟩ := closeUnlink_spec hunlink
  · obtain ⟨rfl, rfl⟩ := answered_done.mp h
    rw [append_nil]
    exact ⟨slot, ⟨hfirst, fun _ hheld => ⟨hname, hheld⟩⟩, .kept (.inl rfl) hfailed⟩
  simp only [hnone] at h
  obtain ⟨closed, second, rest, rfl, hclose, h⟩ := answered_bind.mp h
  obtain ⟨hsecond, hkept⟩ := closeFile_spec hclose
  obtain ⟨hconsumed, rfl, rfl⟩ | ⟨hconsumed, h⟩ := answered_guard h
  · rw [append_nil]
    exact ⟨closed.2, .of_unlinked hfirst hbound hsecond,
      .kept (.inl rfl) fun hclean => hkept hconsumed (clean_append.mp hclean).2⟩
  obtain ⟨removed, third, rest, rfl, hremove, h⟩ := answered_bind.mp h
  obtain ⟨hthird, hleft⟩ := closeName_spec hremove
  obtain ⟨hrefused, rfl, rfl⟩ | ⟨hrefused, h⟩ := answered_guard h
  · rw [append_nil]
    exact ⟨removed.2, .of_unlinked hfirst hbound (hsecond.append hthird),
      .kept (.inl rfl) fun hclean =>
        hleft hrefused (clean_append.mp (clean_append.mp hclean).2).2⟩
  obtain ⟨status, rest, rfl, -, h⟩ := answered_call.mp h
  have hwork : CloseWork slot (first ++ (second ++ (third ++ [⟨.sync, status⟩]))) removed.2 :=
    .of_unlinked hfirst hbound (hsecond.append (hthird.append (.sync _ _)))
  obtain ⟨hsync, rfl, rfl⟩ | ⟨hsync, h⟩ := answered_guard h
  · refine ⟨removed.2, hwork, .kept (.inr rfl) fun hclean => ?_⟩
    simp only [clean_append, clean_cons] at hclean
    exact hsync hclean.2.2.2.1.1
  · obtain ⟨rfl, rfl⟩ := answered_done.mp h
    refine ⟨removed.2, hwork, .released ?_⟩
    by_cases hclosed : closed.1.status = .ok
    · exact .inl (if_pos hclosed)
    · exact .inr (if_neg hclosed)

end OpenRFS.PackageUpload
