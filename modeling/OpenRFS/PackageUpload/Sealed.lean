import OpenRFS.PackageUpload.CallSpecs

/-!
# Sealed uploads are what was written

The events of a run tell, for every token, which bytes were reported written since it
was issued and with which length and digest it was sealed. A slot that is not poisoned
agrees with this record, so an upload that is shown or read is the one that was
written.
-/

namespace OpenRFS.PackageUpload

open Crash PackageState List
open Volume (FsStatus)

/-- What the events say of a token: the bytes reported written, in order, and the length
and the digest of a successful seal. -/
structure Record where
  written : Bytes
  sealedAs : Option (ℕ × Digest)

def Record.next (token : ℕ) (r : Record) (e : Event) : Record :=
  match e.request with
  | .openUpload _ =>
    if e.answer.status = .ok ∧ e.answer.report.token = token then ⟨[], none⟩ else r
  | .write _ t bytes =>
    if t = token then { r with written := r.written ++ bytes.take e.answer.written } else r
  | .sealUpload _ t n d =>
    if t = token ∧ e.answer.status = .ok then { r with sealedAs := some (n, d) } else r
  | _ => r

def record (token : ℕ) (events : List Event) : Record :=
  events.foldl (Record.next token) ⟨[], none⟩

@[simp] theorem record_concat (token : ℕ) (events : List Event) (e : Event) :
    record token (events ++ [e]) = (record token events).next token e := by
  simp [record]

variable {token : ℕ} {r : Record} {slot : Slot} {i : Fin slotLimit}

open Record

theorem Record.next_eq_self {e : Event} (hopen : ∀ owner, e.request = .openUpload owner →
      e.answer.status = .ok → e.answer.report.token ≠ token)
    (hwrite : ∀ owner t bytes, e.request = .write owner t bytes → t = token → e.answer.written = 0)
    (hseal : ∀ owner t n d, e.request = .sealUpload owner t n d → t = token →
      e.answer.status ≠ .ok) : r.next token e = r := by
  unfold next
  split
  · rename_i owner hq
    exact if_neg fun h => hopen owner hq h.1 h.2
  · rename_i owner t bytes hq
    split_ifs with ht
    · rw [hwrite owner t bytes hq ht, take_zero, append_nil]
    · rfl
  · rename_i owner t n d hq
    exact if_neg fun h => hseal owner t n d hq h.1 h.2
  · rfl

theorem Record.next_of_other {owner t : ℕ} {e : Event}
    (htarget : e.request.target = some (owner, t)) (h : token ≠ t) : r.next token e = r := by
  refine next_eq_self ?_ ?_ ?_
  · intro o hq
    rw [hq] at htarget
    cases htarget
  · intro o t' bytes hq ht
    rw [hq] at htarget
    cases htarget
    exact absurd ht.symm h
  · intro o t' n d hq ht
    rw [hq] at htarget
    cases htarget
    exact absurd ht.symm h

theorem Record.next_of_idle {e : Event} (hwritten : e.answer.written = 0)
    (hopen : ∀ owner, e.request = .openUpload owner → e.answer.status ≠ .ok)
    (hseal : ∀ owner t n d, e.request = .sealUpload owner t n d → e.answer.status ≠ .ok) :
    r.next token e = r :=
  next_eq_self (fun owner hq hok => absurd hok (hopen owner hq)) (fun _ _ _ _ _ => hwritten)
    fun owner t n d hq _ => hseal owner t n d hq

/-- The slot of an upload agrees with its record. -/
structure Agrees (r : Record) (slot : Slot) : Prop where
  byteCount : slot.byteCount = r.written.length
  file : slot.file = r.written
  hashed : slot.isSealed = false →
    slot.sha256 = r.written.foldl Sha256.pushByte Sha256.initialContext
  digest : slot.isSealed = true → slot.digest = sha256Of r.written
  sealedAs : slot.isSealed = true → r.sealedAs = some (slot.byteCount, slot.digest)

theorem Agrees.opened (s : State) (i : Fin slotLimit) (owner : ℕ) :
    Agrees ⟨[], none⟩ (openedSlot s i owner) :=
  ⟨rfl, rfl, fun _ => rfl, nofun, nofun⟩

theorem Agrees.wrote {slot' : Slot} {bytes : Bytes} (h : Agrees r slot) (hgrowing : slot.Growing)
    (hclean : slot'.poisoned = false) (happends : Appends slot bytes slot') :
    Agrees { r with written := r.written ++ bytes } slot' := by
  have hunsealed : slot'.isSealed = false := by
    rw [happends.frame]
    exact hgrowing.unsealed
  have hnot : slot'.isSealed ≠ true := by simp [hunsealed]
  refine ⟨?_, ?_, fun _ => ?_, fun hs => absurd hs hnot, fun hs => absurd hs hnot⟩
  · rw [happends.byteCount hclean, h.byteCount, length_append]
  · rw [happends.file hclean, h.file]
  · rw [happends.sha256 hclean, h.hashed hgrowing.unsealed, foldl_append]

theorem Agrees.sealedUp (h : Agrees r slot) (hgrowing : slot.Growing) :
    Agrees
      { r with
        sealedAs := some (slot.byteCount, Sha256.output (Sha256.finalWords slot.sha256)) }
      (sealedSlot slot) := by
  refine ⟨h.byteCount, h.file, nofun, fun _ => ?_, fun _ => rfl⟩
  show Sha256.output (Sha256.finalWords slot.sha256) = sha256Of r.written
  rw [h.hashed hgrowing.unsealed]
  rfl

/-- Every upload that is not poisoned agrees with its record. -/
def Recorded (events : List Event) (s : State) : Prop :=
  ∀ i, (s.slots i).active = true → (s.slots i).poisoned = false →
    Agrees (record (encodeToken i (s.slots i).generation) events) (s.slots i)

variable {events : List Event} {s s' : State} {e : Event}

@[simp] theorem State.put_self (s : State) (i : Fin slotLimit) (slot : Slot) :
    (s.put i slot).slots i = slot := by
  simp [State.put]

theorem State.put_of_ne (s : State) {j : Fin slotLimit} (slot : Slot) (h : j ≠ i) :
    (s.put i slot).slots j = s.slots j := by
  simp [State.put, h]

theorem Recorded.unchanged (h : Recorded events s)
    (hnext : ∀ token r, next token r e = r) : Recorded (events ++ [e]) s := by
  intro i hactive hclean
  rw [record_concat, hnext]
  exact h i hactive hclean

/-- An event on one slot. The records of the other tokens stay, and that of the slot
goes along with it. -/
theorem Recorded.put (h : Recorded events s)
    (hother : ∀ token r, token ≠ encodeToken i (s.slots i).generation → next token r e = r)
    (hself : slot.active → slot.poisoned = false →
      Agrees (record (encodeToken i slot.generation) (events ++ [e])) slot) :
    Recorded (events ++ [e]) (s.put i slot) := by
  intro j hactive hclean
  by_cases hj : j = i
  · subst hj
    rw [State.put_self] at hactive hclean ⊢
    exact hself hactive hclean
  · rw [State.put_of_ne s slot hj] at hactive hclean ⊢
    rw [record_concat, hother _ _ fun heq => hj (encodeToken_inj heq).1]
    exact h j hactive hclean

theorem Status.Accepts.of_ok {status : Status} (h : status = .ok) : status.Accepts := by
  rw [h]
  decide

theorem Recorded.step (h : Recorded events s) (hidle : s.servicing = false) (hstep : Step s e s') :
    Recorded (events ++ [e]) s' := by
  cases hstep with
  | contended request =>
    exact h.unchanged fun token r => next_of_idle rfl (fun _ _ => nofun) fun _ _ _ _ _ => nofun
  | @served _ q log a hanswered =>
    cases served_of_answered hidle hanswered with
    | turnedAway blank unopened unresolved =>
      refine h.unchanged fun token r => next_of_idle blank.written unopened ?_
      rintro owner t n d rfl hok
      exact not_accepts_of_resolveSlot (unresolved owner t rfl).1 (.of_ok hok)
    | ready cold blank =>
      intro i hactive
      cases hactive
    | @opened owner i log initialized owner_ne free =>
      refine h.put ?_ fun _ _ => ?_
      · intro token r hne
        refine next_eq_self (fun _ _ _ => hne.symm) ?_ ?_
        · rintro o t bytes hq
          cases hq
        · rintro o t n d hq
          cases hq
      · rw [record_concat]
        have hreset (r : Record) : r.next (encodeToken i (openedSlot s i owner).generation)
            ⟨.openUpload owner, false, log, finishSlot .ok .ok (openedSlot s i owner) i⟩ =
            ⟨[], none⟩ := if_pos ⟨rfl, rfl⟩
        rw [hreset]
        exact .opened s i owner
    | shown target slot accepts good no_close =>
      refine h.unchanged fun token r => next_of_idle rfl ?_ ?_
      · rintro o rfl
        cases target
      · rintro o t n d rfl hok
        cases (good hok).2
    | readBack slot readable bytes =>
      exact h.unchanged fun token r => next_of_idle rfl (fun _ => nofun) fun _ _ _ _ => nofun
    | @wrote owner token bytes i log w slot growing total_le appends accepts =>
      obtain rfl := slot.token_eq
      refine h.put (fun token r hne => next_of_other rfl hne) fun hactive hclean => ?_
      have hgeneration : w.slot.generation = (s.slots i).generation := by rw [appends.frame]
      rw [hgeneration, record_concat]
      have hnext (r : Record) (answer : Answer) (hw : answer.written = w.total) :
          r.next (encodeToken i (s.slots i).generation)
            ⟨.write owner (encodeToken i (s.slots i).generation) bytes, false, log, answer⟩ =
          { r with written := r.written ++ bytes.take w.total } := by
        rw [← hw]
        exact if_pos rfl
      rw [hnext _ _ rfl]
      exact (h i slot.active growing.clean).wrote growing hclean appends
    | sealRefused slot growing accepts status_ne =>
      obtain rfl := slot.token_eq
      exact h.put (fun token r hne => next_of_other rfl hne) fun _ => nofun
    | @sealedUp owner token i log slot growing =>
      obtain rfl := slot.token_eq
      refine h.put (fun token r hne => next_of_other rfl hne) fun _ _ => ?_
      rw [record_concat]
      have hnext (r : Record) (answer : Answer) (hok : answer.status = .ok) (n : ℕ) (d : Digest) :
          r.next (encodeToken i (s.slots i).generation)
            ⟨.sealUpload owner (encodeToken i (s.slots i).generation) n d, false, log, answer⟩ =
          { r with sealedAs := some (n, d) } := if_pos ⟨rfl, hok⟩
      show Agrees (next (encodeToken i (s.slots i).generation) _ _) _
      rw [hnext _ _ rfl]
      exact (h i slot.active growing.clean).sealedUp growing
    | @closing owner token i log a s' slot' slot work ended =>
      obtain rfl := slot.token_eq
      cases ended with
      | kept hstatus hfailed =>
        refine h.put (fun token r hne => next_of_other rfl hne) fun _ hclean => ?_
        rw [work.steps.frame] at hclean
        cases hclean
      | released hstatus =>
        exact h.put (fun token r hne => next_of_other rfl hne) nofun

/-- `servicing` is clear between requests. -/
theorem Step.servicing (hidle : s.servicing = false) (hstep : Step s e s') : s'.servicing = false := by
  cases hstep with
  | contended request => exact hidle
  | served hanswered =>
    cases served_of_answered hidle hanswered with
    | closing slot work ended => cases ended <;> exact hidle
    | _ => exact hidle

theorem Run.servicing {s₀ : State} (hidle : s₀.servicing = false) (hrun : Run s₀ events s) :
    s.servicing = false := by
  induction hrun with
  | start => exact hidle
  | step hrun hstep ih => exact hstep.servicing ih

theorem Run.recorded {atomicReplace : Bool} (hrun : Run (.cold atomicReplace) events s) :
    Recorded events s := by
  induction hrun with
  | start =>
    intro i hactive
    cases hactive
  | step hrun hstep ih => exact ih.step (hrun.servicing rfl) hstep

/-- The report shows the upload of the record, under the length and the digest that it
was sealed with. -/
structure Report.Shows (report : Report) (r : Record) : Prop where
  byteCount : report.byteCount = r.written.length
  sha256 : report.sha256 = sha256Of r.written
  sealedAs : r.sealedAs = some (report.byteCount, report.sha256)

theorem Agrees.shows {status : Status} {filesystemStatus : FsStatus} (h : Agrees r slot)
    (hsealed : slot.isSealed) : (finishSlot status filesystemStatus slot i).report.Shows r :=
  ⟨h.byteCount, h.digest hsealed, h.sealedAs hsealed⟩

def sampleVolume : (c : FsCall) → c.Reply
  | .statPath _ => ⟨.notFound, 0, false⟩
  | .write held bytes => ⟨.ok, bytes.length, held ++ bytes⟩
  | .pread held capacity offset => ⟨.ok, (held.drop offset).take capacity⟩
  | .closeReport => ⟨.ok, true⟩
  | .mkdir _ => .ok
  | .truncate _ _ => .ok
  | .unlink _ => .ok
  | .openOptions _ => .ok
  | .fsync => .ok
  | .sync => .ok
  | .unlinkHeldFile _ => .ok

theorem admits_sampleVolume (c : FsCall) : c.Admits (sampleVolume c) := by
  cases c with
  | write held bytes =>
    intro _ _
    show held ++ bytes = held ++ bytes.take bytes.length
    rw [take_length]
  | pread held capacity offset => exact fun _ => ⟨capacity, le_rfl, rfl⟩
  | _ => trivial

def serveAll (volume : (c : FsCall) → c.Reply) : List Request → State → List Event × State
  | [], s => ([], s)
  | q :: rest, s =>
    let out := (serve s q).answerWith volume
    let after := serveAll volume rest out.2.2
    (⟨q, false, out.1, out.2.1⟩ :: after.1, after.2)

theorem Run.cons {s₀ s₁ : State} (hstep : Step s₀ e s₁) (hrun : Run s₁ events s) :
    Run s₀ (e :: events) s := by
  induction hrun with
  | start => exact .step .start hstep
  | step hrun hlast ih => exact .step ih hlast

theorem run_serveAll {volume : (c : FsCall) → c.Reply} (h : ∀ c : FsCall, c.Admits (volume c))
    (requests : List Request) (s : State) :
    Run s (serveAll volume requests s).1 (serveAll volume requests s).2 := by
  induction requests generalizing s with
  | nil => exact .start
  | cons q rest ih => exact .cons (.served (Prog.answered_answerWith h _)) (ih _)

def sampleToken : ℕ := 1 * 2 ^ 32 + 1

def sampleRequests : List Request :=
  [.initializeUploads, .openUpload 7, .write 7 sampleToken [1, 2, 3],
    .sealUpload 7 sampleToken 3 (sha256Of [1, 2, 3])]

def sampleRun : List Event × State := serveAll sampleVolume sampleRequests (.cold true)

def sampleRead : Prog.Log FsCall.Reply × (Answer × State) :=
  (serve sampleRun.2 (.read 7 sampleToken 1 10)).answerWith sampleVolume

theorem sampleRead_ok : sampleRead.2.1.status = .ok := by decide +kernel

example : (record sampleToken sampleRun.1).written = [1, 2, 3] := by decide +kernel

end OpenRFS.PackageUpload
