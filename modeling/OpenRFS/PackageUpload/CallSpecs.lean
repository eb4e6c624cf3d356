import OpenRFS.PackageUpload.CloseSpecs

/-!
# What a request can do

`Served` lists the ways in which a request is answered and what it leaves of the slot
that it names. The invariants of runs are derived from it, one case for each
constructor.
-/

namespace OpenRFS.PackageUpload

open Crash PackageState List Prog
open Volume (FsStatus)

def Request.target : Request → Option (ℕ × ℕ)
  | .initializeUploads => none
  | .openUpload _ => none
  | .write owner token _ => some (owner, token)
  | .sealUpload owner token _ _ => some (owner, token)
  | .read owner token _ _ => some (owner, token)
  | .inspect owner token => some (owner, token)
  | .close owner token => some (owner, token)

/-- The status of a request whose token was accepted. -/
def Status.Accepts (status : Status) : Prop :=
  status ≠ .notInitialized ∧ status ≠ .stale

instance (status : Status) : Decidable status.Accepts := inferInstanceAs (Decidable (_ ∧ _))

structure Answer.Blank (a : Answer) : Prop where
  token : a.report.token = 0
  unsealed : a.report.isSealed = false
  volatile : a.report.durable = false
  written : a.written = 0
  bytes : a.bytes = []
  kept : a.consumed = false

theorem blank_finish (status : Status) (filesystemStatus : FsStatus) :
    (finish status filesystemStatus).Blank :=
  ⟨rfl, rfl, rfl, rfl, rfl, rfl⟩

/-! ### Tokens -/

variable {status : Status} {slot : Slot} {q : Request} {i : Fin slotLimit}

theorem encodeToken_mod (i : Fin slotLimit) (g : ℕ) : encodeToken i g % 2 ^ 32 = i + 1 := by
  have hi := i.isLt
  unfold encodeToken slotLimit at *
  omega

theorem encodeToken_div (i : Fin slotLimit) (g : ℕ) : encodeToken i g / 2 ^ 32 = g := by
  have hi := i.isLt
  unfold encodeToken slotLimit at *
  omega

theorem encodeToken_inj {j : Fin slotLimit} {g h : ℕ} (heq : encodeToken i g = encodeToken j h) :
    i = j ∧ g = h := by
  constructor
  · apply Fin.ext
    rw [← Nat.add_right_cancel_iff, ← encodeToken_mod i g, heq, encodeToken_mod]
  · rw [← encodeToken_div i g, heq, encodeToken_div]

/-- The slot `i` is open for the owner under the token. -/
@[mk_iff] structure State.Holds (s : State) (owner token : ℕ) (i : Fin slotLimit) : Prop where
  initialized : s.initialized = true
  owner_ne : owner ≠ 0
  active : (s.slots i).active = true
  owned : (s.slots i).owner = owner
  token_eq : token = encodeToken i (s.slots i).generation
  generation_ne : (s.slots i).generation ≠ 0

theorem resolveSlot_eq_ok {s : State} {owner token : ℕ} :
    resolveSlot s owner token = .ok i ↔ s.Holds owner token i := by
  unfold resolveSlot
  constructor
  · intro h
    by_cases hinit : s.initialized = false
    · rw [if_pos hinit] at h
      cases h
    rw [if_neg hinit] at h
    by_cases hbad : owner = 0 ∨ token % 2 ^ 32 = 0 ∨ slotLimit < token % 2 ^ 32 ∨ token / 2 ^ 32 = 0
    · rw [dif_pos hbad] at h
      cases h
    rw [dif_neg hbad] at h
    push Not at hbad
    obtain ⟨howner, hindex, hlimit, hgeneration⟩ := hbad
    dsimp only at h
    split_ifs at h with hstale
    cases h
    push Not at hstale
    obtain ⟨hactive, hgen, howned⟩ := hstale
    refine ⟨by simpa using hinit, howner, by simpa using hactive, howned, ?_, ?_⟩
    · rw [hgen, encodeToken]
      show token = token / 2 ^ 32 * 2 ^ 32 + (token % 2 ^ 32 - 1 + 1)
      omega
    · rw [hgen]
      exact hgeneration
  · rintro ⟨hinit, howner, hactive, howned, rfl, hgen⟩
    have hi := i.isLt
    simp only [encodeToken_mod, encodeToken_div]
    rw [if_neg (by simp [hinit]), dif_neg (by omega)]
    simp only [Nat.add_sub_cancel, Fin.eta]
    rw [if_neg]
    simp [hactive, howned]

theorem not_accepts_of_resolveSlot {s : State} {owner token : ℕ}
    (h : resolveSlot s owner token = .error status) : ¬status.Accepts := by
  unfold resolveSlot at h
  dsimp only at h
  split_ifs at h
  all_goals
    cases h
    decide

/-! ### Writes -/

/-- The slot after bytes were written: if it is not poisoned, they are at the end of
the file, counted and hashed. -/
structure Appends (slot : Slot) (bytes : Bytes) (slot' : Slot) : Prop where
  frame : slot' =
    { slot with
      file := slot'.file, sha256 := slot'.sha256, byteCount := slot'.byteCount,
      poisoned := slot'.poisoned }
  file : slot'.poisoned = false → slot'.file = slot.file ++ bytes
  sha256 : slot'.poisoned = false → slot'.sha256 = bytes.foldl Sha256.pushByte slot.sha256
  byteCount : slot'.poisoned = false → slot'.byteCount = slot.byteCount + bytes.length

theorem Appends.nil (slot : Slot) : Appends slot [] slot :=
  ⟨rfl, fun _ => (append_nil _).symm, fun _ => rfl, fun _ => rfl⟩

theorem Appends.poisoned {slot' : Slot} (bytes : Bytes) (frame : slot' =
      { slot with
        file := slot'.file, sha256 := slot'.sha256, byteCount := slot'.byteCount,
        poisoned := slot'.poisoned }) (h : slot'.poisoned) : Appends slot bytes slot' := by
  refine ⟨frame, ?_, ?_, ?_⟩ <;>
    · intro hclean
      rw [h] at hclean
      cases hclean

theorem Appends.append {slot₁ slot₂ : Slot} {x y : Bytes} (h : Appends slot x slot₁)
    (hclean : slot₁.poisoned = false) (h' : Appends slot₁ y slot₂) :
    Appends slot (x ++ y) slot₂ where
  frame := by rw [h'.frame, h.frame]
  file hp := by rw [h'.file hp, h.file hclean, append_assoc]
  sha256 hp := by rw [h'.sha256 hp, h.sha256 hclean, foldl_append]
  byteCount hp := by rw [h'.byteCount hp, h.byteCount hclean, length_append, add_assoc]

theorem update_eq_foldl {c c' : Sha256.Context} {bytes : Bytes}
    (h : Sha256.update c bytes = .ok c') : c' = bytes.foldl Sha256.pushByte c := by
  unfold Sha256.update at h
  split_ifs at h
  cases h
  rfl

theorem writeLoop_spec {total : ℕ} {rest : Bytes} {log : FsLog} {w : Written}
    (h : Prog.Answered FsCall.Admits (writeLoop slot total rest) log w)
    (hclean : slot.poisoned = false) :
    ∃ n ≤ rest.length, w.total = total + n ∧ Appends slot (rest.take n) w.slot ∧
      w.status.Accepts := by
  induction hlen : rest.length using Nat.strong_induction_on generalizing slot total rest log with
  | _ len ih =>
    subst hlen
    rw [writeLoop] at h
    by_cases hrest : rest = []
    · rw [dif_pos hrest] at h
      obtain ⟨-, rfl⟩ := answered_done.mp h
      exact ⟨0, Nat.zero_le _, rfl, by simpa using Appends.nil slot, ⟨nofun, nofun⟩⟩
    rw [dif_neg hrest] at h
    obtain ⟨r, log, rfl, hr, h⟩ := answered_call.mp h
    obtain ⟨hbad, -, rfl⟩ | ⟨hbad, h⟩ := answered_guard h
    · exact ⟨0, Nat.zero_le _, rfl, .poisoned _ rfl rfl, ⟨nofun, nofun⟩⟩
    push Not at hbad
    by_cases hzero : r.written = 0
    · rw [dif_pos hzero] at h
      obtain ⟨-, rfl⟩ := answered_done.mp h
      exact ⟨0, Nat.zero_le _, rfl, .poisoned _ rfl rfl, ⟨nofun, nofun⟩⟩
    rw [dif_neg hzero] at h
    cases hupdate : Sha256.update slot.sha256 (rest.take r.written) with
    | error e =>
      simp only [hupdate] at h
      obtain ⟨-, rfl⟩ := answered_done.mp h
      exact ⟨0, Nat.zero_le _, rfl, .poisoned _ rfl rfl, ⟨nofun, nofun⟩⟩
    | ok sha256 =>
      simp only [hupdate] at h
      obtain ⟨hfailed, -, rfl⟩ | ⟨hfailed, h⟩ := answered_guard h
      · exact ⟨r.written, hbad.1, rfl, .poisoned _ rfl rfl, ⟨nofun, nofun⟩⟩
      have hok : r.status = .ok := not_not.mp hfailed
      -- the bytes of this round, and then the rest of the loop
      have hround : Appends slot (rest.take r.written)
          { slot with
            file := r.held, sha256 := sha256, byteCount := slot.byteCount + r.written } := by
        refine ⟨rfl, fun _ => hr hok hbad.1, fun _ => update_eq_foldl hupdate, fun _ => ?_⟩
        rw [length_take_of_le hbad.1]
      have hshort : (rest.drop r.written).length < rest.length := by
        rw [length_drop]
        exact Nat.sub_lt (length_pos_of_ne_nil hrest) (Nat.pos_of_ne_zero hzero)
      obtain ⟨n, hn, htotal, happends, haccepts⟩ := ih _ hshort h hclean rfl
      rw [length_drop] at hn
      refine ⟨r.written + n, by omega, by omega, ?_, haccepts⟩
      rw [take_add]
      exact hround.append hclean happends

/-! ### Requests -/

def sealedSlot (slot : Slot) : Slot :=
  { slot with
    sha256 := { slot.sha256 with finished := true }
    digest := Sha256.output (Sha256.finalWords slot.sha256)
    isSealed := true
    durable := true }

def closingSlot (slot : Slot) : Slot :=
  { slot with poisoned := true, isSealed := false, durable := false }

structure Slot.Growing (slot : Slot) : Prop where
  fileOpen : slot.fileOpen = true
  unsealed : slot.isSealed = false
  clean : slot.poisoned = false

/-- How a request with the claim is answered, and the state after it. -/
inductive Served (s : State) : Request → FsLog → Answer → State → Prop
  /-- No slot is touched or shown. -/
  | turnedAway {q : Request} {log : FsLog} {a : Answer} (blank : a.Blank)
      (unopened : ∀ owner, q = .openUpload owner → a.status ≠ .ok)
      (unresolved : ∀ owner token, q.target = some (owner, token) →
        resolveSlot s owner token = .error a.status ∧ log = []) :
      Served s q log a s
  | ready {log : FsLog} {a : Answer} (cold : s.initialized = false) (blank : a.Blank) :
      Served s .initializeUploads log a s.ready
  | opened {owner : ℕ} {i : Fin slotLimit} {log : FsLog} (initialized : s.initialized = true)
      (owner_ne : owner ≠ 0) (free : (s.slots i).active = false) :
      Served s (.openUpload owner) log (finishSlot .ok .ok (openedSlot s i owner) i)
        (s.put i (openedSlot s i owner))
  /-- The slot is shown as it is. -/
  | shown {q : Request} {owner token : ℕ} {i : Fin slotLimit} {status : Status}
      (target : q.target = some (owner, token)) (slot : s.Holds owner token i)
      (accepts : status.Accepts)
      (good : status = .ok → (s.slots i).Readable ∧ q = .inspect owner token)
      (no_close : ∀ owner token, q ≠ .close owner token) :
      Served s q [] (finishSlot status .ok (s.slots i) i) s
  | readBack {owner token offset capacity : ℕ} {i : Fin slotLimit} {log : FsLog} {r : PreadReply}
      (slot : s.Holds owner token i) (readable : (s.slots i).Readable)
      (bytes : r.status = .ok →
        ∃ count ≤ capacity, r.bytes = ((s.slots i).file.drop offset).take count) :
      Served s (.read owner token offset capacity) log
        { finishSlot (if r.status = .ok then .ok else .filesystem) r.status (s.slots i) i with
          bytes := r.bytes } s
  | wrote {owner token : ℕ} {bytes : Bytes} {i : Fin slotLimit} {log : FsLog} {w : Written}
      (slot : s.Holds owner token i) (growing : (s.slots i).Growing)
      (total_le : w.total ≤ bytes.length) (appends : Appends (s.slots i) (bytes.take w.total) w.slot)
      (accepts : w.status.Accepts) :
      Served s (.write owner token bytes) log
        { finishSlot w.status w.filesystemStatus w.slot i with written := w.total }
        (s.put i w.slot)
  | sealRefused {owner token expectedBytes : ℕ} {expectedSha256 : Digest} {i : Fin slotLimit}
      {log : FsLog} {status : Status} {filesystemStatus : FsStatus} {c : Sha256.Context} {d : Digest}
      (slot : s.Holds owner token i) (growing : (s.slots i).Growing) (accepts : status.Accepts)
      (status_ne : status ≠ .ok) :
      Served s (.sealUpload owner token expectedBytes expectedSha256) log
        (finishSlot status filesystemStatus
          { s.slots i with sha256 := c, digest := d, poisoned := true } i)
        (s.put i { s.slots i with sha256 := c, digest := d, poisoned := true })
  | sealedUp {owner token : ℕ} {i : Fin slotLimit} {log : FsLog}
      (slot : s.Holds owner token i) (growing : (s.slots i).Growing) :
      Served s
        (.sealUpload owner token (s.slots i).byteCount
          (Sha256.output (Sha256.finalWords (s.slots i).sha256)))
        log (finishSlot .ok .ok (sealedSlot (s.slots i)) i) (s.put i (sealedSlot (s.slots i)))
  | closing {owner token : ℕ} {i : Fin slotLimit} {log : FsLog} {a : Answer} {s' : State} {slot' : Slot}
      (slot : s.Holds owner token i) (work : CloseWork (closingSlot (s.slots i)) log slot')
      (ended : Closed s i log slot' (a, s')) :
      Served s (.close owner token) log a s'

variable {s s' : State} {owner token : ℕ} {log : FsLog} {a : Answer}

theorem Served.of_unresolved (htarget : q.target = some (owner, token))
    (herror : resolveSlot s owner token = .error status) : Served s q [] (finish status .ok) s := by
  refine .turnedAway (blank_finish _ _) ?_ ?_
  · rintro o rfl
    cases htarget
  · intro o t ht
    obtain ⟨rfl, rfl⟩ := Prod.mk.inj (Option.some.inj (htarget.symm.trans ht))
    exact ⟨herror, rfl⟩

theorem Slot.growing_of_not
    (h : ¬(slot.fileOpen = false ∨ slot.isSealed ∨ slot.poisoned)) :
    slot.Growing := by
  push Not at h
  exact ⟨by simpa using h.1, by simpa using h.2.1, by simpa using h.2.2⟩

/-- An initialization that fails before the slots are made ready. -/
theorem Served.of_uninitialized (hblank : a.Blank) : Served s .initializeUploads log a s :=
  .turnedAway hblank (fun _ hq => (by cases hq)) fun _ _ ht => (by cases ht)

theorem initializationFailure_blank {filesystemStatus : FsStatus} {changed : Bool}
    (h : Prog.Answered FsCall.Admits (initializationFailure status filesystemStatus changed) log a) :
    a.Blank := by
  unfold initializationFailure at h
  by_cases hchanged : changed
  · rw [if_pos hchanged] at h
    obtain ⟨syncStatus, rest, rfl, -, h⟩ := answered_call.mp h
    split_ifs at h
    all_goals
      obtain ⟨-, rfl⟩ := answered_done.mp h
      exact blank_finish _ _
  · rw [if_neg hchanged] at h
    obtain ⟨-, rfl⟩ := answered_done.mp h
    exact blank_finish _ _

theorem prepareSlots_served {changed : Bool} (hcold : s.initialized = false)
    (h : Prog.Answered FsCall.Admits (prepareSlots s changed) log (a, s')) (first : FsLog) :
    Served s .initializeUploads (first ++ log) a s' := by
  obtain ⟨removed, l, rest, rfl, -, h⟩ := answered_bind.mp h
  by_cases hfailed : removed.1 ≠ .ok
  · rw [if_pos hfailed] at h
    obtain ⟨answer, l', rest, rfl, hanswer, h⟩ := answered_bind.mp h
    obtain ⟨-, h⟩ := answered_done.mp h
    cases h
    exact .of_uninitialized (initializationFailure_blank hanswer)
  rw [if_neg hfailed] at h
  by_cases hchanged : removed.2
  · rw [if_pos hchanged] at h
    obtain ⟨status, rest, rfl, -, h⟩ := answered_call.mp h
    obtain ⟨-, -, hout⟩ | ⟨-, h⟩ := answered_guard h
    · cases hout
      exact .of_uninitialized (blank_finish _ _)
    · obtain ⟨-, h⟩ := answered_done.mp h
      cases h
      exact .ready hcold (blank_finish _ _)
  · rw [if_neg hchanged] at h
    obtain ⟨-, h⟩ := answered_done.mp h
    cases h
    exact .ready hcold (blank_finish _ _)

theorem Served.of_unopened (hblank : a.Blank) (hstatus : a.status ≠ .ok) :
    Served s (.openUpload owner) log a s :=
  .turnedAway hblank (fun _ _ => hstatus) fun _ _ ht => (by cases ht)

theorem Served.of_guard {refuses : Prop} [Decidable refuses] {later : Fs (Answer × State)}
    (htarget : q.target = some (owner, token)) (hslot : s.Holds owner token i)
    (hclose : ∀ owner token, q ≠ .close owner token) (h : Prog.Answered FsCall.Admits
      (if refuses then .done (finishSlot status .ok (s.slots i) i, s) else later) log (a, s'))
    (haccepts : status.Accepts) (hstatus : status ≠ .ok)
    (hlater : ¬ refuses → Prog.Answered FsCall.Admits later log (a, s') → Served s q log a s') :
    Served s q log a s' := by
  obtain ⟨-, rfl, hout⟩ | ⟨hgranted, h⟩ := answered_guard h
  · cases hout
    exact .shown htarget hslot haccepts (fun hok => absurd hok hstatus) hclose
  · exact hlater hgranted h

theorem Served.of_slot {serveSlot : Fin slotLimit → Fs (Answer × State)}
    (htarget : q.target = some (owner, token)) (h : Prog.Answered FsCall.Admits
      (match resolveSlot s owner token with
        | .error status => .done (finish status .ok, s)
        | .ok i => serveSlot i) log (a, s'))
    (hslot : ∀ i, s.Holds owner token i → Prog.Answered FsCall.Admits (serveSlot i) log (a, s') →
      Served s q log a s') : Served s q log a s' := by
  cases hresolve : resolveSlot s owner token with
  | error status =>
    rw [hresolve] at h
    obtain ⟨rfl, h⟩ := answered_done.mp h
    cases h
    exact .of_unresolved htarget hresolve
  | ok i =>
    rw [hresolve] at h
    exact hslot i (resolveSlot_eq_ok.mp hresolve) h

theorem uploadInspectOwned_served
    (h : Prog.Answered FsCall.Admits (uploadInspectOwned s owner token) log (a, s')) :
    Served s (.inspect owner token) log a s' := by
  refine .of_slot rfl h fun i hslot h => ?_
  refine .of_guard rfl hslot nofun h ⟨nofun, nofun⟩ nofun fun hstate h => ?_
  obtain ⟨rfl, h⟩ := answered_done.mp h
  cases h
  exact .shown rfl hslot ⟨nofun, nofun⟩ (fun _ => ⟨not_not.mp hstate, rfl⟩) nofun

variable (hidle : s.servicing = false)
include hidle

theorem uploadInitializeOwned_served
    (h : Prog.Answered FsCall.Admits (uploadInitializeOwned s) log (a, s')) :
    Served s .initializeUploads log a s' := by
  unfold uploadInitializeOwned at h
  rw [if_neg (by simp [hidle])] at h
  obtain ⟨-, -, hout⟩ | ⟨hinit, h⟩ := answered_guard h
  · cases hout
    exact .of_uninitialized (blank_finish _ _)
  have hcold : s.initialized = false := by simpa using hinit
  obtain ⟨status, rest, rfl, -, h⟩ := answered_call.mp h
  by_cases hmade : status = .ok
  · rw [if_pos hmade] at h
    exact prepareSlots_served hcold h [_]
  rw [if_neg hmade] at h
  by_cases hfailed : status ≠ .entryExists
  · rw [if_pos hfailed] at h
    obtain ⟨answer, l', rest, rfl, hanswer, h⟩ := answered_bind.mp h
    obtain ⟨-, h⟩ := answered_done.mp h
    cases h
    exact .of_uninitialized (initializationFailure_blank hanswer)
  · rw [if_neg hfailed] at h
    exact prepareSlots_served hcold h [_]

theorem uploadOpenOwned_served
    (h : Prog.Answered FsCall.Admits (uploadOpenOwned s owner) log (a, s')) :
    Served s (.openUpload owner) log a s' := by
  obtain ⟨-, -, hout⟩ | ⟨howner, h⟩ := answered_guard h
  · cases hout
    exact .of_unopened ⟨rfl, rfl, rfl, rfl, rfl, rfl⟩ nofun
  obtain ⟨-, -, hout⟩ | ⟨hcold, h⟩ := answered_guard h
  · cases hout
    exact .of_unopened (blank_finish _ _) nofun
  rw [if_neg (by simp [hidle])] at h
  cases hfree : (List.finRange slotLimit).find? fun index => !(s.slots index).active with
  | none =>
    simp only [hfree] at h
    obtain ⟨-, h⟩ := answered_done.mp h
    cases h
    exact .of_unopened (blank_finish _ _) nofun
  | some i =>
    simp only [hfree] at h
    obtain ⟨status, rest, rfl, -, h⟩ := answered_call.mp h
    obtain ⟨-, -, hout⟩ | ⟨-, h⟩ := answered_guard h
    · cases hout
      exact .of_unopened (blank_finish _ _) nofun
    · obtain ⟨-, h⟩ := answered_done.mp h
      cases h
      exact .opened (by simpa using hcold) howner (by simpa using find?_some hfree)

theorem uploadWriteOwned_served {bytes : Bytes}
    (h : Prog.Answered FsCall.Admits (uploadWriteOwned s owner token bytes) log (a, s')) :
    Served s (.write owner token bytes) log a s' := by
  refine .of_slot rfl h fun i hslot h => ?_
  rw [if_neg (by simp [hidle])] at h
  refine .of_guard rfl hslot nofun h ⟨nofun, nofun⟩ nofun fun hstate h => ?_
  refine .of_guard rfl hslot nofun h ⟨nofun, nofun⟩ nofun fun _ h => ?_
  obtain ⟨w, first, rest, rfl, hwrite, h⟩ := answered_bind.mp h
  obtain ⟨-, h⟩ := answered_done.mp h
  cases h
  have hgrowing := Slot.growing_of_not hstate
  obtain ⟨n, hn, htotal, happends, haccepts⟩ := writeLoop_spec hwrite hgrowing.clean
  rw [zero_add] at htotal
  subst htotal
  exact .wrote hslot hgrowing hn happends haccepts

theorem uploadSealOwned_served {expectedBytes : ℕ} {expectedSha256 : Digest}
    (h : Prog.Answered FsCall.Admits
      (uploadSealOwned s owner token expectedBytes expectedSha256) log (a, s')) :
    Served s (.sealUpload owner token expectedBytes expectedSha256) log a s' := by
  refine .of_slot rfl h fun i hslot h => ?_
  rw [if_neg (by simp [hidle])] at h
  refine .of_guard rfl hslot (by simp) h (by decide) (by decide) fun hstate h => ?_
  have hgrowing := Slot.growing_of_not hstate
  by_cases hfinished : (s.slots i).sha256.finished
  · have hfinish : Sha256.finish (s.slots i).sha256 = .error .sequence := if_pos hfinished
    simp only [hfinish] at h
    obtain ⟨rfl, h⟩ := answered_done.mp h
    cases h
    exact .sealRefused hslot hgrowing (by decide) (by decide)
  have hfinish : Sha256.finish (s.slots i).sha256 =
      .ok (Sha256.output (Sha256.finalWords (s.slots i).sha256)) := if_neg hfinished
  simp only [hfinish] at h
  obtain ⟨-, rfl, hout⟩ | ⟨hlength, h⟩ := answered_guard h
  · cases hout
    exact .sealRefused hslot hgrowing (by decide) (by decide)
  obtain ⟨-, rfl, hout⟩ | ⟨hdigest, h⟩ := answered_guard h
  · cases hout
    exact .sealRefused hslot hgrowing (by decide) (by decide)
  obtain ⟨fsyncStatus, rest, rfl, -, h⟩ := answered_call.mp h
  obtain ⟨-, rfl, hout⟩ | ⟨-, h⟩ := answered_guard h
  · cases hout
    exact .sealRefused hslot hgrowing (by decide) (by decide)
  obtain ⟨syncStatus, rest, rfl, -, h⟩ := answered_call.mp h
  obtain ⟨-, rfl, hout⟩ | ⟨-, h⟩ := answered_guard h
  · cases hout
    exact .sealRefused hslot hgrowing (by decide) (by decide)
  obtain ⟨rfl, h⟩ := answered_done.mp h
  cases h
  rw [← not_not.mp hlength, ← not_not.mp hdigest]
  exact .sealedUp hslot hgrowing

theorem uploadReadOwned_served {offset capacity : ℕ}
    (h : Prog.Answered FsCall.Admits (uploadReadOwned s owner token offset capacity) log (a, s')) :
    Served s (.read owner token offset capacity) log a s' := by
  refine .of_slot rfl h fun i hslot h => ?_
  rw [if_neg (by simp [hidle])] at h
  refine .of_guard rfl hslot nofun h ⟨nofun, nofun⟩ nofun fun hstate h => ?_
  refine .of_guard rfl hslot nofun h ⟨nofun, nofun⟩ nofun fun _ h => ?_
  obtain ⟨r, rest, rfl, hr, h⟩ := answered_call.mp h
  obtain ⟨rfl, h⟩ := answered_done.mp h
  cases h
  refine .readBack hslot (not_not.mp hstate) fun hok => ?_
  obtain ⟨count, hcount, hbytes⟩ := hr hok
  refine ⟨count, ?_, hbytes⟩
  split_ifs at hcount <;> omega

theorem uploadCloseOwned_served
    (h : Prog.Answered FsCall.Admits (uploadCloseOwned s owner token) log (a, s')) :
    Served s (.close owner token) log a s' := by
  refine .of_slot rfl h fun i hslot h => ?_
  rw [if_neg (by simp [hidle])] at h
  obtain ⟨slot', hwork, hended⟩ := closeSlot_spec h
  exact .closing hslot hwork hended

theorem served_of_answered (h : Prog.Answered FsCall.Admits (serve s q) log (a, s')) :
    Served s q log a s' := by
  cases q with
  | initializeUploads => exact uploadInitializeOwned_served hidle h
  | openUpload owner => exact uploadOpenOwned_served hidle h
  | write owner token bytes => exact uploadWriteOwned_served hidle h
  | sealUpload owner token n d => exact uploadSealOwned_served hidle h
  | read owner token offset capacity => exact uploadReadOwned_served hidle h
  | inspect owner token => exact uploadInspectOwned_served h
  | close owner token => exact uploadCloseOwned_served hidle h

omit hidle

theorem Served.holds (h : Served s q log a s') (htarget : q.target = some (owner, token))
    (haccepts : a.status.Accepts) : ∃ i, s.Holds owner token i := by
  cases h with
  | turnedAway blank unopened unresolved =>
    exact absurd haccepts (not_accepts_of_resolveSlot (unresolved _ _ htarget).1)
  | ready cold blank => cases htarget
  | opened initialized owner_ne free => cases htarget
  | shown target slot accepts good no_close =>
    cases target.symm.trans htarget
    exact ⟨_, slot⟩
  | readBack slot | wrote slot | sealRefused slot | sealedUp slot | closing slot =>
    cases htarget
    exact ⟨_, slot⟩

theorem Served.closing_of_holds (h : Served s (.close owner token) log a s')
    (hholds : s.Holds owner token i) :
    ∃ slot', CloseWork (closingSlot (s.slots i)) log slot' ∧ Closed s i log slot' (a, s') := by
  cases h with
  | turnedAway blank unopened unresolved =>
    cases (unresolved _ _ rfl).1.symm.trans (resolveSlot_eq_ok.mpr hholds)
  | shown target slot accepts good no_close => exact absurd rfl (no_close owner token)
  | closing slot work ended =>
    obtain ⟨rfl, -⟩ := encodeToken_inj (slot.token_eq.symm.trans hholds.token_eq)
    exact ⟨_, work, ended⟩

end OpenRFS.PackageUpload
