import OpenRFS.PackageUpload.Tokens

/-!
# The lifetime of a token over whole runs

From the first close of a token on its slot is spent: it is poisoned and shows neither
a seal nor durability, and the steps of the cleanup that were done are not done again.
`token_lifetime` collects what holds of every run with fewer than `2 ^ 32 - 1` reuses
of a slot.
-/

namespace OpenRFS.PackageUpload

open Crash List State
open Volume (FsStatus)

variable {events : List Event} {s s' : State} {e : Event}

/-! ### Parts of runs -/

variable {s₀ : State} {owner : ℕ} {before after : List Event}

theorem run_nil {s : State} (h : Run s₀ [] s) : s = s₀ := by
  generalize hall : ([] : List Event) = all at h
  cases h with
  | start => rfl
  | step hrun hstep => simp at hall

theorem run_concat {events : List Event} {e : Event} {s : State} :
    Run s₀ (events ++ [e]) s ↔ ∃ s', Run s₀ events s' ∧ Step s' e s := by
  constructor
  · intro h
    generalize hall : events ++ [e] = all at h
    cases h with
    | start => simp at hall
    | step hrun hstep =>
      obtain ⟨rfl, heq⟩ := append_inj' hall rfl
      cases heq
      exact ⟨_, hrun, hstep⟩
  · rintro ⟨s', hrun, hstep⟩
    exact .step hrun hstep

theorem run_append {s : State} :
    Run s₀ (before ++ after) s ↔ ∃ s', Run s₀ before s' ∧ Run s' after s := by
  induction after using List.reverseRecOn generalizing s with
  | nil =>
    rw [append_nil]
    constructor
    · exact fun h => ⟨s, h, .start⟩
    · rintro ⟨s', hrun, hrest⟩
      exact run_nil hrest ▸ hrun
  | append_singleton after e ih =>
    rw [← append_assoc, run_concat]
    constructor
    · rintro ⟨s₁, hrun, hstep⟩
      obtain ⟨s₂, hbefore, hafter⟩ := ih.mp hrun
      exact ⟨s₂, hbefore, .step hafter hstep⟩
    · rintro ⟨s₂, hbefore, hafter⟩
      obtain ⟨s₁, hafter, hstep⟩ := run_concat.mp hafter
      exact ⟨s₁, ih.mpr ⟨s₂, hbefore, hafter⟩, hstep⟩

theorem run_split (h : Run s₀ (before ++ e :: after) s) :
    ∃ s₁ s₂, Run s₀ before s₁ ∧ Step s₁ e s₂ ∧ Run s₂ after s := by
  obtain ⟨s₁, hbefore, hrest⟩ := run_append.mp h
  obtain ⟨s₂, hfirst, hafter⟩ := run_append.mp (show Run s₁ ([e] ++ after) s from hrest)
  obtain ⟨s₃, hnone, hstep⟩ := run_concat.mp (show Run s₁ ([] ++ [e]) s₂ from hfirst)
  exact ⟨s₁, s₂, hbefore, run_nil hnone ▸ hstep, hafter⟩

theorem Run.counted {atomicReplace : Bool} (hrun : Run (.cold atomicReplace) events s)
    (hlimit : ∀ i, opens i events ≤ 2 ^ 32 - 1) : Counted events s := by
  induction hrun with
  | start => exact .start atomicReplace
  | @step events e s' s'' hrun hstep ih =>
    have hcounted := ih fun i => (opens_le_append i events [e]).trans (hlimit i)
    exact hcounted.step (hstep.move hcounted.idle) hlimit

theorem Run.tenure {atomicReplace : Bool} (hrun : Run (.cold atomicReplace) events s)
    (hlimit : ∀ i, opens i events ≤ 2 ^ 32 - 1) : Tenure events s := by
  induction hrun with
  | start =>
    intro token owner
    refine ⟨nofun, ?_⟩
    rintro ⟨i, hholds⟩
    cases hholds.active
  | @step events e s' s'' hrun hstep ih =>
    have hbefore := fun i => (opens_le_append i events [e]).trans (hlimit i)
    have hcounted := (hrun.step hstep).counted hlimit
    exact (ih hbefore).step hcounted (hstep.move (hrun.counted hbefore).idle)

/-! ### Cleanup bound to the inode -/

/-- The name of an open upload is looked after through its handle. -/
structure InodeBound (s : State) : Prop where
  volume : s.atomicReplace = true
  cleanup : ∀ i, (s.slots i).active = true → (s.slots i).inodeBoundCleanup = true
  held : ∀ i, (s.slots i).active = true → (s.slots i).filePresent = true →
    (s.slots i).fileOpen = true

theorem InodeBound.put (h : InodeBound s) {i : Fin slotLimit} {slot : Slot}
    (hslot : slot.active → slot.inodeBoundCleanup ∧
      (slot.filePresent → slot.fileOpen)) : InodeBound (s.put i slot) := by
  refine ⟨h.volume, fun j hactive => ?_, fun j hactive => ?_⟩
  all_goals
    by_cases hj : j = i
    · subst hj
      rw [put_self] at hactive ⊢
      first
        | exact (hslot hactive).1
        | exact (hslot hactive).2
    · rw [put_of_ne _ _ hj] at hactive ⊢
      first
        | exact h.cleanup j hactive
        | exact h.held j hactive

theorem InodeBound.step (h : InodeBound s) (hmove : Move s e s') : InodeBound s' := by
  cases hmove with
  | stay hnone hkept => exact h
  | ready hcold hrequest => exact ⟨h.volume, fun i => nofun, fun i => nofun⟩
  | opened hinit howner hfree hrequest hstatus htoken =>
    exact h.put fun _ => ⟨h.volume, fun _ => rfl⟩
  | changed htarget hslot hkept hgeneration hactive howned hcleanup hbound hspent =>
    have hinode := h.cleanup _ hslot.active
    exact h.put fun _ => ⟨hcleanup.trans hinode, hbound hinode (h.held _ hslot.active)⟩
  | released hrequest hslot hconsumed hgeneration => exact h.put nofun

theorem Run.inodeBound (hrun : Run (.cold true) events s) : InodeBound s := by
  induction hrun with
  | start => exact ⟨rfl, fun i => nofun, fun i => nofun⟩
  | step hrun hstep ih => exact ih.step (hstep.move (hrun.servicing rfl))

/-! ### Spent slots -/

/-- The slot of a token that a close was begun for. `R` is what the close has taken
back. -/
structure Spent (R : Slot → Prop) (i : Fin slotLimit) (g : ℕ) (events : List Event) (s : State) :
    Prop where
  issued : g ≤ opens i events
  poisoned : (s.slots i).active = true → (s.slots i).generation = g → (s.slots i).poisoned = true
  unsealed : (s.slots i).active = true → (s.slots i).generation = g → (s.slots i).isSealed = false
  volatile : (s.slots i).active = true → (s.slots i).generation = g → (s.slots i).durable = false
  taken : (s.slots i).active = true → (s.slots i).generation = g → R (s.slots i)

def Lasting (R : Slot → Prop) : Prop :=
  ∀ slot log slot', CloseSteps (closingSlot slot) log slot' → R slot → R slot'

variable {R : Slot → Prop} {i : Fin slotLimit} {g : ℕ}

theorem spent_iff : Spent R i g events s ↔ g ≤ opens i events ∧ ((s.slots i).active →
    (s.slots i).generation = g → (s.slots i).poisoned ∧ (s.slots i).isSealed = false ∧
      (s.slots i).durable = false ∧ R (s.slots i)) := by
  constructor
  · exact fun ⟨h, hp, hs, hd, hR⟩ => ⟨h, fun ha hg => ⟨hp ha hg, hs ha hg, hd ha hg, hR ha hg⟩⟩
  · rintro ⟨h, hslot⟩
    exact ⟨h, fun ha hg => (hslot ha hg).1, fun ha hg => (hslot ha hg).2.1,
      fun ha hg => (hslot ha hg).2.2.1, fun ha hg => (hslot ha hg).2.2.2⟩

theorem CloseSteps.marks {slot slot' : Slot} {log : FsLog}
    (h : CloseSteps (closingSlot slot) log slot') :
    slot'.poisoned ∧ slot'.isSealed = false ∧ slot'.durable = false := by
  rw [h.frame]
  exact ⟨rfl, rfl, rfl⟩

theorem Spent.step (h : Spent R i g events s) (hR : Lasting R)
    (hcounted : Counted (events ++ [e]) s') (hmove : Move s e s') : Spent R i g (events ++ [e]) s' := by
  obtain ⟨hissued, hkept⟩ := spent_iff.mp h
  refine spent_iff.mpr ⟨hissued.trans (opens_le_append i events [e]), ?_⟩
  cases hmove with
  | stay => exact hkept
  | ready hcold hrequest =>
    intro hactive
    cases hactive
  | @opened owner j hinit howner hfree hrequest hstatus htoken =>
    by_cases hj : i = j
    · -- a later upload in the slot has a later generation
      subst hj
      intro hactive hg
      have hlater := (hcounted.active i hactive).1
      have hone : e.issued = some (encodeToken i (s.slots i).generation) := by
        simp [Event.issued, hrequest, hstatus, htoken]
      have hopens := opens_of_issued hone i events
      rw [if_pos rfl] at hopens
      omega
    · rw [put_of_ne _ _ hj]
      exact hkept
  | @changed owner token j slot' htarget hslot hsame hgeneration hactive howned hcleanup hbound
      hspent =>
      by_cases hj : i = j
      · subst hj
        rw [put_self]
        intro _ hg
        have hg : (s.slots i).generation = g := hgeneration.symm.trans hg
        have hsteps := hspent (h.poisoned hslot.active hg)
        obtain ⟨hp, hs, hd⟩ := hsteps.marks
        exact ⟨hp, hs, hd, hR _ _ _ hsteps (h.taken hslot.active hg)⟩
      · rw [put_of_ne _ _ hj]
        exact hkept
  | @released owner token j slot' hrequest hslot hconsumed hgeneration =>
    by_cases hj : i = j
    · subst hj
      rw [put_self]
      intro hactive
      cases hactive
    · rw [put_of_ne _ _ hj]
      exact hkept

theorem Spent.run {atomicReplace : Bool} {later : List Event} (hR : Lasting R)
    (hbefore : Run (.cold atomicReplace) events s) (hlater : Run s later s')
    (hlimit : ∀ i, opens i (events ++ later) ≤ 2 ^ 32 - 1) (h : Spent R i g events s) :
    Spent R i g (events ++ later) s' := by
  induction hlater with
  | start => simpa using h
  | @step later e t t' hrun hstep ih =>
    rw [← append_assoc] at hlimit ⊢
    have hprefix := fun i => (opens_le_append i (events ++ later) [e]).trans (hlimit i)
    have hall : Run (.cold atomicReplace) (events ++ later) t := run_append.mpr ⟨s, hbefore, hrun⟩
    exact (ih hprefix).step hR ((hall.step hstep).counted hlimit)
      (hstep.move (hall.servicing rfl))

theorem Spent.of_close {token : ℕ} (hcounted : Counted events s) (hstep : Step s e s')
    (hrequest : e.request = .close owner token) (hbegun : e.Accepted ∨ e.log ≠ [])
    (hR : ∀ slot slot', CloseSteps (closingSlot slot) e.log slot' → R slot') :
    ∃ i g, token = encodeToken i g ∧ Spent R i g (events ++ [e]) s' := by
  cases hstep with
  | contended request =>
    rcases hbegun with haccepted | hlog
    · cases haccepted.1
    · exact absurd rfl hlog
  | @served _ q log a hanswered =>
    subst hrequest
    cases served_of_answered hcounted.idle hanswered with
    | turnedAway blank unopened unresolved =>
      obtain ⟨herror, hnil⟩ := unresolved _ _ rfl
      rcases hbegun with haccepted | hlog
      · exact absurd haccepted.2 (not_accepts_of_resolveSlot herror)
      · exact absurd hnil hlog
    | shown target slot accepts good no_close => exact absurd rfl (no_close owner token)
    | @closing _ _ i _ _ _ slot' slot work ended =>
      refine ⟨i, (s.slots i).generation, slot.token_eq, ?_⟩
      refine spent_iff.mpr
        ⟨(hcounted.active i slot.active).1.le.trans (opens_le_append i events _), ?_⟩
      obtain ⟨hp, hs, hd⟩ := work.steps.marks
      cases ended with
      | kept hstatus hfailed =>
        rw [put_self]
        exact fun _ _ => ⟨hp, hs, hd, hR _ _ work.steps⟩
      | released hstatus =>
        rw [put_self]
        exact nofun

variable (h : Spent R i g events s)
include h

theorem Spent.report (hidle : s.servicing = false) (hstep : Step s e s')
    (htoken : e.answer.report.token = encodeToken i g) :
    e.answer.report.isSealed = false ∧ e.answer.report.durable = false := by
  cases hstep with
  | contended request => exact ⟨rfl, rfl⟩
  | @served _ q log a hanswered =>
    cases served_of_answered hidle hanswered with
    | turnedAway blank unopened unresolved | ready cold blank =>
      exact ⟨blank.unsealed, blank.volatile⟩
    | opened initialized owner_ne free => exact ⟨rfl, rfl⟩
    | shown target slot accepts good no_close | readBack slot readable bytes =>
      obtain ⟨rfl, hg⟩ := encodeToken_inj htoken
      exact ⟨h.unsealed slot.active hg, h.volatile slot.active hg⟩
    | wrote slot growing total_le appends accepts =>
      obtain ⟨rfl, hg⟩ := encodeToken_inj htoken
      rw [appends.frame] at hg
      cases (h.poisoned slot.active hg).symm.trans growing.clean
    | sealRefused slot growing accepts status_ne | sealedUp slot growing =>
      obtain ⟨rfl, hg⟩ := encodeToken_inj htoken
      cases (h.poisoned slot.active hg).symm.trans growing.clean
    | closing slot work ended =>
      cases ended with
      | kept hstatus hfailed => exact work.steps.marks.2
      | released hstatus => exact ⟨rfl, rfl⟩

theorem Spent.read (hidle : s.servicing = false) (hstep : Step s e s')
    {offset capacity : ℕ} (hrequest : e.request = .read owner (encodeToken i g) offset capacity) :
    e.answer.status ≠ .ok ∧ e.answer.bytes = [] := by
  cases hstep with
  | contended request => exact ⟨nofun, rfl⟩
  | @served _ q log a hanswered =>
    subst hrequest
    cases served_of_answered hidle hanswered with
    | turnedAway blank unopened unresolved =>
      refine ⟨fun hok => ?_, blank.bytes⟩
      exact not_accepts_of_resolveSlot (unresolved _ _ rfl).1 (.of_ok hok)
    | shown target slot accepts good no_close =>
      refine ⟨fun hok => ?_, rfl⟩
      cases (good hok).2
    | readBack slot readable bytes =>
      obtain ⟨rfl, hg⟩ := encodeToken_inj slot.token_eq
      cases (h.poisoned slot.active hg.symm).symm.trans readable.2.2.1

/-- A close of a spent token makes no call, or works on a slot with `R`. -/
theorem Spent.close (hidle : s.servicing = false) (hstep : Step s e s')
    (hrequest : e.request = .close owner (encodeToken i g)) :
    e.log = [] ∨ ∃ slot slot', R slot ∧ CloseSteps (closingSlot slot) e.log slot' := by
  cases hstep with
  | contended request => exact .inl rfl
  | @served _ q log a hanswered =>
    subst hrequest
    cases served_of_answered hidle hanswered with
    | turnedAway blank unopened unresolved => exact .inl (unresolved _ _ rfl).2
    | shown target slot accepts good no_close => exact .inl rfl
    | closing slot work ended =>
      obtain ⟨rfl, hg⟩ := encodeToken_inj slot.token_eq
      exact .inr ⟨_, _, h.taken slot.active hg.symm, work.steps⟩

omit h

/-! ### The life of a token -/

/-- A token is accepted only for the owner that opened it, from the open on until a
close of it is consumed. -/
def AcceptedWhileHeld (events : List Event) : Prop :=
  ∀ before e after owner token, events = before ++ e :: after →
    e.request.target = some (owner, token) → e.Accepted → holder token before = some owner

/-- After a close of a token was accepted, no answer shows it sealed or durable and no
read returns its bytes. -/
def QuietAfterClose (events : List Event) : Prop :=
  ∀ before e between e' after owner token, events = before ++ e :: (between ++ e' :: after) →
    e.request = .close owner token → e.Accepted → (e'.answer.report.token = token →
        e'.answer.report.isSealed = false ∧ e'.answer.report.durable = false) ∧
      ∀ owner' offset capacity, e'.request = .read owner' token offset capacity →
        e'.answer.status ≠ .ok ∧ e'.answer.bytes = []

/-- No close truncates or unlinks a file by its name. -/
def NothingByName (events : List Event) : Prop :=
  ∀ e ∈ events, ∀ owner token, e.request = .close owner token → ∀ x ∈ e.log, ¬x.1.ByName

/-- As long as a token is held its owner can close it. A close that is not consumed
leaves it held, and one in which every filesystem call succeeds and none finds a
directory is consumed. -/
def Retryable (events : List Event) : Prop :=
  ∀ before e after owner token, events = before ++ e :: after →
    e.request = .close owner token → e.contended = false → holder token before = some owner →
      e.Accepted ∧ (e.answer.consumed = false → holder token (before ++ [e]) = some owner) ∧
        (Clean e.log → e.answer.consumed = true)

/-- A held file is unlinked at most once for a token, and its handle consumed at most
once. -/
def NothingRepeated (events : List Event) : Prop :=
  ∀ before e between e' after owner owner' token, events = before ++ e :: (between ++ e' :: after) →
    e.request = .close owner token → e'.request = .close owner' token →
      (∀ x : Entry, x ∈ e.log → x.UnlinkedHeld → ∀ y ∈ e'.log, ¬y.1.UnlinksHeld) ∧
      ∀ x : Entry, x ∈ e.log → x.ClosedFile → ∀ y ∈ e'.log, ¬y.1.ClosesFile

section Lifetime

variable {atomicReplace : Bool} (hrun : Run (.cold atomicReplace) events s)
  (hlimit : ∀ i, opens i events ≤ 2 ^ 32 - 1)
include hrun hlimit

theorem acceptedWhileHeld_of_run : AcceptedWhileHeld events := by
  rintro before e after owner token rfl htarget haccepted
  obtain ⟨s₁, s₂, hbefore, hstep, -⟩ := run_split hrun
  have hprefix := fun i => (opens_le_append i before (e :: after)).trans (hlimit i)
  refine (hbefore.tenure hprefix token owner).mpr ?_
  cases hstep with
  | contended request => cases haccepted.1
  | @served _ q log a hanswered =>
    exact (served_of_answered (hbefore.servicing rfl) hanswered).holds htarget haccepted.2

theorem spent_later {between : List Event} {e e' : Event} {token : ℕ}
    (hsplit : events = before ++ e :: (between ++ e' :: after)) (hR : Lasting R)
    (hrequest : e.request = .close owner token) (hbegun : e.Accepted ∨ e.log ≠ [])
    (hclose : ∀ slot slot', CloseSteps (closingSlot slot) e.log slot' → R slot') :
    ∃ i g t t', token = encodeToken i g ∧ Spent R i g (before ++ [e] ++ between) t ∧
      t.servicing = false ∧ Step t e' t' := by
  subst hsplit
  obtain ⟨s₁, s₂, hbefore, hstep, hrest⟩ := run_split hrun
  obtain ⟨t, t', hbetween, hstep', -⟩ := run_split hrest
  have hprefix := fun i =>
    (opens_le_append i before (e :: (between ++ e' :: after))).trans (hlimit i)
  obtain ⟨i, g, htoken, hspent⟩ :=
    Spent.of_close (hbefore.counted hprefix) hstep hrequest hbegun hclose
  have hlonger : ∀ i, opens i (before ++ [e] ++ between) ≤ 2 ^ 32 - 1 := by
    intro i
    refine (opens_le_append i _ (e' :: after)).trans ?_
    simpa using hlimit i
  have hrun' : Run (.cold atomicReplace) (before ++ [e] ++ between) t :=
    run_append.mpr ⟨s₂, hbefore.step hstep, hbetween⟩
  exact ⟨i, g, t, t', htoken, hspent.run hR (hbefore.step hstep) hbetween hlonger,
    hrun'.servicing rfl, hstep'⟩

theorem quietAfterClose_of_run : QuietAfterClose events := by
  intro before e between e' after owner token hsplit hrequest haccepted
  have hR : Lasting fun _ => True := fun _ _ _ _ _ => trivial
  obtain ⟨i, g, t, t', rfl, hspent, hidle, hstep⟩ :=
    spent_later hrun hlimit hsplit hR hrequest (.inl haccepted) fun _ _ _ => trivial
  exact ⟨hspent.report hidle hstep, fun _ _ _ hread => hspent.read hidle hstep hread⟩

theorem retryable_of_run : Retryable events := by
  rintro before e after owner token rfl hrequest hfree hheld
  obtain ⟨s₁, s₂, hbefore, hstep, -⟩ := run_split hrun
  have hprefix := fun i => (opens_le_append i before (e :: after)).trans (hlimit i)
  obtain ⟨i, hholds⟩ := (hbefore.tenure hprefix token owner).mp hheld
  cases hstep with
  | contended request => cases hfree
  | @served _ q log a hanswered =>
    subst hrequest
    obtain ⟨slot', hwork, hended⟩ :=
      (served_of_answered (hbefore.servicing rfl) hanswered).closing_of_holds hholds
    cases hended with
    | kept hstatus hfailed =>
      refine ⟨⟨rfl, ?_⟩, fun _ => ?_, fun hclean => absurd hclean hfailed⟩
      · rcases hstatus with rfl | rfl <;> simp [Status.Accepts, finishSlot]
      · rw [holder_concat, heldNext_eq_self (by simp [Event.issued]) fun _ _ _ _ => rfl]
        exact hheld
    | released hstatus =>
      refine ⟨⟨rfl, ?_⟩, by simp, fun _ => rfl⟩
      rcases hstatus with rfl | rfl <;> simp [Status.Accepts, finish]

theorem nothingRepeated_of_run : NothingRepeated events := by
  intro before e between e' after owner owner' token hsplit hrequest hrequest'
  constructor
  · intro x hx hunlinked
    have hR : Lasting fun slot => slot.filePresent = false := fun _ _ _ hsteps => hsteps.absent
    obtain ⟨i, g, t, t', rfl, hspent, hidle, hstep⟩ :=
      spent_later hrun hlimit hsplit hR hrequest (.inr (ne_nil_of_mem hx))
        fun _ _ hsteps => hsteps.unlinked x hx hunlinked
    rcases hspent.close hidle hstep hrequest' with hnil | ⟨slot, slot', hgone, hsteps⟩
    · simp [hnil]
    · exact hsteps.no_unlink hgone
  · intro x hx hclosed
    have hR : Lasting fun slot => slot.fileOpen = false := fun _ _ _ hsteps => hsteps.shut
    obtain ⟨i, g, t, t', rfl, hspent, hidle, hstep⟩ :=
      spent_later hrun hlimit hsplit hR hrequest (.inr (ne_nil_of_mem hx))
        fun _ _ hsteps => hsteps.closed x hx hclosed
    rcases hspent.close hidle hstep hrequest' with hnil | ⟨slot, slot', hshut, hsteps⟩
    · simp [hnil]
    · exact hsteps.no_close hshut

end Lifetime

theorem nothingByName_of_run (hrun : Run (.cold true) events s) : NothingByName events := by
  intro e he owner token hrequest
  obtain ⟨before, after, rfl⟩ := append_of_mem he
  obtain ⟨s₁, s₂, hbefore, hstep, -⟩ := run_split hrun
  cases hstep with
  | contended request => simp
  | @served _ q log a hanswered =>
    subst hrequest
    cases served_of_answered (hbefore.servicing rfl) hanswered with
    | turnedAway blank unopened unresolved => simp [(unresolved _ _ rfl).2]
    | shown target slot accepts good no_close => simp
    | closing slot work ended =>
      have hbound := hbefore.inodeBound
      exact (work.bound (hbound.cleanup _ slot.active) (hbound.held _ slot.active)).1

/-- As long as no slot is reused so often that its generation wraps around: no token is issued
twice, a token is accepted only while its upload is held, nothing shows it any more once a close
of it was accepted, no close goes by a name where the volume can do without, a close that was not
consumed can be retried, and nothing is unlinked or closed twice. -/
theorem token_lifetime {atomicReplace : Bool} (hrun : Run (.cold atomicReplace) events s)
    (hreuse : ∀ i, reuses i events < 2 ^ 32 - 1) :
    (issuedTokens events).Nodup ∧ AcceptedWhileHeld events ∧ QuietAfterClose events ∧
      (atomicReplace = true → NothingByName events) ∧ Retryable events ∧ NothingRepeated events := by
  have hlimit (i : Fin slotLimit) : opens i events ≤ 2 ^ 32 - 1 := by
    have h := hreuse i
    unfold reuses at h
    omega
  refine ⟨(hrun.counted hlimit).nodup, acceptedWhileHeld_of_run hrun hlimit,
    quietAfterClose_of_run hrun hlimit, ?_, retryable_of_run hrun hlimit,
    nothingRepeated_of_run hrun hlimit⟩
  rintro rfl
  exact nothingByName_of_run hrun

def closedRun : List Event × State :=
  serveAll sampleVolume (sampleRequests ++ [.close 7 sampleToken]) (.cold true)

theorem token_lifetime_closedRun :
    (issuedTokens closedRun.1).Nodup ∧ AcceptedWhileHeld closedRun.1 ∧ QuietAfterClose closedRun.1 ∧
      (true = true → NothingByName closedRun.1) ∧ Retryable closedRun.1 ∧
        NothingRepeated closedRun.1 :=
  token_lifetime (run_serveAll admits_sampleVolume _ _) (by decide +kernel)

def directoryVolume : (c : FsCall) → c.Reply
  | .statPath _ => ⟨.ok, 0, true⟩
  | c => sampleVolume c

theorem admits_directoryVolume (c : FsCall) : c.Admits (directoryVolume c) := by
  cases c with
  | write held bytes => exact admits_sampleVolume (.write held bytes)
  | pread held capacity offset => exact admits_sampleVolume (.pread held capacity offset)
  | _ => trivial

theorem succeeded_directoryVolume (c : FsCall) : Entry.Succeeded ⟨c, directoryVolume c⟩ := by
  cases c with
  | closeReport => exact ⟨rfl, rfl⟩
  | _ => rfl

/-- An upload whose first close finds a directory at its path, on a volume without
inode-bound cleanup. -/
def directoryRun : List Event × State :=
  let opened := serveAll sampleVolume [.initializeUploads, .openUpload 7] (.cold false)
  let closed := serveAll directoryVolume [.close 7 sampleToken] opened.2
  (opened.1 ++ closed.1, closed.2)

def directoryRetry : FsLog × (Answer × State) :=
  (serve directoryRun.2 (.close 7 sampleToken)).answerWith directoryVolume

/-- The file was replaced by a directory: every filesystem call of the second close
succeeds, and it is not consumed. -/
theorem close_kept_by_directory :
    Run (.cold false) directoryRun.1 directoryRun.2 ∧
      Step directoryRun.2 ⟨.close 7 sampleToken, false, directoryRetry.1, directoryRetry.2.1⟩
        directoryRetry.2.2 ∧
      holder sampleToken directoryRun.1 = some 7 ∧
      (∀ x : Entry, x ∈ directoryRetry.1 → x.Succeeded) ∧
      directoryRetry.2.1.consumed = false := by
  refine ⟨?_, ?_, by decide +kernel, ?_, by decide +kernel⟩
  · exact run_append.mpr ⟨_, run_serveAll admits_sampleVolume _ _, run_serveAll admits_directoryVolume _ _⟩
  · exact .served (Prog.answered_answerWith admits_directoryVolume _)
  · intro x hx
    rw [Prog.eq_of_mem_answerWith hx]
    exact succeeded_directoryVolume x.1

end OpenRFS.PackageUpload
