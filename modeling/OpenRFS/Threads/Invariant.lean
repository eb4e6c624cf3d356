import OpenRFS.Threads.Table

/-!
# The invariant of the scheduler

While the scheduler is active exactly the current slot is running, the counts are those
of the table, and the target of every join that can go on is still in its slot. Every
step but one keeps this. `thread_stop` recounts nothing, so it keeps it only if it
releases every stack and the table, or nothing.
-/

namespace OpenRFS.Threads

open List Function State

variable {s : State} {slot : Fin capacity}

def State.stacks (s : State) : ℕ := otherSlots.countP fun slot => s.stateOf slot ≠ .unused

structure Recounted (s : State) : Prop where
  live : s.live = s.countState isLive
  ready : s.ready = s.countState (· = .ready)
  exited : s.exited = s.countState (· = .exited)

theorem recounted_recount (s : State) : Recounted (recount s) := ⟨rfl, rfl, rfl⟩

def RunningIsCurrent (s : State) : Prop := ∀ slot, s.stateOf slot = .running ↔ slot = s.currentSlot

structure Sched (s : State) : Prop where
  running : RunningIsCurrent s
  counts : Recounted s
  boot : ∀ slot, (s.threads slot).bootThread = true → slot = 0
  joins : ∀ slot identifier target yielding, s.activity slot = .joining identifier target yielding →
    isLive (s.stateOf slot) = true →
      (s.threads target).identifier = identifier ∧ s.stateOf target ≠ .unused
  frames : s.stackFrames = stackPages * s.stacks

structure Inv (s : State) : Prop where
  sched : s.active = true → Sched s
  stopped : s.active = false → ∀ slot, s.stateOf slot = .unused

theorem Sched.inv (h : Sched s) (hactive : s.active) : Inv s := by
  refine ⟨fun _ => h, fun hstopped => ?_⟩
  cases hactive.symm.trans hstopped

/-! ### Changes of states -/

/-- The threads of `s'` are those of `s`, in states that bring none to life. -/
structure Kin (s s' : State) : Prop where
  identifier : ∀ slot, (s'.threads slot).identifier = (s.threads slot).identifier
  bootThread : ∀ slot, (s'.threads slot).bootThread = (s.threads slot).bootThread
  activity : s'.activity = s.activity
  stackFrames : s'.stackFrames = s.stackFrames
  live : ∀ slot, isLive (s'.stateOf slot) = true → isLive (s.stateOf slot) = true
  unused : ∀ slot, s'.stateOf slot = .unused ↔ s.stateOf slot = .unused

theorem Kin.trans {s₁ s₂ s₃ : State} (h : Kin s₁ s₂) (h' : Kin s₂ s₃) : Kin s₁ s₃ where
  identifier slot := (h'.identifier slot).trans (h.identifier slot)
  bootThread slot := (h'.bootThread slot).trans (h.bootThread slot)
  activity := h'.activity.trans h.activity
  stackFrames := h'.stackFrames.trans h.stackFrames
  live slot hl := h.live slot (h'.live slot hl)
  unused slot := (h'.unused slot).trans (h.unused slot)

theorem Sched.of_kin {s s' : State} (h : Sched s) (hkin : Kin s s') (hrunning : RunningIsCurrent s')
    (hcounts : Recounted s') : Sched s' where
  running := hrunning
  counts := hcounts
  boot slot hb := h.boot slot (hkin.bootThread slot ▸ hb)
  joins slot identifier target yielding hactivity hlive := by
    rw [hkin.activity] at hactivity
    obtain ⟨hid, hused⟩ := h.joins slot identifier target yielding hactivity (hkin.live slot hlive)
    exact ⟨(hkin.identifier target).trans hid, fun hu => hused ((hkin.unused target).mp hu)⟩
  frames := by
    have hstacks : s'.stacks = s.stacks := by
      refine countP_congr fun slot _ => ?_
      simp [hkin.unused slot]
    rw [hkin.stackFrames, hstacks]
    exact h.frames

theorem stateOf_setState (s : State) (slot other : Fin capacity) (state : ThreadState) :
    (s.setState slot state).stateOf other = if other = slot then state else s.stateOf other := by
  unfold stateOf setState setThread
  by_cases h : other = slot
  · subst h
    simp
  · simp [h]

theorem stateOf_switchTo (s : State) (next slot : Fin capacity) :
    (switchTo s next).stateOf slot = if slot = next then .running else s.stateOf slot :=
  stateOf_setState s next slot .running

theorem kin_setState {state : ThreadState}
    (hlive : isLive state → isLive (s.stateOf slot)) (hused : state ≠ .unused)
    (hslot : s.stateOf slot ≠ .unused) : Kin s (s.setState slot state) := by
  have hthread (other : Fin capacity) : (s.setState slot state).threads other =
      { s.threads other with state := (s.setState slot state).stateOf other } := by
    unfold stateOf setState setThread
    by_cases h : other = slot
    · subst h
      simp
    · simp [h]
  refine ⟨fun other => by rw [hthread], fun other => by rw [hthread], rfl, rfl, ?_, ?_⟩
  · intro other
    rw [stateOf_setState]
    split_ifs with h
    · rw [h]
      exact hlive
    · exact id
  · intro other
    rw [stateOf_setState]
    split_ifs with h
    · rw [h]
      exact ⟨fun hu => absurd hu hused, fun hu => absurd hu hslot⟩
    · rfl

theorem kin_switchTo {next : Fin capacity} (hready : s.stateOf next = .ready) :
    Kin s (switchTo s next) := by
  have hkin : Kin s (s.setState next .running) :=
    kin_setState (fun _ => by rw [hready]; rfl) nofun (by rw [hready]; nofun)
  exact { hkin with }

theorem ready_of_nextReadySlot (h : nextReadySlot s slot ≠ slot) :
    s.stateOf (nextReadySlot s slot) = .ready := by
  exact of_decide_eq_true (Schedule.ready_nextReady h)

theorem switchToNext_cases (h : Sched s) :
    (switchToNext s = (none, s) ∧ nextReadySlot s s.currentSlot = s.currentSlot) ∨
      ∃ next, next = nextReadySlot s s.currentSlot ∧ next ≠ s.currentSlot ∧
        s.stateOf next = .ready ∧
        switchToNext s = (some next, switchTo (s.setState s.currentSlot .ready) next) := by
  unfold switchToNext
  by_cases hsame : nextReadySlot s s.currentSlot = s.currentSlot
  · exact .inl ⟨if_pos hsame, hsame⟩
  · refine .inr ⟨_, rfl, hsame, ready_of_nextReadySlot hsame, ?_⟩
    have hrunning : s.stateOf s.currentSlot = .running := (h.running _).mpr rfl
    simp only [if_neg hsame, if_pos hrunning]

theorem sched_switchTo (h : Sched s) {next : Fin capacity} (hne : next ≠ s.currentSlot)
    {state : ThreadState} (hstate : state = .ready ∨ state = .exited)
    (hready : s.stateOf next = .ready) :
    Sched (switchTo (s.setState s.currentSlot state) next) := by
  have hcurrent : s.stateOf s.currentSlot = .running := (h.running _).mpr rfl
  have hfirst : Kin s (s.setState s.currentSlot state) := by
    refine kin_setState (fun _ => by rw [hcurrent]; rfl) ?_ (by rw [hcurrent]; nofun)
    rcases hstate with rfl | rfl <;> nofun
  have hnext : (s.setState s.currentSlot state).stateOf next = .ready := by
    rw [stateOf_setState, if_neg hne]
    exact hready
  refine h.of_kin (hfirst.trans (kin_switchTo hnext)) ?_ (recounted_recount _)
  intro slot
  rw [stateOf_switchTo]
  by_cases hslot : slot = next
  · rw [hslot, if_pos rfl]
    exact ⟨fun _ => rfl, fun _ => rfl⟩
  · rw [if_neg hslot, stateOf_setState]
    refine ⟨fun hrun => ?_, fun heq => absurd heq hslot⟩
    split_ifs at hrun with hold
    · rcases hstate with rfl | rfl <;> cases hrun
    · exact absurd ((h.running slot).mp hrun) hold

theorem sched_switchToNext (h : Sched s) : Sched (switchToNext s).2 := by
  rcases switchToNext_cases h with ⟨heq, -⟩ | ⟨next, -, hne, hready, heq⟩
  · rw [heq]
    exact h
  · rw [heq]
    exact sched_switchTo h hne (.inl rfl) hready

/-! ### Calls -/

theorem Sched.setActivity (h : Sched s) {activity : Activity}
    (hjoin : ∀ identifier target yielding, activity = .joining identifier target yielding →
      (s.threads target).identifier = identifier ∧ s.stateOf target ≠ .unused) :
    Sched (s.setActivity slot activity) where
  running := h.running
  counts := ⟨h.counts.live, h.counts.ready, h.counts.exited⟩
  boot := h.boot
  joins other identifier target yielding hactivity hlive := by
    by_cases hother : other = slot
    · have hnew : activity = .joining identifier target yielding := by
        subst hother
        simpa [State.setActivity] using hactivity
      exact hjoin identifier target yielding hnew
    · have hold : s.activity other = .joining identifier target yielding := by
        simpa [State.setActivity, hother] using hactivity
      exact h.joins other identifier target yielding hold hlive
  frames := h.frames

theorem Sched.setFlags (h : Sched s) (pending preemptive : Bool) :
    Sched { s with reschedulePending := pending, preemptive := preemptive } :=
  ⟨h.running, ⟨h.counts.live, h.counts.ready, h.counts.exited⟩, h.boot, h.joins, h.frames⟩

theorem Inv.setFlags (h : Inv s) (pending preemptive : Bool) :
    Inv { s with reschedulePending := pending, preemptive := preemptive } :=
  ⟨fun ha => (h.sched ha).setFlags pending preemptive, h.stopped⟩

theorem find_spec {identifier : ℕ} {target : Fin capacity} (h : find s identifier = some target) :
    (s.threads target).identifier = identifier ∧ s.stateOf target ≠ .unused := by
  unfold find at h
  split_ifs at h
  have hfound := find?_some h
  simp only [decide_eq_true_eq] at hfound
  exact ⟨hfound.2, hfound.1⟩

theorem joinTarget_spec {identifier : ℕ} {target : Fin capacity}
    (h : joinTarget s identifier = .ok target) :
    (s.threads target).identifier = identifier ∧ s.stateOf target ≠ .unused := by
  unfold joinTarget at h
  split_ifs at h
  cases hfind : find s identifier with
  | none =>
    rw [hfind] at h
    cases h
  | some found =>
    simp only [hfind] at h
    split_ifs at h
    cases h
    exact find_spec hfind

theorem otherSlots_nodup : otherSlots.Nodup := by decide

theorem mem_otherSlots : slot ∈ otherSlots ↔ slot ≠ 0 := by
  revert slot
  decide

theorem countP_succ {l : List (Fin capacity)} (hnodup : l.Nodup) {p q : Fin capacity → Bool}
    (hslot : slot ∈ l) (hp : p slot = false) (hq : q slot)
    (hsame : ∀ other, other ≠ slot → q other = p other) : l.countP q = l.countP p + 1 := by
  induction l with
  | nil => cases hslot
  | cons first rest ih =>
    obtain ⟨hfirst, hrest⟩ := nodup_cons.mp hnodup
    rcases mem_cons.mp hslot with rfl | hmem
    · have heq : rest.countP q = rest.countP p := by
        refine countP_congr fun other hother => ?_
        rw [hsame other fun h => hfirst (h ▸ hother)]
      rw [countP_cons_of_pos hq, countP_cons_of_neg (by simp [hp]), heq]
    · have hne : first ≠ slot := fun h => hfirst (h ▸ hmem)
      rw [countP_cons, countP_cons, ih hrest hmem, hsame first hne]
      omega

def created (s : State) (chosen : Fin capacity) : State :=
  recount
    { s with
      threads := Function.update s.threads chosen ⟨s.nextIdentifier, .ready, false⟩
      activity := Function.update s.activity chosen .free
      nextIdentifier := (s.nextIdentifier + 1) % 2 ^ 64
      stackFrames := s.stackFrames + stackPages }

theorem sched_created (h : Sched s) {chosen : Fin capacity} (hchosen : chosen ∈ otherSlots)
    (hunused : s.stateOf chosen = .unused) : Sched (created s chosen) := by
  have hnew (slot : Fin capacity) :
      (created s chosen).stateOf slot = if slot = chosen then .ready else s.stateOf slot := by
    by_cases hslot : slot = chosen <;> simp [created, recount, stateOf, hslot]
  refine ⟨fun slot => ?_, recounted_recount _, fun slot hboot => ?_, ?_, ?_⟩
  · rw [hnew]
    split_ifs with hslot
    · refine ⟨nofun, fun hcurrent => ?_⟩
      have hrun : s.stateOf chosen = .running := (h.running _).mpr (hslot ▸ hcurrent)
      cases hunused.symm.trans hrun
    · exact h.running slot
  · by_cases hslot : slot = chosen
    · simp [created, recount, hslot] at hboot
    · have hold : (s.threads slot).bootThread := by simpa [created, recount, hslot] using hboot
      exact h.boot slot hold
  · intro slot identifier target yielding hactivity hlive
    rw [hnew] at hlive ⊢
    by_cases hslot : slot = chosen
    · simp [created, recount, hslot] at hactivity
    · have hold : s.activity slot = .joining identifier target yielding := by
        simpa [created, recount, hslot] using hactivity
      rw [if_neg hslot] at hlive
      obtain ⟨hid, hused⟩ := h.joins slot identifier target yielding hold hlive
      have htarget : target ≠ chosen := fun heq => hused (heq ▸ hunused)
      rw [if_neg htarget]
      refine ⟨?_, hused⟩
      simpa [created, recount, htarget] using hid
  · have hstacks : (created s chosen).stacks = s.stacks + 1 := by
      refine countP_succ otherSlots_nodup hchosen (by simp [hunused]) (by simp [hnew]) ?_
      intro other hother
      rw [hnew, if_neg hother]
    rw [hstacks, mul_add_one, ← h.frames]
    rfl

/-- `thread_create` is refused, or puts a thread in an unused slot. -/
theorem threadCreate_cases (s : State) (interrupts : Bool) (mapped : Status) :
    (threadCreate s interrupts mapped).2 = s ∨ s.active ∧ ∃ chosen ∈ otherSlots,
      s.stateOf chosen = .unused ∧ (threadCreate s interrupts mapped).2 = created s chosen := by
  unfold threadCreate
  by_cases hactive : s.active = false
  · exact .inl (by rw [if_pos hactive])
  rw [if_neg hactive]
  by_cases hinterrupts : interrupts
  · exact .inl (by rw [if_pos hinterrupts])
  rw [if_neg hinterrupts]
  cases hfind : otherSlots.find? fun slot => s.stateOf slot = .unused with
  | none => exact .inl rfl
  | some chosen =>
    have hunused := find?_some hfind
    simp only [decide_eq_true_eq] at hunused
    split_ifs
    · exact .inl rfl
    · exact .inr ⟨by simpa using hactive, chosen, mem_of_find?_eq_some hfind, hunused, rfl⟩

end OpenRFS.Threads
