import OpenRFS.Threads.Invariant

/-!
# Steps of the scheduler

Every step keeps the invariant, a stop under the condition that it releases everything
once it has begun to. What a switch resumes was ready.
-/

namespace OpenRFS.Threads

open List

variable {s s' : State}

variable {o : Outcome} {next : Fin capacity} {unmapped : Fin capacity → Fin (stackPages + 1)}

/-! ### Stopping -/

structure Teardown (s : State) (interrupts : Bool) : Prop where
  active : s.active = true
  masked : interrupts = false
  boot : (s.threads s.currentSlot).bootThread = true
  quiet : ∀ slot, slot ≠ 0 → isLive (s.stateOf slot) = false

/-- A stop that passes its checks can release every stack of an exited thread and, if
there is one, free the table. -/
def StopCompletes (s : State) (interrupts : Bool) (unmapped : Fin capacity → Fin (stackPages + 1))
    (freed : Bool) : Prop :=
  Teardown s interrupts → (∀ slot, s.stateOf slot = .exited → unmapped slot = Fin.last stackPages) ∧
      ((∃ slot, s.stateOf slot = .exited) → freed = true)

def exitedIn (l : List (Fin capacity)) (s : State) : ℕ := l.countP fun slot => s.stateOf slot = .exited

theorem releaseExited_all {l : List (Fin capacity)} (hnodup : l.Nodup)
    (hall : ∀ slot ∈ l, s.stateOf slot = .exited → unmapped slot = Fin.last stackPages)
    (hframes : stackPages * exitedIn l s ≤ s.stackFrames) (hsmall : s.stackFrames < 2 ^ 64) :
    (releaseExited unmapped l s).1 = .ok ∧
      (releaseExited unmapped l s).2.stackFrames = s.stackFrames - stackPages * exitedIn l s ∧
      ((∀ slot ∈ l, s.stateOf slot ≠ .exited) → (releaseExited unmapped l s).2 = s) := by
  induction l generalizing s with
  | nil => exact ⟨rfl, rfl, fun _ => rfl⟩
  | cons slot rest ih =>
    obtain ⟨hfirst, hrest⟩ := nodup_cons.mp hnodup
    rw [releaseExited]
    by_cases hexited : s.stateOf slot = .exited
    · have hpages := hall slot mem_cons_self hexited
      have hcount : exitedIn (slot :: rest) s = exitedIn rest s + 1 :=
        countP_cons_of_pos (by simpa using hexited)
      rw [if_pos hexited, if_neg (not_not.mpr hpages), hpages]
      rw [hcount] at hframes ⊢
      have hless : (s.stackFrames + 2 ^ 64 - (Fin.last stackPages).val) % 2 ^ 64 =
          s.stackFrames - stackPages := by
        show (s.stackFrames + 2 ^ 64 - 4) % 2 ^ 64 = s.stackFrames - 4
        unfold stackPages at hframes
        omega
      rw [hless]
      -- the rest of the list sees the state with this slot cleared
      set t := { s with stackFrames := s.stackFrames - stackPages }.setThread slot .clear
      have hother : ∀ other ∈ rest, t.stateOf other = s.stateOf other := by
        intro other hmem
        have hne : other ≠ slot := fun heq => hfirst (heq ▸ hmem)
        simp [t, State.stateOf, State.setThread, hne]
      have hsame : exitedIn rest t = exitedIn rest s :=
        countP_congr fun other hmem => by rw [hother other hmem]
      have hstack : t.stackFrames = s.stackFrames - stackPages := rfl
      rw [← hsame, mul_add_one] at hframes ⊢
      obtain ⟨hok, hleft, -⟩ := ih (s := t) hrest
        (fun other hmem hex => hall other (mem_cons_of_mem _ hmem) (hother other hmem ▸ hex))
        (by omega) (by omega)
      exact ⟨hok, by omega, fun hnone => absurd hexited (hnone slot mem_cons_self)⟩
    · have hcount : exitedIn (slot :: rest) s = exitedIn rest s :=
        countP_cons_of_neg (by simpa using hexited)
      rw [if_neg hexited]
      rw [hcount] at hframes ⊢
      obtain ⟨hok, hleft, hsame⟩ := ih hrest
        (fun other hmem => hall other (mem_cons_of_mem _ hmem)) hframes hsmall
      exact ⟨hok, hleft, fun hnone => hsame fun other hmem => hnone other (mem_cons_of_mem _ hmem)⟩

theorem isLive_eq_false {state : ThreadState} (h : isLive state = false) :
    state = .unused ∨ state = .exited := by
  revert h
  cases state <;> decide

theorem exitedIn_otherSlots (hquiet : ∀ slot, slot ≠ 0 → isLive (s.stateOf slot) = false) :
    exitedIn otherSlots s = s.stacks := by
  refine countP_congr fun slot hslot => ?_
  rcases isLive_eq_false (hquiet slot (mem_otherSlots.mp hslot)) with h | h <;> simp [h]

theorem inv_tearDown {freed : Bool} (h : Sched s) (hactive : s.active)
    (hquiet : ∀ slot, slot ≠ 0 → isLive (s.stateOf slot) = false)
    (hall : ∀ slot, s.stateOf slot = .exited → unmapped slot = Fin.last stackPages)
    (hfreed : (∃ slot, s.stateOf slot = .exited) → freed) :
    Inv (tearDown s unmapped freed).2 := by
  have hcount := exitedIn_otherSlots hquiet
  have hbound : s.stacks ≤ 7 := countP_le_length
  have hframes := h.frames
  obtain ⟨hok, hleft, hsame⟩ := @releaseExited_all s unmapped otherSlots otherSlots_nodup
    (fun slot _ => hall slot) (by rw [hcount, hframes]) (by unfold stackPages at hframes; omega)
  have hzero : (releaseExited unmapped otherSlots s).2.stackFrames = 0 := by
    rw [hleft, hcount, hframes, Nat.sub_self]
  unfold tearDown
  rw [if_neg (not_not.mpr hok), if_neg (not_not.mpr hzero)]
  split_ifs with hkept
  · -- the table was not freed, so no thread had exited and nothing was released
    have hnone : ∀ slot ∈ otherSlots, s.stateOf slot ≠ .exited := by
      intro slot _ hexited
      rw [hfreed ⟨slot, hexited⟩] at hkept
      cases hkept
    rw [hsame hnone]
    exact h.inv hactive
  · exact ⟨nofun, fun _ _ => rfl⟩

def unpreemptive (s : State) : State := if s.preemptive then (disablePreemption s).2 else s

/-- It differs from the state before in two flags. -/
theorem unpreemptive_eq (s : State) : ∃ pending preemptive,
    unpreemptive s = { s with reschedulePending := pending, preemptive := preemptive } := by
  unfold unpreemptive disablePreemption
  split_ifs
  · exact ⟨s.reschedulePending, s.preemptive, rfl⟩
  · exact ⟨s.reschedulePending, s.preemptive, rfl⟩
  · exact ⟨false, false, rfl⟩
  · exact ⟨s.reschedulePending, s.preemptive, rfl⟩

/-- `thread_stop` is refused, or tears the scheduler down. -/
theorem threadStop_cases (hactive : s.active) (interrupts : Bool)
    (unmapped : Fin capacity → Fin (stackPages + 1)) (freed : Bool) :
    (threadStop s interrupts unmapped freed = tearDown (unpreemptive s) unmapped freed ∧
        Teardown s interrupts) ∨
      (threadStop s interrupts unmapped freed).1 ≠ .ok ∧
        ((threadStop s interrupts unmapped freed).2 = s ∨
          (threadStop s interrupts unmapped freed).2 = unpreemptive s) := by
  unfold threadStop
  rw [if_neg (by simp [hactive])]
  by_cases hmasked : interrupts
  · rw [if_pos hmasked]
    exact .inr ⟨nofun, .inl rfl⟩
  rw [if_neg hmasked]
  by_cases hboot : (s.threads s.currentSlot).bootThread = false
  · rw [if_pos hboot]
    exact .inr ⟨nofun, .inl rfl⟩
  rw [if_neg hboot]
  have hfold : (if s.preemptive then (disablePreemption s).2 else s) = unpreemptive s := rfl
  simp only [hfold]
  by_cases hlive : (otherSlots.any fun slot => isLive ((unpreemptive s).stateOf slot))
  · rw [if_pos hlive]
    exact .inr ⟨nofun, .inr rfl⟩
  · rw [if_neg hlive]
    refine .inl ⟨rfl, hactive, by simpa using hmasked, by simpa using hboot, fun slot hslot => ?_⟩
    obtain ⟨pending, preemptive, heq⟩ := unpreemptive_eq s
    simp only [any_eq_true, not_exists, not_and] at hlive
    have hquiet := hlive slot (mem_otherSlots.mpr hslot)
    rw [heq] at hquiet
    exact Bool.eq_false_of_not_eq_true hquiet

/-! ### Turns -/

/-- What a step does to the turns of the threads. -/
inductive Turn (s : State) (o : Outcome) (s' : State) : Prop
  | stays (unresumed : o.resumed = none) (current : s'.currentSlot = s.currentSlot)
      (waiting : ∀ r, s.stateOf r = .ready → s'.stateOf r = .ready)
  | stops (unresumed : o.resumed = none) (empty : ∀ r, s.stateOf r ≠ .ready)
  | turns (next : Fin capacity) (resumed : o.resumed = some next) (ready : s.stateOf next = .ready)
      (current : s'.currentSlot = next)
      (nearer : ∀ r, s.stateOf r = .ready →
        Schedule.distance next r < Schedule.distance s.currentSlot r)
      (waiting : ∀ r, s.stateOf r = .ready → r ≠ next → s'.stateOf r = .ready)

/-- The current slot is running and so is not waiting. -/
theorem Sched.ne_current (h : Sched s) {r : Fin capacity} (hready : s.stateOf r = .ready) :
    r ≠ s.currentSlot := by
  rintro rfl
  have hrunning : s.stateOf s.currentSlot = .running := (h.running _).mpr rfl
  cases hready.symm.trans hrunning

theorem turn_switchTo (h : Sched s) {state : ThreadState} {t : State}
    (ht : ∀ r, r ≠ s.currentSlot → t.stateOf r = s.stateOf r)
    (hnext : next = nextReadySlot t s.currentSlot) (hready : s.stateOf next = .ready)
    (ho : o.resumed = some next) (hs' : s' = switchTo (s.setState s.currentSlot state) next) :
    Turn s o s' := by
  refine .turns next ho hready (by rw [hs']; rfl) (fun r hr => ?_) fun r hr hne => ?_
  · rw [hnext]
    refine Schedule.distance_nextReady ?_ (h.ne_current hr)
    simpa [ht r (h.ne_current hr)] using hr
  · rw [hs', stateOf_switchTo, if_neg hne, stateOf_setState, if_neg (h.ne_current hr)]
    exact hr

theorem turn_switchToNext (h : Sched s) (returned : Option Status) :
    Turn s ⟨returned, (switchToNext s).1⟩ (switchToNext s).2 := by
  rcases switchToNext_cases h with ⟨heq, -⟩ | ⟨next, hnext, hne, hready, heq⟩
  · rw [heq]
    exact .stays rfl rfl fun _ hr => hr
  · rw [heq]
    exact turn_switchTo h (fun _ _ => rfl) hnext hready rfl rfl

/-! ### One step -/

theorem Turn.quiet (ho : o.resumed = none) (hcurrent : s'.currentSlot = s.currentSlot)
    (hthreads : s'.threads = s.threads) : Turn s o s' := by
  refine .stays ho hcurrent fun r hr => ?_
  unfold State.stateOf
  rw [hthreads]
  exact hr

theorem Turn.of_threads {t : State} (h : Turn t o s') (hthreads : t.threads = s.threads)
    (hcurrent : t.currentSlot = s.currentSlot) : Turn s o s' := by
  have hstate (r : Fin capacity) : t.stateOf r = s.stateOf r := by
    unfold State.stateOf
    rw [hthreads]
  cases h with
  | stays unresumed current waiting =>
    exact .stays unresumed (current.trans hcurrent) fun r hr => waiting r ((hstate r).trans hr)
  | stops unresumed empty => exact .stops unresumed fun r hr => empty r ((hstate r).trans hr)
  | turns next resumed ready current nearer waiting =>
    refine .turns next resumed ((hstate next).symm.trans ready) current (fun r hr => ?_) fun r hr =>
      waiting r ((hstate r).trans hr)
    rw [← hcurrent]
    exact nearer r ((hstate r).trans hr)

theorem Inv.setActivity (h : Inv s) {slot : Fin capacity} {activity : Activity}
    (hjoin : s.active → ∀ identifier target yielding,
      activity = .joining identifier target yielding →
        (s.threads target).identifier = identifier ∧ s.stateOf target ≠ .unused) :
    Inv (s.setActivity slot activity) :=
  ⟨fun ha => (h.sched ha).setActivity (hjoin ha), h.stopped⟩

theorem switchToNext_active (s : State) : (switchToNext s).2.active = s.active := by
  unfold switchToNext
  dsimp only
  split_ifs <;> rfl

variable (h : Inv s)
include h

theorem threadExit_spec (hexit : threadExit s = some (next, s')) :
    Inv s' ∧ Turn s ⟨none, some next⟩ s' := by
  unfold threadExit at hexit
  dsimp only at hexit
  split_ifs at hexit with hstopped hboot hsame
  cases hexit
  have hactive : s.active := by simpa using hstopped
  have hsched := h.sched hactive
  have hready := ready_of_nextReadySlot hsame
  rw [stateOf_setState, if_neg hsame] at hready
  refine ⟨(sched_switchTo hsched hsame (.inr rfl) hready).inv hactive,
    turn_switchTo hsched (fun r hr => ?_) rfl hready rfl rfl⟩
  rw [stateOf_setState, if_neg hr]

theorem threadCreate_spec (interrupts : Bool) (mapped : Status)
    (returned : Option Status) : Inv (threadCreate s interrupts mapped).2 ∧
      Turn s ⟨returned, none⟩ (threadCreate s interrupts mapped).2 := by
  rcases threadCreate_cases s interrupts mapped with
    heq | ⟨hactive, chosen, hother, hunused, heq⟩
  · rw [heq]
    exact ⟨h, .quiet rfl rfl rfl⟩
  · rw [heq]
    refine ⟨(sched_created (h.sched hactive) hother hunused).inv hactive,
      .stays rfl rfl fun r hr => ?_⟩
    by_cases hchosen : r = chosen
    · simp [created, recount, State.stateOf, hchosen]
    · simpa [created, recount, State.stateOf, hchosen] using hr

theorem threadStop_spec {interrupts freed : Bool}
    (hcompletes : StopCompletes s interrupts unmapped freed) (returned : Option Status) :
    Inv (threadStop s interrupts unmapped freed).2 ∧
      Turn s ⟨returned, none⟩ (threadStop s interrupts unmapped freed).2 := by
  by_cases hstopped : s.active = false
  · have hsame : threadStop s interrupts unmapped freed = (.notStarted, s) := if_pos hstopped
    rw [hsame]
    exact ⟨h, .quiet rfl rfl rfl⟩
  have hactive : s.active := by simpa using hstopped
  have hsched := h.sched hactive
  obtain ⟨pending, preemptive, heq⟩ := unpreemptive_eq s
  rcases threadStop_cases hactive interrupts unmapped freed with
    ⟨hdown, htear⟩ | ⟨-, hsame | hsame⟩
  · obtain ⟨hall, hfreed⟩ := hcompletes htear
    refine ⟨?_, .stops rfl fun r hr => ?_⟩
    · rw [hdown, heq]
      exact inv_tearDown (hsched.setFlags pending preemptive) hactive htear.quiet hall hfreed
    · -- the boot thread is running and no other one is live
      have hboot := hsched.boot _ htear.boot
      have hquiet := htear.quiet r (hboot ▸ hsched.ne_current hr)
      rw [hr] at hquiet
      cases hquiet
  · rw [hsame]
    exact ⟨h, .quiet rfl rfl rfl⟩
  · rw [hsame, heq]
    exact ⟨h.setFlags pending preemptive, .quiet rfl rfl rfl⟩

/-- `thread_yield` for an inactive scheduler, and otherwise. -/
theorem yield_spec :
    Inv (switched (if s.active = false then (none, s) else switchToNext s)).2 ∧
      Turn s (switched (if s.active = false then (none, s) else switchToNext s)).1
        (switched (if s.active = false then (none, s) else switchToNext s)).2 := by
  by_cases hactive : s.active = false
  · rw [if_pos hactive]
    exact ⟨h, .quiet rfl rfl rfl⟩
  · rw [if_neg hactive]
    have hactive : s.active := by simpa using hactive
    have hsched := h.sched hactive
    exact ⟨(sched_switchToNext hsched).inv ((switchToNext_active s).trans hactive),
      turn_switchToNext hsched none⟩

theorem interruptReturn_spec :
    Inv (switched (onInterruptReturn s)).2 ∧
      Turn s (switched (onInterruptReturn s)).1 (switched (onInterruptReturn s)).2 := by
  unfold onInterruptReturn
  by_cases hpending : s.reschedulePending = false
  · rw [if_pos hpending]
    exact ⟨h, .quiet rfl rfl rfl⟩
  · rw [if_neg hpending]
    obtain ⟨hinv, hturn⟩ := yield_spec (h.setFlags false s.preemptive)
    exact ⟨hinv, hturn.of_threads rfl rfl⟩

theorem quantumExpired_spec {armed : Bool} (hq : quantumExpired s armed = some s') :
    Inv s' ∧ Turn s ⟨none, none⟩ s' := by
  unfold quantumExpired at hq
  split_ifs at hq
  · cases hq
    exact ⟨h, .quiet rfl rfl rfl⟩
  · cases hq
    exact ⟨h.setFlags true s.preemptive, .quiet rfl rfl rfl⟩
  · cases hq
    exact ⟨h, .quiet rfl rfl rfl⟩

theorem enablePreemption_spec (timerStarted armed : Bool) :
    Inv (enablePreemption s timerStarted armed).2 ∧
      Turn s (answered (enablePreemption s timerStarted armed)).1
        (enablePreemption s timerStarted armed).2 := by
  unfold enablePreemption
  split_ifs
  · exact ⟨h, .quiet rfl rfl rfl⟩
  · exact ⟨h, .quiet rfl rfl rfl⟩
  · exact ⟨h, .quiet rfl rfl rfl⟩
  · exact ⟨h, .quiet rfl rfl rfl⟩
  · exact ⟨h.setFlags s.reschedulePending true, .quiet rfl rfl rfl⟩

theorem disablePreemption_spec :
    Inv (disablePreemption s).2 ∧
      Turn s (answered (disablePreemption s)).1 (disablePreemption s).2 := by
  unfold disablePreemption
  split_ifs
  · exact ⟨h, .quiet rfl rfl rfl⟩
  · exact ⟨h, .quiet rfl rfl rfl⟩
  · exact ⟨h.setFlags false false, .quiet rfl rfl rfl⟩

omit h

end OpenRFS.Threads
