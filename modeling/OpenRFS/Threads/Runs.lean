import OpenRFS.Threads.Steps

/-!
# Runs of the scheduler

The properties of the scheduler over whole runs after `thread_start`. They hold as long
as a stop that has begun to release stacks goes through.
-/

namespace OpenRFS.Threads

open List

variable {s s' : State} {o : Outcome} {input : Input}

/-- A stop can go through; other steps need nothing. -/
def Completes (s : State) : Input → Prop
  | .stop interrupts unmapped freed => StopCompletes s interrupts unmapped freed
  | _ => True

theorem Sched.live_current (h : Sched s) : isLive (s.stateOf s.currentSlot) := by
  rw [(h.running s.currentSlot).mpr rfl]
  rfl

theorem joinStart_spec (h : Inv s) {identifier : ℕ}
    (hstep : step s (.joinStart identifier) = some (o, s')) : Inv s' ∧ Turn s o s' := by
  obtain ⟨-, hstep⟩ := Option.ite_none_right_eq_some.mp hstep
  cases htarget : joinTarget s identifier with
  | error status =>
    simp only [htarget] at hstep
    cases hstep
    exact ⟨h, .quiet rfl rfl rfl⟩
  | ok target =>
    simp only [htarget] at hstep
    cases hstep
    refine ⟨h.setActivity fun _ identifier' target' yielding heq => ?_, .quiet rfl rfl rfl⟩
    cases heq
    exact joinTarget_spec htarget

/-- A thread that joins goes on to do so: the slot of its target is still that of the
thread it waits for. -/
theorem Inv.rejoin (h : Inv s) {identifier : ℕ} {target : Fin capacity} {yielding : Bool}
    (hjoin : s.activity s.currentSlot = .joining identifier target yielding) (again : Bool) :
    Inv (s.setActivity s.currentSlot (.joining identifier target again)) := by
  refine h.setActivity fun hactive identifier' target' yielding' heq => ?_
  cases heq
  exact (h.sched hactive).joins _ _ _ _ hjoin (h.sched hactive).live_current

theorem joinCheck_spec (h : Inv s) (hstep : step s .joinCheck = some (o, s')) :
    Inv s' ∧ Turn s o s' := by
  simp only [step] at hstep
  split at hstep
  · rename_i identifier target hjoin
    split_ifs at hstep with halive
    · cases hstep
      exact ⟨h.rejoin hjoin true, .quiet rfl rfl rfl⟩
    · cases hstep
      exact ⟨h.setActivity fun _ _ _ _ => nofun, .quiet rfl rfl rfl⟩
  · cases hstep

theorem joinYield_spec (h : Inv s) (hstep : step s .joinYield = some (o, s')) :
    Inv s' ∧ Turn s o s' := by
  simp only [step] at hstep
  split at hstep
  · rename_i identifier target hjoin
    obtain ⟨hinv, hturn⟩ := yield_spec (h.rejoin hjoin false)
    cases hstep
    exact ⟨hinv, hturn.of_threads rfl rfl⟩
  · cases hstep

theorem step_spec (h : Inv s) (hstep : step s input = some (o, s')) (hcompletes : Completes s input) :
    Inv s' ∧ Turn s o s' := by
  cases input with
  | create interrupts mapped =>
    cases (Option.ite_none_right_eq_some.mp hstep).2
    exact threadCreate_spec h interrupts mapped _
  | yield =>
    cases (Option.ite_none_right_eq_some.mp hstep).2
    exact yield_spec h
  | exit =>
    obtain ⟨-, hstep⟩ := Option.ite_none_right_eq_some.mp hstep
    obtain ⟨⟨next, t⟩, hexit, heq⟩ := Option.map_eq_some_iff.mp hstep
    cases heq
    exact threadExit_spec h hexit
  | joinStart identifier => exact joinStart_spec h hstep
  | joinCheck => exact joinCheck_spec h hstep
  | joinYield => exact joinYield_spec h hstep
  | quantumExpired armed =>
    obtain ⟨t, hq, heq⟩ := Option.map_eq_some_iff.mp hstep
    cases heq
    exact quantumExpired_spec h hq
  | interruptReturn =>
    cases hstep
    exact interruptReturn_spec h
  | enablePreemption timerStarted armed =>
    cases (Option.ite_none_right_eq_some.mp hstep).2
    exact enablePreemption_spec h timerStarted armed
  | disablePreemption =>
    cases (Option.ite_none_right_eq_some.mp hstep).2
    exact disablePreemption_spec h
  | stop interrupts unmapped freed =>
    cases (Option.ite_none_right_eq_some.mp hstep).2
    exact threadStop_spec h hcompletes _

theorem inv_started : Inv started := by
  refine ⟨fun _ => ⟨?_, recounted_recount _, ?_, fun _ _ _ _ => nofun, by decide⟩, nofun⟩
  · unfold RunningIsCurrent
    decide
  · decide

theorem join_ok (h : Inv s) (hstep : step s .joinCheck = some (o, s')) (hok : o.returned = some .ok) :
    ∃ identifier target, s.activity s.currentSlot = .joining identifier target false ∧
      (s.threads target).identifier = identifier ∧ s.stateOf target = .exited := by
  simp only [step] at hstep
  split at hstep
  · rename_i identifier target hjoin
    split_ifs at hstep with halive
    · cases hstep
      cases hok
    · have hexited : s.stateOf target = .exited := not_not.mp halive
      refine ⟨identifier, target, hjoin, ?_, hexited⟩
      by_cases hactive : s.active
      · have hsched := h.sched hactive
        exact (hsched.joins _ _ _ _ hjoin hsched.live_current).1
      · have hunused := h.stopped (by simpa using hactive) target
        cases hexited.symm.trans hunused
  · cases hstep

/-- A stop that returns `ok` passed its checks. -/
theorem stop_ok {interrupts freed : Bool} {unmapped : Fin capacity → Fin (stackPages + 1)}
    (hstep : step s (.stop interrupts unmapped freed) = some (o, s')) (hok : o.returned = some .ok) :
    Teardown s interrupts := by
  simp only [step] at hstep
  split_ifs at hstep
  cases hstep
  have hok : (threadStop s interrupts unmapped freed).1 = .ok := Option.some.inj hok
  have hactive : s.active := by
    by_contra hstopped
    have hrefused : threadStop s interrupts unmapped freed = (.notStarted, s) :=
      if_pos (by simpa using hstopped)
    rw [hrefused] at hok
    cases hok
  rcases threadStop_cases hactive interrupts unmapped freed with ⟨-, htear⟩ | ⟨hrefused, -⟩
  · exact htear
  · exact absurd hok hrefused

/-! ### Whole runs -/

def switches (trace : List Entry) : ℕ := trace.countP fun x => x.outcome.resumed.isSome

/-- What is required of a run of the scheduler. -/
structure Scheduled (trace : List Entry) : Prop where
  running : ∀ x ∈ trace, x.after.active = true → RunningIsCurrent x.after
  counts : ∀ x ∈ trace, x.after.active = true → Recounted x.after
  /-- Only a ready thread is resumed. -/
  resumed : ∀ x ∈ trace, ∀ slot, x.outcome.resumed = some slot → x.before.stateOf slot = .ready
  /-- A join returns after its target has exited. -/
  joined : ∀ x ∈ trace, x.input = .joinCheck → x.outcome.returned = some .ok →
    ∃ identifier target, x.before.activity x.before.currentSlot = .joining identifier target false ∧
      (x.before.threads target).identifier = identifier ∧ x.before.stateOf target = .exited
  /-- A stop returns `ok` to the boot thread, with every other thread exited. -/
  stopped : ∀ x ∈ trace, ∀ interrupts unmapped freed, x.input = .stop interrupts unmapped freed →
    x.outcome.returned = some .ok → (x.before.threads x.before.currentSlot).bootThread = true ∧
        ∀ slot, slot ≠ x.before.currentSlot →
          x.before.stateOf slot = .unused ∨ x.before.stateOf slot = .exited
  /-- A ready thread is resumed within the next `capacity - 1` switches. -/
  fair : ∀ first x during last r, trace = first ++ (x :: during) ++ last →
    x.before.stateOf r = .ready → capacity - 1 ≤ switches (x :: during) →
      ∃ y ∈ x :: during, y.outcome.resumed = some r

theorem Run.split {first last : List Entry} (hrun : Run s (first ++ last) s') :
    ∃ t, Run s first t ∧ Run t last s' := by
  induction first generalizing s with
  | nil => exact ⟨s, .nil s, hrun⟩
  | cons x first ih =>
    cases hrun with
    | cons hstep hrest =>
      obtain ⟨t, hfirst, hlast⟩ := ih hrest
      exact ⟨t, .cons hstep hfirst, hlast⟩

variable {trace : List Entry} (hrun : Run s trace s') (h : Inv s)
  (hcompletes : ∀ x ∈ trace, Completes x.before x.input)
include hrun h hcompletes

theorem Run.entries :
    ∀ x ∈ trace, Inv x.before ∧ step x.before x.input = some (x.outcome, x.after) ∧ Inv x.after := by
  induction hrun with
  | nil s => simp
  | @cons s s₁ s₂ input outcome rest hstep hrest ih =>
    obtain ⟨hinv, -⟩ := step_spec h hstep (hcompletes _ mem_cons_self)
    exact forall_mem_cons.mpr ⟨⟨h, hstep, hinv⟩,
      ih hinv fun y hy => hcompletes y (mem_cons_of_mem _ hy)⟩

theorem Run.inv : Inv s' := by
  induction hrun with
  | nil s => exact h
  | cons hstep hrest ih =>
    exact ih (step_spec h hstep (hcompletes _ mem_cons_self)).1
      fun y hy => hcompletes y (mem_cons_of_mem _ hy)

theorem Run.waiting {r : Fin capacity}
    (hready : s.stateOf r = .ready) (hno : ∀ y ∈ trace, y.outcome.resumed ≠ some r) :
    s'.stateOf r = .ready ∧
      switches trace + Schedule.distance s'.currentSlot r ≤ Schedule.distance s.currentSlot r := by
  induction hrun with
  | nil s => exact ⟨hready, by simp [switches]⟩
  | @cons s s₁ s₂ input outcome rest hstep hrest ih =>
    obtain ⟨hinv, hturn⟩ := step_spec h hstep (hcompletes _ mem_cons_self)
    have hrestOk := fun y hy => hcompletes y (mem_cons_of_mem _ hy)
    have hrestNo := fun y hy => hno y (mem_cons_of_mem _ hy)
    have hhead := hno _ mem_cons_self
    cases hturn with
    | stays unresumed current waiting =>
      obtain ⟨hend, hle⟩ := ih hinv hrestOk (waiting r hready) hrestNo
      refine ⟨hend, ?_⟩
      rw [switches, countP_cons_of_neg (by simp [unresumed]), ← current]
      exact hle
    | stops unresumed empty => exact absurd hready (empty r)
    | turns next resumed ready current nearer waiting =>
      have hne : r ≠ next := fun heq => hhead (heq ▸ resumed)
      obtain ⟨hend, hle⟩ := ih hinv hrestOk (waiting r hready hne) hrestNo
      refine ⟨hend, ?_⟩
      have hnearer := nearer r hready
      rw [current] at hle
      rw [switches, countP_cons_of_pos (by simp [resumed])]
      unfold switches at hle
      omega

theorem Run.resumes {r : Fin capacity}
    (hready : s.stateOf r = .ready) (hmany : capacity - 1 ≤ switches trace) :
    ∃ y ∈ trace, y.outcome.resumed = some r := by
  by_contra hnone
  push Not at hnone
  obtain ⟨hend, hle⟩ := hrun.waiting h hcompletes hready hnone
  have hinv := hrun.inv h hcompletes
  have hactive : s'.active := by
    by_contra hstopped
    cases hend.symm.trans (hinv.stopped (by simpa using hstopped) r)
  have hpos := Schedule.distance_pos ((hinv.sched hactive).ne_current hend)
  have hlt := Schedule.distance_lt s.currentSlot r
  omega

omit hrun h hcompletes

/-- Every run after `thread_start` is scheduled as required, as long as a stop that passes its
checks can release what it has to. -/
theorem scheduled_of_run {trace : List Entry} (hrun : Run started trace s)
    (hcompletes : ∀ x ∈ trace, Completes x.before x.input) : Scheduled trace := by
  have hentries := hrun.entries inv_started hcompletes
  refine ⟨fun x hx ha => ?_, fun x hx ha => ?_, fun x hx slot hslot => ?_, fun x hx hinput hok => ?_,
    fun x hx interrupts unmapped freed hinput hok => ?_, ?_⟩
  · exact ((hentries x hx).2.2.sched ha).running
  · exact ((hentries x hx).2.2.sched ha).counts
  · obtain ⟨hinv, hstep, -⟩ := hentries x hx
    cases (step_spec hinv hstep (hcompletes x hx)).2 with
    | stays unresumed current waiting | stops unresumed empty => cases unresumed.symm.trans hslot
    | turns next resumed ready current nearer waiting =>
      cases resumed.symm.trans hslot
      exact ready
  · obtain ⟨hinv, hstep, -⟩ := hentries x hx
    rw [hinput] at hstep
    exact join_ok hinv hstep hok
  · obtain ⟨hinv, hstep, -⟩ := hentries x hx
    rw [hinput] at hstep
    have htear := stop_ok hstep hok
    have hzero := (hinv.sched htear.active).boot _ htear.boot
    exact ⟨htear.boot, fun slot hslot => isLive_eq_false (htear.quiet slot (hzero ▸ hslot))⟩
  · rintro first x during last r rfl hready hmany
    obtain ⟨t, hall, -⟩ := hrun.split
    obtain ⟨t₁, hfirst, hduring⟩ := hall.split
    have hinv : Inv t₁ := hfirst.inv inv_started fun y hy => hcompletes y (by simp [hy])
    have hx : t₁ = x.before := by
      cases hduring
      rfl
    subst hx
    refine hduring.resumes hinv (fun y hy => hcompletes y ?_) hready hmany
    exact mem_append_left _ (mem_append_right _ hy)

/-! ### Two runs -/

/-- The steps for a list of inputs, up to the first that cannot be made. -/
def runAll : List Input → State → List Entry × State
  | [], s => ([], s)
  | input :: rest, s =>
    match step s input with
    | none => ([], s)
    | some (o, s') => (⟨s, input, o, s'⟩ :: (runAll rest s').1, (runAll rest s').2)

theorem run_runAll (inputs : List Input) (s : State) :
    Run s (runAll inputs s).1 (runAll inputs s).2 := by
  induction inputs generalizing s with
  | nil => exact .nil s
  | cons input rest ih =>
    unfold runAll
    cases hstep : step s input with
    | none => exact .nil s
    | some out => exact .cons hstep (ih out.2)

theorem mem_inputs_of_runAll {inputs : List Input} {x : Entry} (h : x ∈ (runAll inputs s).1) :
    x.input ∈ inputs := by
  induction inputs generalizing s with
  | nil => cases h
  | cons input rest ih =>
    unfold runAll at h
    cases hstep : step s input with
    | none =>
      rw [hstep] at h
      cases h
    | some out =>
      rw [hstep] at h
      rcases mem_cons.mp h with rfl | h
      · exact mem_cons_self
      · exact mem_cons_of_mem _ (ih h)

/-- Two threads are created, run and exit, and the boot thread stops the scheduler.
`pages` are the pages of the second stack that can be released. -/
def sampleInputs (pages : Fin (stackPages + 1)) : List Input :=
  [.create false .ok, .create false .ok, .yield, .exit, .exit,
    .stop false (fun slot => if slot = 2 then pages else Fin.last stackPages) true]

theorem scheduled_sample :
    (runAll (sampleInputs (Fin.last _)) started).1.length = 6 ∧
      Scheduled (runAll (sampleInputs (Fin.last _)) started).1 := by
  refine ⟨by decide +kernel, scheduled_of_run (run_runAll _ _) fun x hx => ?_⟩
  have hinput := mem_inputs_of_runAll hx
  simp only [sampleInputs, ite_self, mem_cons, not_mem_nil, or_false] at hinput
  rcases hinput with h | h | h | h | h | h <;> rw [h]
  case inr.inr.inr.inr.inr => exact fun _ => ⟨fun _ _ => rfl, fun _ => rfl⟩
  all_goals trivial

/-- The stop releases the first stack and not the second one. It has cleared a slot then,
and the count of exited threads still has it. -/
theorem not_scheduled_after_failed_stop :
    Run started (runAll (sampleInputs 0) started).1 (runAll (sampleInputs 0) started).2 ∧
      (runAll (sampleInputs 0) started).2.active = true ∧
      (runAll (sampleInputs 0) started).2.exited = 2 ∧
      (runAll (sampleInputs 0) started).2.countState (· = .exited) = 1 ∧
      ¬Scheduled (runAll (sampleInputs 0) started).1 := by
  refine ⟨run_runAll _ _, by decide +kernel, by decide +kernel, by decide +kernel, fun h => ?_⟩
  have hlast : ∃ x ∈ (runAll (sampleInputs 0) started).1, x.after.active = true ∧
      x.after.exited ≠ x.after.countState (· = .exited) := by decide +kernel
  obtain ⟨x, hx, hactive, hne⟩ := hlast
  exact hne (h.counts x hx hactive).exited

end OpenRFS.Threads
