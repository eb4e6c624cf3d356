import OpenRFS.NativeScheduler.Waiting
import OpenRFS.NativeWait.Readiness

/-!
# What the scheduler may sleep through

Time alone wakes a thread when a deadline of its own passes, or when a timer handle that
it waits for comes due. `nearestDeadline` looks at the deadlines of the threads and of
the audio streams, and not at timer handles. A sleep is also rounded up to `minSleep`. So
the scheduler sleeps past a timed wait exactly if no other deadline comes before a timer
handle, or if a thread is due before the end of a sleep that was rounded up.
-/

namespace OpenRFS.NativeScheduler

open NativeWait NativeHandle Codec List Thread

section Poll

variable {env : Environment} {items : List WaitItem} {item : WaitItem} {t : UInt64}

/-- Nothing is ready, and there is no error. -/
def Quiet (polled : Except WaitError (List WaitItem × ℕ)) : Prop :=
  ∃ found, polled = .ok (found, 0)

def watchedTimer (env : Environment) (item : WaitItem) : Option UInt64 :=
  match env.handles.resolve item.handle 0 with
  | .error _ => none
  | .ok resource =>
    if encodedType item.handle = 7 ∧ resource.words 0 ≠ 0 ∧ has item.interests waitSignaled then
      some (resource.words 0)
    else none

theorem flag_not_has {c : Bool} {interests bit : UInt32} (h : ¬ (c ∧ has interests bit)) :
    flag c (interests &&& bit) = 0 := by
  cases c with
  | false => rfl
  | true =>
    have hbit : interests &&& bit = 0 := by simpa [has] using h
    rw [hbit]
    rfl

theorem localReady_clock {type : UInt8} {resource : Resource} {interests : UInt32}
    (h : ¬ (type = 7 ∧ resource.words 0 ≠ 0 ∧ resource.words 0 ≤ t ∧ has interests waitSignaled)) :
    localReady { env with clock := t } type resource interests =
      localReady { env with clock := 0 } type resource interests := by
  unfold localReady
  split
  · rfl
  · rfl
  · -- a timer is never due at zero
    have hzero : ¬ (resource.words 0 ≠ 0 ∧ resource.words 0 ≤ 0) := by
      rintro ⟨hne, hle⟩
      exact hne (UInt64.le_antisymm hle UInt64.zero_le)
    rw [flag_not_has, flag_not_has]
    · rintro ⟨hdue, -⟩
      exact hzero (of_decide_eq_true hdue)
    · rintro ⟨hdue, hsignaled⟩
      obtain ⟨hne, hle⟩ := of_decide_eq_true hdue
      exact h ⟨rfl, hne, hle, hsignaled⟩
  · rfl
  · rfl
  · rfl

theorem scanItem_clock (h : ∀ w, watchedTimer env item = some w → ¬ w ≤ t) :
    scanItem { env with clock := t } item = scanItem { env with clock := 0 } item := by
  unfold scanItem watchedTimer at *
  rcases hresolve : env.handles.resolve item.handle 0 with status | resource
  · rfl
  · rw [hresolve] at h
    dsimp only at h ⊢
    rw [localReady_clock]
    rintro ⟨htype, hne, hle, hsignaled⟩
    exact h _ (if_pos ⟨htype, hne, hsignaled⟩) hle

theorem pollWaitItems_clock (h : ∀ item ∈ items, ∀ w, watchedTimer env item = some w → ¬ w ≤ t) :
    pollWaitItems { env with clock := t } items = pollWaitItems { env with clock := 0 } items := by
  have hscan : items.mapM (scanItem { env with clock := t }) =
      items.mapM (scanItem { env with clock := 0 }) := by
    induction items with
    | nil => rfl
    | cons item items ih =>
      rw [mapM_cons, mapM_cons, scanItem_clock (h item (by simp)),
        ih fun item hitem => h item (by simp [hitem])]
  unfold pollWaitItems
  rw [hscan]

theorem le_takeResults_snd (results : List (ℕ × PollResult)) (state : List WaitItem × ℕ) :
    state.2 ≤ (takeResults results state).2 := by
  induction results generalizing state with
  | nil => exact le_refl _
  | cons result results ih =>
    obtain ⟨found, count⟩ := state
    unfold takeResults
    split
    · exact ih _
    · dsimp only
      split
      · exact (Nat.le_succ count).trans (ih (_, count + 1))
      · exact ih (_, count)

theorem scanItem_due {w : UInt64} (hwatched : watchedTimer env item = some w) (hdue : w ≤ t)
    {scanned : WaitItem × Option PollRequest}
    (hscan : scanItem { env with clock := t } item = .ok scanned) : scanned.1.ready ≠ 0 := by
  unfold watchedTimer at hwatched
  unfold scanItem at hscan
  rcases hresolve : env.handles.resolve item.handle 0 with status | resource
  · rw [hresolve] at hwatched
    exact absurd hwatched nofun
  · rw [hresolve] at hwatched hscan
    dsimp only at hwatched hscan
    split_ifs at hwatched with htimer
    obtain ⟨htype, hne, hsignaled⟩ := htimer
    obtain rfl := Option.some.inj hwatched
    rw [htype] at hscan
    split at hscan
    · exact absurd hscan nofun
    · have hnetwork : isNetwork 7 = false := by decide
      rw [hnetwork, if_neg (by decide)] at hscan
      have hready : flag (decide (resource.words 0 ≠ 0 ∧ resource.words 0 ≤ t))
          (item.interests &&& waitSignaled) = item.interests &&& waitSignaled := by
        rw [flag, if_pos (decide_eq_true ⟨hne, hdue⟩)]
      simp only [localReady, hready, Except.ok.injEq] at hscan
      rw [← hscan]
      simpa [has] using hsignaled

theorem not_quiet_of_due {w : UInt64} (hitem : item ∈ items)
    (hwatched : watchedTimer env item = some w) (hdue : w ≤ t) :
    ¬ Quiet (pollWaitItems { env with clock := t } items) := by
  rintro ⟨found, hpoll⟩
  obtain ⟨scanned, hscan, hpoll⟩ := bind_eq_ok.mp hpoll
  have hall := mapM_eq_ok_iff.mp hscan
  obtain ⟨x, hx, hscanned⟩ := exists_mem_right_of_forall₂ hall hitem
  -- so the first loop counts an item already
  have hcount : 0 < readyItems (scanned.map Prod.fst) := by
    refine countP_pos_iff.mpr ⟨x.1, mem_map_of_mem hx, ?_⟩
    exact decide_eq_true (scanItem_due hwatched hdue hscanned)
  dsimp only at hpoll
  split at hpoll
  · have := congrArg Prod.snd (Except.ok.inj hpoll)
    omega
  · split at hpoll
    · exact absurd hpoll nofun
    · have hsnd := congrArg Prod.snd (Except.ok.inj hpoll)
      have hle := le_takeResults_snd
        (((networkIndices scanned).map Prod.fst |>.zip (networkPoll env.timerAcquired
          ((networkIndices scanned).map Prod.snd) env.round env.more).results).take
          (networkPoll env.timerAcquired ((networkIndices scanned).map Prod.snd) env.round
            env.more).count) (scanned.map Prod.fst, readyItems (scanned.map Prod.fst))
      dsimp only at hsnd hle
      omega

end Poll

section Wake

variable {p q : Process} {th : Thread} {t t' : UInt64} {i n : ℕ}

/-- The conditions under which `update_waiting_threads` wakes a thread. -/
def Woken (p : Process) (t : UInt64) (th : Thread) : Prop :=
  match th.state with
  | .sleepWait => th.deadline ≤ t
  | .futexWait => th.timedOut t
  | .joinWait => ∃ joined ∈ p.threads, joined.generation = th.waitGeneration ∧ joined.finished
  | .handleWait =>
    th.timedOut t ∨ ¬ Quiet (pollWaitItems { p.environment with clock := t } th.waitItems)
  | .audioDrainWait => th.timedOut t ∨ p.drain th.audioToken ≠ .pending
  | .consoleWait => p.consoleInput ≠ []
  | .unused | .runnable | .exited | .faulted => False

theorem nothingReady_iff {polled : Except WaitError (List WaitItem × ℕ)} :
    nothingReady polled ↔ Quiet polled := by
  unfold Quiet nothingReady
  rcases polled with e | ⟨found, count⟩
  · simp
  · simp

theorem updateThread_state (p : Process) (t : UInt64) (th : Thread) :
    (Woken p t th ∧ (updateThread p t th).1.state = .runnable) ∨
      (¬ Woken p t th ∧ (updateThread p t th).1.state = th.state) := by
  rcases hstate : th.state
  all_goals simp only [Woken, updateThread, hstate]
  case unused | runnable | exited | faulted => exact .inr ⟨id, trivial⟩
  case sleepWait =>
    by_cases hdue : th.deadline ≤ t
    · exact .inl ⟨hdue, by rw [if_pos hdue]; rfl⟩
    · exact .inr ⟨hdue, by rw [if_neg hdue]; exact hstate⟩
  case futexWait =>
    by_cases hdue : th.timedOut t
    · exact .inl ⟨hdue, by rw [if_pos hdue]; rfl⟩
    · exact .inr ⟨hdue, by rw [if_neg hdue]; exact hstate⟩
  case joinWait =>
    split
    · rename_i hnone
      refine .inr ⟨?_, hstate⟩
      rintro ⟨joined, hmem, hgeneration, hfinished⟩
      have := find?_eq_none.mp hnone joined hmem
      simp [hgeneration, hfinished] at this
    · rename_i joined hsome
      have hjoined := find?_some hsome
      simp only [Bool.and_eq_true, decide_eq_true_eq] at hjoined
      exact .inl ⟨⟨joined, mem_of_find?_eq_some hsome, hjoined⟩, rfl⟩
  case handleWait =>
    by_cases hquiet : Quiet (pollWaitItems { p.environment with clock := t } th.waitItems)
    · by_cases hdue : th.timedOut t
      · refine .inl ⟨.inl hdue, ?_⟩
        rw [if_neg (by simp [hdue])]
        rfl
      · refine .inr ⟨by simp [hdue, hquiet], ?_⟩
        rw [if_pos (by simpa [hdue] using nothingReady_iff.mpr hquiet)]
    · refine .inl ⟨.inr hquiet, ?_⟩
      rw [if_neg (by simp only [Bool.and_eq_true]; exact fun h => hquiet (nothingReady_iff.mp h.1))]
      rfl
  case audioDrainWait =>
    by_cases hidle : p.drain th.audioToken = .pending ∧ (!th.timedOut t)
    · refine .inr ⟨?_, by rw [if_pos hidle]; exact hstate⟩
      simpa using And.intro (by simpa using hidle.2) hidle.1
    · refine .inl ⟨?_, by rw [if_neg hidle]; rfl⟩
      by_contra hnot
      simp only [not_or, ne_eq, not_not] at hnot
      exact hidle ⟨hnot.2, by simpa using hnot.1⟩
  case consoleWait =>
    by_cases hinput : p.consoleInput = []
    · exact .inr ⟨by simp [hinput], by rw [if_pos hinput]; exact hstate⟩
    · refine .inl ⟨hinput, ?_⟩
      rw [if_neg hinput]
      split <;> rfl

def Thread.exit (th : Thread) : Option UInt64 := if th.finished then some th.generation else none

theorem updateThread_generation (p : Process) (t : UInt64) (th : Thread) :
    (updateThread p t th).1.generation = th.generation := by
  unfold updateThread
  dsimp only
  repeat' split
  all_goals rfl

theorem updateThread_exit (p : Process) (t : UInt64) (th : Thread) :
    (updateThread p t th).1.exit = th.exit := by
  rcases updateThread_state p t th with ⟨hwoken, hstate⟩ | ⟨-, hstate⟩
  · have hwaiting : th.finished = false := by
      unfold Woken at hwoken
      unfold finished
      rcases hth : th.state
      all_goals simp_all
    rw [exit, exit, hwaiting, finished, hstate]
    rfl
  · rw [exit, exit, finished, finished, hstate, updateThread_generation]

theorem updateThread_input (hinput : p.consoleInput = q.consoleInput)
    (hwritable : p.writable = q.writable) : (updateThread p t th).2 = (updateThread q t' th).2 := by
  rcases hstate : th.state
  all_goals simp only [updateThread, hstate, hinput, hwritable]
  case sleepWait | futexWait | joinWait | handleWait | audioDrainWait =>
    split <;> split <;> rfl

/-- Two processes that differ in nothing but the waits that time ends. -/
structure Alike (p q : Process) : Prop where
  environment : p.environment = q.environment
  drain : p.drain = q.drain
  writable : p.writable = q.writable
  consoleInput : p.consoleInput = q.consoleInput
  exits : p.threads.map Thread.exit = q.threads.map Thread.exit

theorem Alike.refl (p : Process) : Alike p p := ⟨rfl, rfl, rfl, rfl, rfl⟩

theorem woken_congr (h : Alike p q) : Woken p t th ↔ Woken q t th := by
  have hjoin (r : Process) :
      (∃ joined ∈ r.threads, joined.generation = th.waitGeneration ∧ joined.finished) ↔
        some th.waitGeneration ∈ r.threads.map exit := by
    simp [exit, and_comm]
  unfold Woken
  cases th.state
  case joinWait => exact (hjoin p).trans (h.exits ▸ (hjoin q).symm)
  all_goals simp only [h.environment, h.drain, h.consoleInput]

theorem map_exit_updateAt (t : UInt64) (p : Process) (i : ℕ) :
    (updateAt t p i).threads.map exit = p.threads.map exit := by
  unfold updateAt
  split
  · rfl
  · rename_i th hth
    obtain ⟨hlt, rfl⟩ := List.getElem?_eq_some_iff.mp hth
    rw [List.map_set, updateThread_exit, ← List.getElem_map exit (h := by simpa using hlt),
      List.set_getElem_self]

theorem Alike.updateAt (h : Alike p q) (hthread : p.threads[i]? = q.threads[i]?) :
    Alike (updateAt t p i) (updateAt t' q i) := by
  have hexits : (NativeScheduler.updateAt t p i).threads.map exit =
      (NativeScheduler.updateAt t' q i).threads.map exit := by
    rw [map_exit_updateAt, map_exit_updateAt, h.exits]
  refine ⟨?_, ?_, ?_, ?_, hexits⟩
  all_goals
    unfold NativeScheduler.updateAt
    rw [hthread]
    split
  · exact h.environment
  · exact h.environment
  · exact h.drain
  · exact h.drain
  · exact h.writable
  · exact h.writable
  · exact h.consoleInput
  · exact updateThread_input h.consoleInput h.writable

theorem updateFirst_succ (t : UInt64) (p : Process) (n : ℕ) :
    updateFirst t p (n + 1) = updateAt t (updateFirst t p n) n := by
  rw [updateFirst, range_succ, foldl_append]
  rfl

theorem updateAt_getElem?_of_ne (h : i ≠ n) : (updateAt t p n).threads[i]? = p.threads[i]? := by
  unfold updateAt
  split
  · rfl
  · exact getElem?_set_ne (Ne.symm h)

theorem updateFirst_getElem?_of_le (h : n ≤ i) :
    (updateFirst t p n).threads[i]? = p.threads[i]? := by
  induction n with
  | zero => rfl
  | succ n ih =>
    rw [updateFirst_succ, updateAt_getElem?_of_ne (by omega), ih (by omega)]

theorem alike_updateFirst (t t' : UInt64) (p : Process) (n : ℕ) :
    Alike (updateFirst t p n) (updateFirst t' p n) := by
  induction n with
  | zero => exact .refl p
  | succ n ih =>
    rw [updateFirst_succ, updateFirst_succ]
    refine ih.updateAt ?_
    rw [updateFirst_getElem?_of_le (le_refl n), updateFirst_getElem?_of_le (le_refl n)]

theorem updateFirst_spec (t : UInt64) (p : Process) (n : ℕ) :
    (updateFirst t p n).environment = p.environment ∧ (updateFirst t p n).drain = p.drain := by
  induction n with
  | zero => exact ⟨rfl, rfl⟩
  | succ n ih =>
    rw [updateFirst_succ, updateAt]
    split
    · exact ih
    · exact ih

/-- A wait that a deadline or a timer handle can end. -/
def Thread.timed (th : Thread) : Prop :=
  th.state = .sleepWait ∨ th.state = .futexWait ∨ th.state = .handleWait ∨
    th.state = .audioDrainWait

theorem woken_updateFirst (h : th.timed) : Woken (updateFirst 0 p i) t th ↔ Woken p t th := by
  obtain ⟨henvironment, hdrain⟩ := updateFirst_spec 0 p i
  unfold Woken
  rcases h with h | h | h | h
  all_goals simp only [h, henvironment, hdrain]

theorem updateFirst_getElem?_of_lt (h : i < n) (hth : p.threads[i]? = some th) :
    (updateFirst t p n).threads[i]? = some (updateThread (updateFirst t p i) t th).1 := by
  induction n with
  | zero => exact absurd h (Nat.not_lt_zero i)
  | succ n ih =>
    rw [updateFirst_succ]
    rcases Nat.lt_succ_iff_lt_or_eq.mp h with hlt | rfl
    · rw [updateAt_getElem?_of_ne (by omega), ih hlt]
    · have hthread := updateFirst_getElem?_of_le (t := t) (p := p) (le_refl i)
      rw [hth] at hthread
      have hlt := (List.getElem?_eq_some_iff.mp hthread).1
      simp only [updateAt, hthread]
      rw [List.getElem?_set_self hlt]

end Wake

section Instants

variable {p : Process} {th : Thread} {t t' : UInt64} {i : ℕ}

/-- `update_waiting_threads` wakes the thread at the time. -/
def Wakes (p : Process) (i : ℕ) (t : UInt64) : Prop :=
  ∃ th th', p.threads[i]? = some th ∧ th.state ≠ .runnable ∧
    (updateWaitingThreads p t).threads[i]? = some th' ∧ th'.state = .runnable

/-- Termination ends every thread, and does not come while one can run. -/
theorem updateWaitingThreads_runnable :
    (∃ th, (updateWaitingThreads p t).threads[i]? = some th ∧ th.state = .runnable) ↔
      ∃ th, (updateFirst t p p.threads.length).threads[i]? = some th ∧ th.state = .runnable := by
  unfold updateWaitingThreads
  dsimp only
  split
  · rename_i hdead
    simp only [Bool.and_eq_true, Bool.not_eq_true'] at hdead
    constructor
    · rintro ⟨th, hth, hstate⟩
      simp only [Process.terminate, getElem?_map, Option.map_eq_some_iff] at hth
      obtain ⟨th, -, rfl⟩ := hth
      split at hstate <;> exact absurd hstate nofun
    · rintro ⟨th, hth, hstate⟩
      have hlive : (updateFirst t p p.threads.length).hasLiveThread := by
        refine any_eq_true.mpr ⟨th, mem_of_getElem? hth, ?_⟩
        simp [finished, hstate]
      exact absurd (hlive.symm.trans hdead.2) nofun
  · exact Iff.rfl

theorem wakes_iff : Wakes p i t ↔
    ∃ th, p.threads[i]? = some th ∧ th.state ≠ .runnable ∧ Woken (updateFirst 0 p i) t th := by
  have hmain : ∀ th, p.threads[i]? = some th → th.state ≠ .runnable →
      ((∃ th', (updateWaitingThreads p t).threads[i]? = some th' ∧ th'.state = .runnable) ↔
        Woken (updateFirst 0 p i) t th) := by
    intro th hth hstate
    have hlt := (List.getElem?_eq_some_iff.mp hth).1
    rw [updateWaitingThreads_runnable, updateFirst_getElem?_of_lt hlt hth,
      woken_congr (alike_updateFirst 0 t p i)]
    rcases updateThread_state (updateFirst t p i) t th with ⟨hwoken, hrun⟩ | ⟨hnot, hsame⟩
    · exact ⟨fun _ => hwoken, fun _ => ⟨_, rfl, hrun⟩⟩
    · refine ⟨?_, fun hwoken => absurd hwoken hnot⟩
      rintro ⟨th', hth', hrun⟩
      obtain rfl := Option.some.inj hth'
      exact absurd (hsame.symm.trans hrun) hstate
  simp only [Wakes, exists_and_left]
  exact exists_congr fun th => and_congr_right fun hth => and_congr_right (hmain th hth)

/-- An instant at which the passage of time alone wakes a thread: it is not woken at any
time before. -/
def TimeWakes (s : Scheduler) (t : UInt64) : Prop :=
  ∃ p ∈ s.processes, p.scheduled ∧ ∃ i, 0 < t ∧ Wakes p i t ∧ ∀ t' < t, ¬ Wakes p i t'

end Instants

section Nearest

variable {s : Scheduler} {p : Process} {th : Thread} {item : WaitItem} {d t w : UInt64}

theorem nearestDeadline_eq_some (h : nearestDeadline s = some d) :
    d ∈ s.deadlines ∧ ∀ d' ∈ s.deadlines, d ≤ d' := by
  have hspec := fun hirrefl htrans => Schedule.pick_eq_some hirrefl htrans h
  obtain ⟨hmem, -, hbest⟩ := hspec (fun _ => UInt64.lt_irrefl _) (fun _ _ _ => UInt64.lt_trans)
  exact ⟨hmem, fun d' hd' => UInt64.not_lt.mp (hbest d' hd' rfl)⟩

theorem exists_nearestDeadline (h : d ∈ s.deadlines) : ∃ d', nearestDeadline s = some d' ∧ d' ≤ d := by
  rcases hnearest : nearestDeadline s with - | d'
  · exact absurd (Schedule.pick_eq_none hnearest d h) nofun
  · exact ⟨d', rfl, (nearestDeadline_eq_some hnearest).2 d h⟩

theorem mem_deadlines (hp : p ∈ s.processes) (hscheduled : p.scheduled) (hth : th ∈ p.threads)
    (hwaits : th.waitsForDeadline) : th.deadline ∈ s.deadlines := by
  refine mem_append_left _ (mem_flatMap.mpr ⟨p, ?_, ?_⟩)
  · exact mem_filter.mpr ⟨hp, hscheduled⟩
  · exact mem_map_of_mem (mem_filter.mpr ⟨hth, hwaits⟩)

/-- A scheduler that reads the clock as `current` does not sleep past an instant at which
time wakes a thread: its sleep, rounded up or not, is at most the time up to that instant. -/
structure Punctual (s : Scheduler) (current : UInt64) : Prop where
  found : ∀ d, nearestDeadline s = some d → ∀ t, TimeWakes s t → d ≤ t
  notFound : nearestDeadline s = none → ∀ t, ¬ TimeWakes s t
  sleep : ∀ interval, idle s current = .sleep interval → ∀ t, TimeWakes s t →
    current < t ∧ interval ≤ t - current
  halt : idle s current = .halt → ∀ t, ¬ TimeWakes s t

/-- Every timer handle that a parked thread waits for is due no earlier than a deadline
that `nearest_deadline` looks at. A thread that something else wakes is not parked. -/
def TimersCovered (s : Scheduler) : Prop :=
  ∀ p ∈ s.processes, p.scheduled → ∀ th ∈ p.threads, th.state = .handleWait →
    Quiet (pollWaitItems { p.environment with clock := 0 } th.waitItems) →
    ∀ item ∈ th.waitItems, ∀ w, watchedTimer p.environment item = some w → ∃ d ∈ s.deadlines, d ≤ w

/-- The instants that a thread waits for: its deadline, and the timer handles that the
items of a `WAIT` watch. -/
def Thread.instants (env : Environment) (th : Thread) : List UInt64 :=
  (if th.waitsForDeadline then [th.deadline] else []) ++
    if th.state = .handleWait then th.waitItems.filterMap (watchedTimer env) else []

def Due (s : Scheduler) (w : UInt64) : Prop :=
  ∃ p ∈ s.processes, p.scheduled ∧ ∃ th ∈ p.threads, ¬ Woken p 0 th ∧
    w ∈ th.instants p.environment

/-- Where the sleep up to the nearest deadline is rounded up to `minSleep`, no parked
thread is due before its end. -/
def Unclamped (s : Scheduler) (current : UInt64) : Prop :=
  ∀ d, nearestDeadline s = some d → current < d → d - current < minSleep →
    ∀ w, Due s w → current < w ∧ minSleep ≤ w - current

theorem mem_instants {env : Environment} : w ∈ th.instants env ↔
    (th.waitsForDeadline ∧ w = th.deadline) ∨
      (th.state = .handleWait ∧ ∃ item ∈ th.waitItems, watchedTimer env item = some w) := by
  rw [Thread.instants, mem_append]
  split_ifs with hwaits hstate hstate
  all_goals simp [hwaits, hstate]

theorem TimeWakes.exists_due (h : TimeWakes s t) : ∃ w ≤ t, Due s w := by
  obtain ⟨p, hp, hscheduled, i, hpos, hwake, hbefore⟩ := h
  obtain ⟨th, hth, hstate, hwoken⟩ := wakes_iff.mp hwake
  have hzero : ¬ Woken (updateFirst 0 p i) 0 th := fun hzero =>
    hbefore 0 hpos (wakes_iff.mpr ⟨th, hth, hstate, hzero⟩)
  -- whatever else wakes a thread wakes it at zero, too
  have htimed : th.timed := by
    by_contra hnot
    simp only [timed, not_or] at hnot
    unfold Woken at hwoken hzero
    rcases hkind : th.state
    all_goals simp_all
  rw [woken_updateFirst htimed] at hwoken hzero
  suffices hinstant : ∃ w ≤ t, w ∈ th.instants p.environment by
    obtain ⟨w, hle, hw⟩ := hinstant
    exact ⟨w, hle, p, hp, hscheduled, th, mem_of_getElem? hth, hzero, hw⟩
  have hown : th.deadline ≠ 0 ∧ th.deadline ≤ t → ∃ w ≤ t, w ∈ th.instants p.environment := by
    rintro ⟨hne, hle⟩
    exact ⟨_, hle, mem_instants.mpr (.inl ⟨decide_eq_true ⟨htimed, hne⟩, rfl⟩)⟩
  have hout : th.timedOut t → th.deadline ≠ 0 ∧ th.deadline ≤ t := of_decide_eq_true
  unfold Woken at hwoken hzero
  rcases htimed with hkind | hkind | hkind | hkind
  all_goals simp only [hkind] at hwoken hzero
  · refine hown ⟨fun hnone => hzero ?_, hwoken⟩
    rw [hnone]
    exact UInt64.le_refl 0
  · exact hown (hout hwoken)
  · rcases hwoken with hdue | hready
    · exact hown (hout hdue)
    · -- what was quiet at zero is made ready by a watched timer
      by_contra hnone
      refine hzero (.inr ?_)
      rwa [← pollWaitItems_clock (t := t) fun item hitem w hwatched hdue => hnone
        ⟨w, hdue, mem_instants.mpr (.inr ⟨hkind, item, hitem, hwatched⟩)⟩]
  · rcases hwoken with hdue | hdrained
    · exact hown (hout hdue)
    · exact absurd (.inr hdrained) hzero

theorem exists_first_wake {i : ℕ} (h : Wakes p i w) :
    ∃ t ≤ w, Wakes p i t ∧ ∀ t' < t, ¬ Wakes p i t' := by
  classical
  have hexists : ∃ n : ℕ, ∃ t : UInt64, t.toNat = n ∧ Wakes p i t := ⟨w.toNat, w, rfl, h⟩
  obtain ⟨t, ht, hwake⟩ := Nat.find_spec hexists
  refine ⟨t, ?_, hwake, fun t' hlt hwake' => ?_⟩
  · rw [UInt64.le_iff_toNat_le, ht]
    exact Nat.find_min' hexists ⟨w, rfl, h⟩
  · rw [UInt64.lt_iff_toNat_lt, ht] at hlt
    exact Nat.find_min hexists hlt ⟨t', rfl, hwake'⟩

theorem woken_of_instant (h : w ∈ th.instants p.environment) : th.timed ∧ Woken p w th := by
  unfold Woken
  rcases mem_instants.mp h with ⟨hwaits, rfl⟩ | ⟨hstate, item, hitem, hwatched⟩
  · obtain ⟨htimed, hne⟩ := of_decide_eq_true hwaits
    refine ⟨htimed, ?_⟩
    rcases htimed with hkind | hkind | hkind | hkind
    all_goals simp [hkind, Thread.timedOut, hne]
  · refine ⟨.inr (.inr (.inl hstate)), ?_⟩
    simp only [hstate]
    exact .inr (not_quiet_of_due hitem hwatched (UInt64.le_refl w))

theorem Due.exists_timeWakes (h : Due s w) : ∃ t ≤ w, TimeWakes s t := by
  obtain ⟨p, hp, hscheduled, th, hth, hzero, hinstant⟩ := h
  obtain ⟨i, hget⟩ := mem_iff_getElem?.mp hth
  obtain ⟨htimed, hwoken⟩ := woken_of_instant hinstant
  have hstate : th.state ≠ .runnable := by
    rintro hrun
    simp [timed, hrun] at htimed
  have hwake : Wakes p i w :=
    wakes_iff.mpr ⟨th, hget, hstate, (woken_updateFirst htimed).mpr hwoken⟩
  obtain ⟨t, hle, hfirst, hbefore⟩ := exists_first_wake hwake
  refine ⟨t, hle, p, hp, hscheduled, i, UInt64.pos_iff_ne_zero.mpr ?_, hfirst, hbefore⟩
  rintro rfl
  obtain ⟨th', hget', -, hwoken'⟩ := wakes_iff.mp hfirst
  obtain rfl := Option.some.inj (hget.symm.trans hget')
  exact hzero ((woken_updateFirst htimed).mp hwoken')

theorem TimersCovered.exists_nearest (h : TimersCovered s) (hdue : Due s w) :
    ∃ d, nearestDeadline s = some d ∧ d ≤ w := by
  obtain ⟨p, hp, hscheduled, th, hth, hzero, hinstant⟩ := hdue
  have hdeadline : ∃ d ∈ s.deadlines, d ≤ w := by
    rcases mem_instants.mp hinstant with ⟨hwaits, rfl⟩ | ⟨hstate, item, hitem, hwatched⟩
    · exact ⟨_, mem_deadlines hp hscheduled hth hwaits, UInt64.le_refl _⟩
    · refine h p hp hscheduled th hth hstate ?_ item hitem w hwatched
      by_contra hnot
      refine hzero ?_
      simp only [Woken, hstate]
      exact .inr hnot
  obtain ⟨d, hd, hle⟩ := hdeadline
  obtain ⟨d', hd', hle'⟩ := exists_nearestDeadline hd
  exact ⟨d', hd', UInt64.le_trans hle' hle⟩

theorem sub_le_sub_of_lt {current : UInt64} (hlater : current < d) (hle : d ≤ t) :
    d - current ≤ t - current := by
  rw [UInt64.le_iff_toNat_le, UInt64.toNat_sub_of_le, UInt64.toNat_sub_of_le]
  all_goals simp only [UInt64.le_iff_toNat_le, UInt64.lt_iff_toNat_lt] at *
  all_goals omega

theorem max_minSleep (interval : UInt64) :
    max interval minSleep = if interval < minSleep then minSleep else interval := by
  have hmax : max interval minSleep = if interval ≤ minSleep then minSleep else interval := rfl
  rw [hmax]
  split_ifs with hle hlt hlt
  · rfl
  · exact UInt64.le_antisymm (UInt64.not_lt.mp hlt) hle
  · exact absurd (UInt64.le_of_lt hlt) hle
  · rfl

theorem punctual_of_covered {current : UInt64} (h : TimersCovered s)
    (hclamp : Unclamped s current) : Punctual s current := by
  have hnearest : ∀ t, TimeWakes s t → ∃ d, nearestDeadline s = some d ∧ d ≤ t := by
    intro t hwakes
    obtain ⟨w, hwt, hdue⟩ := hwakes.exists_due
    obtain ⟨d, hd, hle⟩ := h.exists_nearest hdue
    exact ⟨d, hd, UInt64.le_trans hle hwt⟩
  refine ⟨fun d hd t hwakes => ?_, fun hnone t hwakes => ?_, fun interval hidle t hwakes => ?_,
    fun hidle t hwakes => ?_⟩
  · obtain ⟨d', hd', hle⟩ := hnearest t hwakes
    obtain rfl := Option.some.inj (hd.symm.trans hd')
    exact hle
  · obtain ⟨d, hd, -⟩ := hnearest t hwakes
    exact absurd (hnone.symm.trans hd) (by simp)
  · obtain ⟨d, hd, hle⟩ := hnearest t hwakes
    simp only [idle, hd] at hidle
    split_ifs at hidle with hlater
    obtain rfl := Idle.sleep.inj hidle
    refine ⟨UInt64.lt_of_lt_of_le hlater hle, ?_⟩
    rw [max_minSleep]
    split_ifs with hshort
    · -- the sleep is rounded up, and ends before what the threads wait for
      obtain ⟨w, hwt, hdue⟩ := hwakes.exists_due
      obtain ⟨hahead, hlong⟩ := hclamp d hd hlater hshort w hdue
      exact UInt64.le_trans hlong (sub_le_sub_of_lt hahead hwt)
    · exact sub_le_sub_of_lt hlater hle
  · obtain ⟨d, hd, -⟩ := hnearest t hwakes
    simp only [idle, hd] at hidle
    split_ifs at hidle

theorem Punctual.timersCovered {current : UInt64} (h : Punctual s current) : TimersCovered s := by
  intro p hp hscheduled th hth hstate hquiet item hitem w hwatched
  have hzero : ¬ Woken p 0 th := by
    simp only [Woken, hstate, not_or, not_not]
    refine ⟨fun htimed => ?_, hquiet⟩
    obtain ⟨hne, hle⟩ := of_decide_eq_true htimed
    exact hne (UInt64.le_antisymm hle UInt64.zero_le)
  have hdue : Due s w := ⟨p, hp, hscheduled, th, hth, hzero,
    mem_instants.mpr (.inr ⟨hstate, item, hitem, hwatched⟩)⟩
  obtain ⟨t, hle, hwakes⟩ := hdue.exists_timeWakes
  rcases hnearest : nearestDeadline s with - | d
  · exact absurd hwakes (h.notFound hnearest t)
  · exact ⟨d, (nearestDeadline_eq_some hnearest).1,
      UInt64.le_trans (h.found d hnearest t hwakes) hle⟩

theorem Punctual.unclamped {current : UInt64} (h : Punctual s current) : Unclamped s current := by
  intro d hd hlater hshort w hdue
  have hidle : idle s current = .sleep minSleep := by
    simp only [idle, hd]
    rw [if_pos hlater, max_minSleep, if_pos hshort]
  obtain ⟨t, hle, hwakes⟩ := hdue.exists_timeWakes
  obtain ⟨hahead, hlong⟩ := h.sleep _ hidle t hwakes
  exact ⟨UInt64.lt_of_lt_of_le hahead hle, UInt64.le_trans hlong (sub_le_sub_of_lt hahead hle)⟩

/-- The scheduler is punctual exactly if a deadline covers every timer that a parked
thread waits for, and no parked thread is due within a sleep that is rounded up. -/
theorem punctual_iff (s : Scheduler) (current : UInt64) :
    Punctual s current ↔ TimersCovered s ∧ Unclamped s current := by
  constructor
  · intro h
    exact ⟨h.timersCovered, h.unclamped⟩
  · rintro ⟨h, hclamp⟩
    exact punctual_of_covered h hclamp

end Nearest

section Sample

def sampleTable : Table where
  slots index := if index = 0 then ⟨1, 0, 7, true⟩ else ⟨1, 0, 0, false⟩
  objects index :=
    if index = 0 then ⟨⟨fun word => if word = 0 then 1000000 else 0⟩, 1, 7, true⟩ else .zero
  limit := tableLimit
  activeHandles := 1
  activeObjects := 1
  initialized := true

def sampleEnvironment : Environment where
  handles := sampleTable
  clock := 0
  window := ⟨false, 0, 0, false⟩
  audio _ := .error .stale
  timerAcquired := true
  round := ⟨fun _ => .refused .ok, false, true⟩
  more := []

/-- A thread that waits for the timer, for ten seconds at most. -/
def sampleThread : Thread where
  state := .handleWait
  generation := 1
  waitGeneration := 0
  futexAddress := 0
  deadline := 10000000000
  consoleAddress := 0
  consoleLength := 0
  waitItemsAddress := 4096
  waitItems := [⟨encodeHandle 0 7 1, waitSignaled, 0⟩]
  audioToken := 0
  exitStatus := 0
  rax := .value 0

def sampleProcess : Process where
  active := true
  exiting := false
  faulted := false
  exitStatus := 0
  threads := [sampleThread]
  consoleInput := []
  environment := sampleEnvironment
  drain _ := .stale
  writable _ _ := true

def sampleScheduler : Scheduler := ⟨[sampleProcess], none⟩

/-- The scheduler sleeps ten seconds while a timer handle is due in one millisecond. -/
theorem sampleScheduler_oversleeps :
    idle sampleScheduler 0 = .sleep 10000000000 ∧ (∃ t ≤ 1000000, TimeWakes sampleScheduler t) ∧
      ¬ Punctual sampleScheduler 0 := by
  have hzero : ¬ Woken sampleProcess 0 sampleThread := by
    rintro (htimed | hready)
    · exact absurd htimed (by decide)
    · exact hready ⟨_, rfl⟩
  have hwakes : ∃ t ≤ 1000000, TimeWakes sampleScheduler t :=
    Due.exists_timeWakes ⟨sampleProcess, mem_singleton_self _, rfl, sampleThread,
      mem_singleton_self _, hzero, by decide⟩
  refine ⟨by decide, hwakes, fun hpunctual => ?_⟩
  obtain ⟨t, hle, hwakes⟩ := hwakes
  have hlate := hpunctual.found 10000000000 (by decide) t hwakes
  exact absurd (UInt64.le_trans hlate hle) (by decide)

end Sample

end OpenRFS.NativeScheduler
