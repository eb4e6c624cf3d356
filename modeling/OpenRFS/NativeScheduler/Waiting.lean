import OpenRFS.NativeWait.Poll
import OpenRFS.Schedule.Greedy

/-!
# Waiting threads of native processes

The scheduler of `native_process.c` runs one thread after the other. When no thread can
run, `updateWaitingThreads` has found nothing to wake in any process, and the scheduler
sleeps until the deadline that `nearestDeadline` finds, or halts until a device
interrupts.

What other parts of the kernel answer is a part of the process: what its handles, its
window and its sockets show, the state of the audio streams, and which user memory can be
written.
-/

namespace OpenRFS.NativeScheduler

open NativeWait

section Threads

inductive ThreadState where
  | unused | runnable | sleepWait | joinWait | futexWait | consoleWait | handleWait
  | audioDrainWait | exited | faulted
  deriving DecidableEq, Repr

inductive Answer where
  | value (n : ℤ)
  | timedOut
  | canceled
  | io
  | stale
  | fault
  | failed (error : WaitError)
  deriving DecidableEq, Repr

structure Thread where
  state : ThreadState
  generation : UInt64
  waitGeneration : UInt64
  futexAddress : UInt64
  deadline : UInt64
  consoleAddress : UInt64
  consoleLength : ℕ
  waitItemsAddress : UInt64
  waitItems : List WaitItem
  audioToken : UInt64
  exitStatus : ℤ
  rax : Answer

inductive DrainState where
  | complete | pending | canceled | error | stale
  deriving DecidableEq, Repr

structure Process where
  active : Bool
  exiting : Bool
  faulted : Bool
  exitStatus : ℤ
  threads : List Thread
  consoleInput : Bytes
  /-- What `poll_wait_items` finds; the clock is that of the call. -/
  environment : Environment
  /-- `audio_native_drain` for the streams of the process. -/
  drain : UInt64 → DrainState
  /-- `copy_to_user` succeeds for so many bytes at the address. -/
  writable : UInt64 → ℕ → Bool

def waitItemSize : ℕ := 16

def Thread.finished (th : Thread) : Bool := th.state = .exited ∨ th.state = .faulted

def Thread.timedOut (th : Thread) (now : UInt64) : Bool := th.deadline ≠ 0 ∧ th.deadline ≤ now

def Thread.wake (th : Thread) (rax : Answer) : Thread :=
  { th with deadline := 0, rax := rax, state := .runnable }

end Threads

section Update

def nothingReady : Except WaitError (List WaitItem × ℕ) → Bool
  | .ok (_, count) => count = 0
  | .error _ => false

def itemsLeft (items : List WaitItem) : Except WaitError (List WaitItem × ℕ) → List WaitItem
  | .ok (found, _) => found
  | .error _ => items

def pollAnswer (p : Process) (th : Thread) : Except WaitError (List WaitItem × ℕ) → Answer
  | .error e => .failed e
  | .ok (items, count) =>
    if !p.writable th.waitItemsAddress (items.length * waitItemSize) then .fault
    else if count = 0 then .timedOut
    else .value count

def drainAnswer (timedOut : Bool) : DrainState → Answer
  | .canceled => if timedOut then .timedOut else .canceled
  | .error => if timedOut then .timedOut else .io
  | .stale => if timedOut then .timedOut else .stale
  | .complete | .pending => if timedOut then .timedOut else .value 0

/-- One turn of the loop of `update_waiting_threads`: the thread, and the console input
that is left. -/
def updateThread (p : Process) (now : UInt64) (th : Thread) : Thread × Bytes :=
  match th.state with
  | .sleepWait =>
    if th.deadline ≤ now then (th.wake (.value 0), p.consoleInput) else (th, p.consoleInput)
  | .futexWait =>
    if th.timedOut now then ({ th.wake .timedOut with futexAddress := 0 }, p.consoleInput)
    else (th, p.consoleInput)
  | .joinWait =>
    match p.threads.find? fun joined =>
      decide (joined.generation = th.waitGeneration) && joined.finished with
    | none => (th, p.consoleInput)
    | some joined =>
      ({ th with waitGeneration := 0, rax := .value joined.exitStatus, state := .runnable },
        p.consoleInput)
  | .handleWait =>
    let polled := pollWaitItems { p.environment with clock := now } th.waitItems
    if nothingReady polled && !th.timedOut now then
      ({ th with waitItems := itemsLeft th.waitItems polled }, p.consoleInput)
    else
      ({ th.wake (pollAnswer p th polled) with waitItemsAddress := 0, waitItems := [] },
        p.consoleInput)
  | .audioDrainWait =>
    if p.drain th.audioToken = .pending ∧ !th.timedOut now then (th, p.consoleInput)
    else
      ({ th.wake (drainAnswer (th.timedOut now) (p.drain th.audioToken)) with audioToken := 0 },
        p.consoleInput)
  | .consoleWait =>
    if p.consoleInput = [] then (th, p.consoleInput)
    else
      let copied := min p.consoleInput.length th.consoleLength
      let th' := { th with consoleAddress := 0, consoleLength := 0, state := .runnable }
      if p.writable th.consoleAddress copied then
        ({ th' with rax := .value copied }, p.consoleInput.drop copied)
      else ({ th' with rax := .fault }, p.consoleInput)
  | .unused | .runnable | .exited | .faulted => (th, p.consoleInput)

def updateAt (now : UInt64) (p : Process) (i : ℕ) : Process :=
  match p.threads[i]? with
  | none => p
  | some th =>
    { p with
      threads := p.threads.set i (updateThread p now th).1
      consoleInput := (updateThread p now th).2 }

def updateFirst (now : UInt64) (p : Process) (n : ℕ) : Process :=
  (List.range n).foldl (updateAt now) p

def Process.hasLiveThread (p : Process) : Bool :=
  p.threads.any fun th => !th.finished && decide (th.state ≠ .unused)

def Process.terminate (p : Process) (status : ℤ) : Process :=
  { p with
    exitStatus := status
    exiting := true
    threads := p.threads.map fun th =>
      { th with state := if th.state = .faulted then .faulted else .exited, exitStatus := status } }

def faultStatus : ℤ := -14

def updateWaitingThreads (p : Process) (now : UInt64) : Process :=
  let p := updateFirst now p p.threads.length
  if !p.exiting && !p.hasLiveThread then
    p.terminate (if p.faulted then faultStatus else p.exitStatus)
  else p

end Update

section Sleep

/-- The processes, and the deadline of `audio_native_next_deadline`. -/
structure Scheduler where
  processes : List Process
  audioDeadline : Option UInt64

def Process.scheduled (p : Process) : Bool := p.active && !p.exiting

def Thread.waitsForDeadline (th : Thread) : Bool :=
  (th.state = .sleepWait ∨ th.state = .futexWait ∨ th.state = .handleWait ∨
    th.state = .audioDrainWait) ∧ th.deadline ≠ 0

def Scheduler.deadlines (s : Scheduler) : List UInt64 :=
  (s.processes.filter Process.scheduled).flatMap
    (fun p => (p.threads.filter Thread.waitsForDeadline).map Thread.deadline) ++
    s.audioDeadline.toList

def nearestDeadline (s : Scheduler) : Option UInt64 :=
  Schedule.pick (· < ·) (fun _ => true) s.deadlines

def minSleep : UInt64 := 100000

inductive Idle where
  /-- The nearest deadline has passed; the loop goes on. -/
  | goOn
  /-- `timer_sleep_ns`. -/
  | sleep (interval : UInt64)
  /-- `cpu_enable_and_halt` with no timer programmed. -/
  | halt
  /-- `report_scheduler_stall`, and every process is terminated. -/
  | stall
  deriving DecidableEq, Repr

def Scheduler.anyWaiter (s : Scheduler) (states : List ThreadState) : Bool :=
  (s.processes.filter Process.scheduled).any fun p => p.threads.any fun th =>
    decide (th.state ∈ states)

/-- The branch of `native_process_run` without a runnable thread; the clock is read
again for it. -/
def idle (s : Scheduler) (current : UInt64) : Idle :=
  match nearestDeadline s with
  | some deadline =>
    if deadline > current then .sleep (max (deadline - current) minSleep) else .goOn
  | none =>
    if s.anyWaiter [.handleWait, .audioDrainWait] || s.anyWaiter [.consoleWait] then .halt
    else .stall

end Sleep

end OpenRFS.NativeScheduler
