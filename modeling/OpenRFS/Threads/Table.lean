import OpenRFS.Schedule.Rotation

/-!
# The kernel's threads

`thread.c` keeps the threads of the kernel in a table of eight slots and rotates
through them, on demand or when a quantum expires. A thread that switches away is
resumed inside the call in which it did so. Only one call has anything left to do
then: `thread_join` looks at its target again. So the slot of a thread carries an
`Activity`, the place at which it goes on.

A step is one piece of a call between two points at which another thread may come in.
`none` is a panic, or a step that the running thread is not about to make.
-/

namespace OpenRFS.Threads

abbrev capacity : ℕ := 8

-- numerals for the slots
scoped instance capacity_neZero : NeZero capacity := ⟨by decide⟩

abbrev stackPages : ℕ := 4

inductive ThreadState
  | unused | ready | running | exited
  deriving DecidableEq, Repr

inductive Status
  | ok | notStarted | interruptsEnabled | noCapacity | outOfFrames | mappingFailure | badIdentifier
  | notTheBootThread | threadsStillRunnable | noTimer | noQuantum | alreadyPreemptive
  | notPreemptive | validationFailure
  deriving DecidableEq, Repr

/-- `struct thread`, without its stack and its entry. -/
structure Thread where
  identifier : ℕ
  state : ThreadState
  bootThread : Bool
  deriving DecidableEq, Repr

def Thread.clear : Thread := ⟨0, .unused, false⟩

/-- Where a thread goes on: anywhere in its own code, or in the loop of `thread_join`
for an identifier and the slot found for it. There it looks at the target, or has
found it alive and is about to yield. -/
inductive Activity
  | free
  | joining (identifier : ℕ) (target : Fin capacity) (yielding : Bool)
  deriving DecidableEq, Repr

/-- The table and the static variables, with the places at which the threads go on. -/
structure State where
  threads : Fin capacity → Thread
  activity : Fin capacity → Activity
  currentSlot : Fin capacity
  nextIdentifier : ℕ
  reschedulePending : Bool
  active : Bool
  live : ℕ
  ready : ℕ
  exited : ℕ
  stackFrames : ℕ
  preemptive : Bool

def State.stateOf (s : State) (slot : Fin capacity) : ThreadState := (s.threads slot).state

def State.setThread (s : State) (slot : Fin capacity) (thread : Thread) : State :=
  { s with threads := Function.update s.threads slot thread }

def State.setState (s : State) (slot : Fin capacity) (state : ThreadState) : State :=
  s.setThread slot { s.threads slot with state := state }

def State.setActivity (s : State) (slot : Fin capacity) (activity : Activity) : State :=
  { s with activity := Function.update s.activity slot activity }

def State.countState (s : State) (p : ThreadState → Bool) : ℕ :=
  (List.finRange capacity).countP fun slot => p (s.stateOf slot)

def isLive (state : ThreadState) : Bool := state = .ready ∨ state = .running

def recount (s : State) : State :=
  { s with
    live := s.countState isLive
    ready := s.countState (· = .ready)
    exited := s.countState (· = .exited) }

def find (s : State) (identifier : ℕ) : Option (Fin capacity) :=
  if identifier = 0 then none
  else
    (List.finRange capacity).find? fun slot =>
      s.stateOf slot ≠ .unused ∧ (s.threads slot).identifier = identifier

def nextReadySlot (s : State) (slot : Fin capacity) : Fin capacity :=
  Schedule.nextReady (fun slot => s.stateOf slot = .ready) slot

def otherSlots : List (Fin capacity) := (List.finRange capacity).tail

def started : State :=
  recount
    { threads := fun slot => if slot = 0 then ⟨1, .running, true⟩ else .clear
      activity := fun _ => .free
      currentSlot := 0
      nextIdentifier := 2
      reschedulePending := false
      active := true
      live := 0
      ready := 0
      exited := 0
      stackFrames := 0
      preemptive := false }

/-! ### Calls -/

/-- What a step returns to its caller, and the slot whose thread it resumes. -/
structure Outcome where
  returned : Option Status
  resumed : Option (Fin capacity)
  deriving DecidableEq, Repr

/-- A call that returns without a switch. -/
def returns (status : Status) : Outcome := ⟨some status, none⟩

def switchTo (s : State) (next : Fin capacity) : State :=
  recount { s.setState next .running with currentSlot := next }

def switchToNext (s : State) : Option (Fin capacity) × State :=
  let previous := s.currentSlot
  let next := nextReadySlot s previous
  if next = previous then (none, s)
  else
    let s := if s.stateOf previous = .running then s.setState previous .ready else s
    (some next, switchTo s next)

/-- `thread_create`. `interrupts` says whether interrupts are enabled, and `mapped` is
the status of `map_stack`. The identifier is a `uint64_t`. -/
def threadCreate (s : State) (interrupts : Bool) (mapped : Status) : Status × State :=
  if s.active = false then (.notStarted, s)
  else if interrupts then (.interruptsEnabled, s)
  else
    match otherSlots.find? fun slot => s.stateOf slot = .unused with
    | none => (.noCapacity, s)
    | some chosen =>
      if mapped ≠ .ok then (mapped, s)
      else
        let created :=
          { s with
            threads := Function.update s.threads chosen ⟨s.nextIdentifier, .ready, false⟩
            activity := Function.update s.activity chosen .free
            nextIdentifier := (s.nextIdentifier + 1) % 2 ^ 64
            stackFrames := s.stackFrames + stackPages }
        (.ok, recount created)

def threadExit (s : State) : Option (Fin capacity × State) :=
  if s.active = false then none
  else if (s.threads s.currentSlot).bootThread then none
  else
    let previous := s.currentSlot
    let s := s.setState previous .exited
    let next := nextReadySlot s previous
    if next = previous then none else some (next, switchTo s next)

def joinTarget (s : State) (identifier : ℕ) : Except Status (Fin capacity) :=
  if s.active = false then .error .notStarted
  else
    match find s identifier with
    | none => .error .badIdentifier
    | some target =>
      if (s.threads target).identifier = (s.threads s.currentSlot).identifier then
        .error .badIdentifier
      else .ok target

/-- `quantum_expired`; `armed` says whether the next quantum could be armed. -/
def quantumExpired (s : State) (armed : Bool) : Option State :=
  if s.active = false ∨ s.preemptive = false then some s
  else if armed = false then none
  else if nextReadySlot s s.currentSlot ≠ s.currentSlot then
    some { s with reschedulePending := true }
  else some s

def onInterruptReturn (s : State) : Option (Fin capacity) × State :=
  if s.reschedulePending = false then (none, s)
  else
    let s := { s with reschedulePending := false }
    if s.active = false then (none, s) else switchToNext s

def enablePreemption (s : State) (timerStarted armed : Bool) : Status × State :=
  if s.active = false then (.notStarted, s)
  else if s.preemptive then (.alreadyPreemptive, s)
  else if timerStarted = false then (.noTimer, s)
  else if armed = false then (.noQuantum, s)
  else (.ok, { s with preemptive := true })

def disablePreemption (s : State) : Status × State :=
  if s.active = false then (.notStarted, s)
  else if s.preemptive = false then (.notPreemptive, s)
  else (.ok, { s with preemptive := false, reschedulePending := false })

/-- The loop of `thread_stop` that releases the stacks of exited threads. `unmapped` is
the number of pages that `unmap_stack` releases for a slot; it succeeds if these are
all of them. -/
def releaseExited (unmapped : Fin capacity → Fin (stackPages + 1)) :
    List (Fin capacity) → State → Status × State
  | [], s => (.ok, s)
  | slot :: rest, s =>
    if s.stateOf slot = .exited then
      let s := { s with stackFrames := (s.stackFrames + 2 ^ 64 - unmapped slot) % 2 ^ 64 }
      if unmapped slot ≠ Fin.last stackPages then (.validationFailure, s)
      else releaseExited unmapped rest (s.setThread slot .clear)
    else releaseExited unmapped rest s

/-- `thread_stop` after its checks. `freed` says whether the table could be freed. -/
def tearDown (s : State) (unmapped : Fin capacity → Fin (stackPages + 1)) (freed : Bool) :
    Status × State :=
  let released := releaseExited unmapped otherSlots s
  if released.1 ≠ .ok then released
  else if released.2.stackFrames ≠ 0 then (.validationFailure, released.2)
  else if freed = false then (.validationFailure, released.2)
  else
    (.ok,
      { released.2 with
        threads := fun _ => .clear
        active := false
        preemptive := false
        reschedulePending := false
        live := 0
        ready := 0
        exited := 0
        currentSlot := 0 })

def threadStop (s : State) (interrupts : Bool) (unmapped : Fin capacity → Fin (stackPages + 1))
    (freed : Bool) : Status × State :=
  if s.active = false then (.notStarted, s)
  else if interrupts then (.interruptsEnabled, s)
  else if (s.threads s.currentSlot).bootThread = false then (.notTheBootThread, s)
  else
    let s := if s.preemptive then (disablePreemption s).2 else s
    if otherSlots.any fun slot => isLive (s.stateOf slot) then (.threadsStillRunnable, s)
    else tearDown s unmapped freed

/-! ### Steps -/

inductive Input
  | create (interrupts : Bool) (mapped : Status)
  | yield
  | exit
  | joinStart (identifier : ℕ)
  | joinCheck
  | joinYield
  | quantumExpired (armed : Bool)
  | interruptReturn
  | enablePreemption (timerStarted armed : Bool)
  | disablePreemption
  | stop (interrupts : Bool) (unmapped : Fin capacity → Fin (stackPages + 1)) (freed : Bool)

def answered (out : Status × State) : Outcome × State := (returns out.1, out.2)

def switched (out : Option (Fin capacity) × State) : Outcome × State := (⟨none, out.1⟩, out.2)

def step (s : State) : Input → Option (Outcome × State)
  | .create interrupts mapped =>
    if s.activity s.currentSlot = .free then some (answered (threadCreate s interrupts mapped))
    else none
  | .yield =>
    if s.activity s.currentSlot = .free then
      some (switched (if s.active = false then (none, s) else switchToNext s))
    else none
  | .exit =>
    if s.activity s.currentSlot = .free then
      (threadExit s).map fun out => (⟨none, some out.1⟩, out.2)
    else none
  | .joinStart identifier =>
    if s.activity s.currentSlot = .free then
      match joinTarget s identifier with
      | .error status => some (returns status, s)
      | .ok target =>
        some (⟨none, none⟩, s.setActivity s.currentSlot (.joining identifier target false))
    else none
  | .joinCheck =>
    match s.activity s.currentSlot with
    | .joining identifier target false =>
      if s.stateOf target ≠ .exited then
        some (⟨none, none⟩, s.setActivity s.currentSlot (.joining identifier target true))
      else some (returns .ok, s.setActivity s.currentSlot .free)
    | _ => none
  | .joinYield =>
    match s.activity s.currentSlot with
    | .joining identifier target true =>
      let s := s.setActivity s.currentSlot (.joining identifier target false)
      some (switched (if s.active = false then (none, s) else switchToNext s))
    | _ => none
  | .quantumExpired armed => (quantumExpired s armed).map fun s => (⟨none, none⟩, s)
  | .interruptReturn => some (switched (onInterruptReturn s))
  | .enablePreemption timerStarted armed =>
    if s.activity s.currentSlot = .free then
      some (answered (enablePreemption s timerStarted armed))
    else none
  | .disablePreemption =>
    if s.activity s.currentSlot = .free then some (answered (disablePreemption s)) else none
  | .stop interrupts unmapped freed =>
    if s.activity s.currentSlot = .free then
      some (answered (threadStop s interrupts unmapped freed))
    else none

structure Entry where
  before : State
  input : Input
  outcome : Outcome
  after : State

inductive Run : State → List Entry → State → Prop
  | nil (s : State) : Run s [] s
  | cons {s s' s'' : State} {input : Input} {outcome : Outcome} {rest : List Entry} :
      step s input = some (outcome, s') → Run s' rest s'' →
        Run s (⟨s, input, outcome, s'⟩ :: rest) s''

end OpenRFS.Threads
