import OpenRFS.Schedule.Greedy

/-!
# Deadline timers

`timer.c` keeps the pending deadlines in a table and points the one-shot timer of the
local APIC at the earliest of them. Deadlines are armed and cancelled by calls; the
interrupt of the one-shot timer releases what the clock has reached, and points the
hardware at what is left.

A callback runs inside the interrupt and may arm and cancel timers itself, so the
interrupt is taken in its own steps: it begins, it releases one entry after the other,
and it ends. Calls may come between these steps.
-/

namespace OpenRFS.Timer

section Hardware

def minimumInterval : ℕ := 100000

def second : ℕ := 1000000000

def maxCount : ℕ := 2 ^ 32 - 1

/-- `count_for_nanoseconds`: the count of an interval, if the count register can hold
it. The arithmetic is that of 64-bit words. -/
def countForNanoseconds (rate nanoseconds : ℕ) : Option ℕ :=
  if rate = 0 ∨ nanoseconds = 0 then none
  else if nanoseconds / second > maxCount / rate then none
  else
    let requested := (nanoseconds / second * rate +
      nanoseconds % second * rate % 2 ^ 64 / second) % 2 ^ 64
    if requested = 0 ∨ requested > maxCount then none else some requested

/-- The one-shot timer counts: the reading of the clock when the count was written,
and the count. -/
structure Arming where
  written : ℕ
  count : ℕ
  deriving DecidableEq, Repr

/-- The count has run down by the instant. The timer takes `rate` counts a second. -/
def Arming.FiresBy (rate : ℕ) (arming : Arming) (instant : ℕ) : Prop :=
  arming.written ≤ instant ∧ arming.count * second ≤ (instant - arming.written) * rate

instance (rate : ℕ) (arming : Arming) (instant : ℕ) : Decidable (arming.FiresBy rate instant) :=
  inferInstanceAs (Decidable (_ ∧ _))

end Hardware

section State

structure Entry where
  deadline : ℕ
  identifier : ℕ
  deriving DecidableEq, Repr

structure State where
  /-- A slot that is not in use holds nothing. -/
  entries : List (Option Entry)
  nextIdentifier : ℕ
  /-- What the one-shot timer is armed with. -/
  armed : Option Arming
  /-- `last_reported_ns` of the clock. -/
  clock : ℕ
  /-- The instant that the running interrupt releases entries for. -/
  handling : Option ℕ
  deriving DecidableEq, Repr

/-- `timer_start` on a table of `TIMER_MAX_PENDING` slots. -/
def started (clock : ℕ) : State where
  entries := List.replicate 32 none
  nextIdentifier := 1
  armed := none
  clock := clock
  handling := none

/-- `clock_monotonic_ns`: a reading that lies behind the last one is held back. -/
def State.read (t : State) (candidate : ℕ) : State := { t with clock := max candidate t.clock }

def inUse (entries : List (Option Entry)) (slot : ℕ) : Bool := (entries[slot]?.join).isSome

/-- The deadline of a slot; a slot that is not in use has been zeroed. -/
def deadlineOf (entries : List (Option Entry)) (slot : ℕ) : ℕ :=
  (entries[slot]?.join).elim 0 Entry.deadline

/-- The earliest slot that is in use and satisfies the condition, the lower one of two
that are equal. -/
def earliest (entries : List (Option Entry)) (condition : ℕ → Bool) : Option ℕ :=
  Schedule.pick (fun i j => deadlineOf entries i < deadlineOf entries j)
    (fun i => inUse entries i && condition (deadlineOf entries i)) (List.range entries.length)

def earliestDeadline (entries : List (Option Entry)) : Option ℕ :=
  (earliest entries fun _ => true).map (deadlineOf entries)

def freeSlot (entries : List (Option Entry)) : Option ℕ := entries.findIdx? Option.isNone

def slotOf (entries : List (Option Entry)) (identifier : ℕ) : Option ℕ :=
  if identifier = 0 then none
  else entries.findIdx? fun slot => slot.any fun e => e.identifier = identifier

end State

section Calls

inductive Status where
  | ok | noCapacity | badInterval | unknownTimer | hardwareFailure
  deriving DecidableEq, Repr

variable (rate : ℕ)

/-- `reprogram`. The one-shot timer is disarmed first. -/
def reprogram (candidate : ℕ) (t : State) : State × Status :=
  let t := { t with armed := none }
  match earliestDeadline t.entries with
  | none => (t, .ok)
  | some deadline =>
    let t := t.read candidate
    match countForNanoseconds rate (max (deadline - t.clock) minimumInterval) with
    | none => (t, .hardwareFailure)
    | some count => ({ t with armed := some ⟨t.clock, count⟩ }, .ok)

def State.clear (t : State) (slot : ℕ) : State := { t with entries := t.entries.set slot none }

def State.add (t : State) (slot deadline : ℕ) : State :=
  { t with
    entries := t.entries.set slot (some ⟨deadline, t.nextIdentifier⟩)
    nextIdentifier := (t.nextIdentifier + 1) % 2 ^ 64 }

/-- `timer_arm`. The clock is read for the check of the deadline, and again when the
hardware is programmed. -/
def timerArm (deadline checked programmed : ℕ) (t : State) : State × Status :=
  let t := t.read checked
  if deadline < t.clock ∨ deadline - t.clock < minimumInterval then (t, .badInterval)
  else
    match freeSlot t.entries with
    | none => (t, .noCapacity)
    | some slot =>
      let programming := reprogram rate programmed (t.add slot deadline)
      if programming.2 = .ok then programming
      else (programming.1.clear slot, .hardwareFailure)

def timerCancel (identifier programmed : ℕ) (t : State) : State × Status :=
  match slotOf t.entries identifier with
  | none => (t, .unknownTimer)
  | some slot => reprogram rate programmed (t.clear slot)

end Calls

section Events

/-- What happens to the timers. The numbers beside the arguments of a call are the
readings the clock offers while it runs. -/
inductive Event where
  | arm (deadline checked programmed : ℕ)
  | cancel (identifier programmed : ℕ)
  /-- The interrupt of the one-shot timer begins. -/
  | expiry (reached : ℕ)
  /-- One turn of the loop of `expire_reached`; the callback may call after it. -/
  | release
  /-- Nothing that was reached is left, and the interrupt ends. -/
  | done (programmed : ℕ)
  deriving DecidableEq, Repr

variable (rate : ℕ)

/-- `apic_timer_handler` and `on_expiry` up to the first turn of `expire_reached`. -/
def expiry (reached : ℕ) (t : State) : Option State :=
  if t.armed = none ∨ t.handling ≠ none then none
  else
    let t := { t with armed := none }.read reached
    some { t with handling := some t.clock }

def release (t : State) : Option State := do
  let now ← t.handling
  let slot ← earliest t.entries fun deadline => decide (deadline ≤ now)
  return t.clear slot

def done (programmed : ℕ) (t : State) : Option State := do
  let now ← t.handling
  if (earliest t.entries fun deadline => decide (deadline ≤ now)).isSome then none
  else return { (reprogram rate programmed t).1 with handling := none }

/-- An event that cannot happen in the state leads nowhere. -/
def step (t : State) : Event → Option State
  | .arm deadline checked programmed => some (timerArm rate deadline checked programmed t).1
  | .cancel identifier programmed => some (timerCancel rate identifier programmed t).1
  | .expiry reached => expiry reached t
  | .release => release t
  | .done programmed => done rate programmed t

def run (t : State) (events : List Event) : Option State := events.foldlM (step rate) t

end Events

end OpenRFS.Timer
