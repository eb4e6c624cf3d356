import Mathlib

/-!
# The event queue of a native window

`native_ui_event` appends to a queue of 64 events and `EVENT_READ` takes from its front. A
pointer move replaces a pointer move at the end. By the manual a full queue drops the newest
event; the code evicts the first pointer move, or the oldest event, and takes the newest in.
-/

namespace OpenRFS.NativeProcess.Events

open List

inductive Kind
  | key | pointerMove | pointerButton | focus | close
  deriving DecidableEq, Repr

structure Data where
  monotonicNs : ℕ
  x : ℤ
  y : ℤ
  deltaX : ℤ
  deltaY : ℤ
  code : ℕ
  value : ℕ
  modifiers : ℕ
  deriving DecidableEq, Repr

/-- A queued event, with the number of its delivery, which the code does not store. -/
structure Event where
  kind : Kind
  data : Data
  arrival : ℕ
  deriving DecidableEq, Repr

structure State where
  events : List Event
  overflowPending : Bool
  arrivals : ℕ
  deriving DecidableEq, Repr

inductive Call
  /-- A source event; the type `none` is one that the switch does not know. -/
  | deliver (kind : Option Kind) (data : Data)
  /-- `EVENT_READ` at a clock reading, into a range that is writable or not. -/
  | read (writable : Bool) (now : ℕ)
  deriving DecidableEq, Repr

inductive Answer
  | done | event (e : Event) | overflow (monotonicNs : ℕ) | again | fault
  deriving DecidableEq, Repr

def capacity : ℕ := 64

/-- Input needs `RSD_CAP_INPUT`. -/
def Kind.permitted (input : Bool) : Kind → Bool
  | .key | .pointerMove | .pointerButton => input
  | .focus | .close => true

def coalesces (events : List Event) (kind : Kind) : Bool :=
  kind = .pointerMove ∧ events.getLast?.any (·.kind = .pointerMove)

/-- The event that makes room for another one: the first pointer move, or the oldest. -/
def evicted (events : List Event) : ℕ := (events.findIdx? (·.kind = .pointerMove)).getD 0

def nativeUiEvent (input : Bool) (kind : Option Kind) (data : Data) (s : State) : State :=
  let next := { s with arrivals := s.arrivals + 1 }
  match kind with
  | none => next
  | some kind =>
    if !kind.permitted input then next
    else if coalesces s.events kind then
      { next with events := s.events.dropLast ++ [⟨kind, data, s.arrivals⟩] }
    else if s.events.length = capacity then
      { next with
        events := s.events.eraseIdx (evicted s.events) ++ [⟨kind, data, s.arrivals⟩]
        overflowPending := true }
    else { next with events := s.events ++ [⟨kind, data, s.arrivals⟩] }

def syscallEventRead (writable : Bool) (now : ℕ) (s : State) : Answer × State :=
  if !writable then (.fault, s)
  else if s.overflowPending then (.overflow now, { s with overflowPending := false })
  else
    match s.events with
    | [] => (.again, s)
    | e :: events => (.event e, { s with events := events })

def step (input : Bool) (s : State) : Call → Answer × State
  | .deliver kind data => (.done, nativeUiEvent input kind data s)
  | .read writable now => syscallEventRead writable now s

def run (input : Bool) (calls : List Call) : State :=
  calls.foldl (fun s call => (step input s call).2) ⟨[], false, 0⟩

/-- The call delivers an event that is to take an entry of its own, and there is none. -/
def Dropping (input : Bool) (s : State) (call : Call) : Prop :=
  s.events.length = capacity ∧ ∃ kind data, call = .deliver (some kind) data ∧
    kind.permitted input ∧ coalesces s.events kind = false

/-- What the manual promises of a call. -/
structure Disciplined (input : Bool) (s : State) (call : Call) : Prop where
  kept : ∀ e ∈ s.events, e ∈ (step input s call).2.events ∨ (step input s call).1 = .event e ∨
    (∃ data, call = .deliver (some .pointerMove) data) ∧ s.events.getLast? = some e ∧
      e.kind = .pointerMove
  ordered : (step input s call).2.events.Pairwise (·.arrival < ·.arrival)
  front : ∀ e, (step input s call).1 = .event e → s.events = e :: (step input s call).2.events
  newest : Dropping input s call → (step input s call).2.events = s.events
  pending : (step input s call).2.overflowPending ↔
    Dropping input s call ∨ s.overflowPending ∧ ∀ now, call ≠ .read true now
  overflow : ∀ now, call = .read true now →
    ((step input s call).1 = .overflow now ↔ s.overflowPending)

section
variable {input : Bool} {s : State}

structure Queued (s : State) : Prop where
  ordered : s.events.Pairwise (·.arrival < ·.arrival)
  earlier : ∀ e ∈ s.events, e.arrival < s.arrivals

theorem Queued.concat {events : List Event} (h : Queued s) (hsub : events.Sublist s.events)
    (kind : Kind) (data : Data) (pending : Bool) :
    Queued ⟨events ++ [⟨kind, data, s.arrivals⟩], pending, s.arrivals + 1⟩ := by
  constructor
  · refine pairwise_append.mpr ⟨h.ordered.sublist hsub, pairwise_singleton _ _, ?_⟩
    intro e he e' he'
    rw [mem_singleton.mp he']
    exact h.earlier e (hsub.subset he)
  · intro e he
    rcases mem_append.mp he with he | he
    · exact Nat.lt_succ_of_lt (h.earlier e (hsub.subset he))
    · rw [mem_singleton.mp he]
      exact Nat.lt_succ_self _

theorem Queued.step (h : Queued s) (call : Call) : Queued (step input s call).2 := by
  have hlater : Queued { s with arrivals := s.arrivals + 1 } :=
    ⟨h.ordered, fun e he => Nat.lt_succ_of_lt (h.earlier e he)⟩
  cases call with
  | deliver kind data =>
    cases kind with
    | none => exact hlater
    | some kind =>
      simp only [Events.step, nativeUiEvent]
      split_ifs
      · exact hlater
      · exact h.concat (dropLast_sublist _) kind data _
      · exact h.concat (eraseIdx_sublist _ _) kind data _
      · exact h.concat (Sublist.refl _) kind data _
  | read writable now =>
    simp only [Events.step, syscallEventRead]
    split_ifs
    · exact h
    · exact ⟨h.ordered, h.earlier⟩
    · split
      · exact h
      · rename_i heq
        exact ⟨(pairwise_cons.mp (heq ▸ h.ordered)).2,
          fun e he => h.earlier e (heq ▸ mem_cons_of_mem _ he)⟩

theorem Queued.run (calls : List Call) : Queued (run input calls) := by
  suffices H : ∀ s, Queued s → Queued (calls.foldl (fun s call => (Events.step input s call).2) s)
    from H _ ⟨.nil, nofun⟩
  induction calls with
  | nil => exact fun _ h => h
  | cons call calls ih => exact fun s h => ih _ (h.step call)

/-- A delivery to a queue with room keeps the events, a replaced pointer move apart. -/
theorem kept_of_room {kind : Option Kind} {data : Data}
    (h : ¬ Dropping input s (.deliver kind data)) :
    (nativeUiEvent input kind data s).overflowPending = s.overflowPending ∧
      ∀ e ∈ s.events, e ∈ (nativeUiEvent input kind data s).events ∨
        kind = some .pointerMove ∧ s.events.getLast? = some e ∧ e.kind = .pointerMove := by
  cases kind with
  | none => exact ⟨rfl, fun e he => .inl he⟩
  | some kind =>
    simp only [nativeUiEvent]
    split_ifs with hpermitted hcoalesces hfull
    · exact ⟨rfl, fun e he => .inl he⟩
    · refine ⟨rfl, fun e he => ?_⟩
      simp only [coalesces, decide_eq_true_eq, Option.any_eq_true] at hcoalesces
      obtain ⟨rfl, last, hlast, hmove⟩ := hcoalesces
      obtain ⟨events, hevents⟩ := getLast?_eq_some_iff.mp hlast
      rw [hevents, mem_append, mem_singleton] at he
      rw [hlast, hevents, dropLast_concat]
      rcases he with he | rfl
      · exact .inl (mem_append_left _ he)
      · exact .inr ⟨rfl, rfl, hmove⟩
    · exact absurd ⟨hfull, kind, data, rfl, by simpa using hpermitted, by simpa using hcoalesces⟩ h
    · exact ⟨rfl, fun e he => .inl (mem_append_left _ he)⟩

/-- One call keeps the promise exactly if it does not meet a full queue. -/
theorem disciplined_iff (h : Queued s) (call : Call) :
    Disciplined input s call ↔ ¬ Dropping input s call := by
  constructor
  · rintro hkeeps hdrop
    have hnewest := hkeeps.newest hdrop
    obtain ⟨hfull, kind, data, rfl, hpermitted, hcoalesces⟩ := hdrop
    -- the event taken in is not one of those that the manual keeps
    have hin : ⟨kind, data, s.arrivals⟩ ∈ s.events := by
      rw [← hnewest]
      simp [step, nativeUiEvent, hpermitted, hcoalesces, hfull]
    exact Nat.lt_irrefl _ (h.earlier _ hin)
  · intro hroom
    have hordered : (step input s call).2.events.Pairwise _ := (h.step call).ordered
    cases call with
    | deliver kind data =>
      obtain ⟨hpending, hkept⟩ := kept_of_room hroom
      refine ⟨fun e he => ?_, hordered, nofun, (absurd · hroom), ?_, nofun⟩
      · exact (hkept e he).imp_right fun ⟨hkind, hlast⟩ => .inr ⟨⟨data, hkind ▸ rfl⟩, hlast⟩
      · simp [step, hpending, hroom]
    | read writable now =>
      -- no writable range, the overflow event, an empty queue, the first event
      rcases s with ⟨_ | ⟨first, events⟩, _ | _, arrivals⟩ <;> cases writable
      all_goals
        refine ⟨?_, hordered, ?_, (absurd · hroom), ?_, ?_⟩
        all_goals simp +contextual [step, syscallEventRead, hroom]

end

/-- A run keeps the promise of the manual exactly if no event meets a full queue. -/
theorem eventQueue_disciplined_iff (input : Bool) (calls : List Call) :
    (∀ done call rest, calls = done ++ call :: rest → Disciplined input (run input done) call) ↔
      ∀ done call rest, calls = done ++ call :: rest → ¬ Dropping input (run input done) call := by
  simp only [disciplined_iff (Queued.run _)]

def keyPress : Call := .deliver (some .key) ⟨0, 0, 0, 0, 0, 0, 1, 0⟩

/-- The 65th key press evicts the first one. -/
theorem not_disciplined_sixtyFive_keys :
    ¬ ∀ done call rest, replicate 65 keyPress = done ++ call :: rest →
      Disciplined true (run true done) call := by
  intro h
  have hnewest := (h (replicate 64 keyPress) keyPress [] (by decide)).newest
    ⟨by decide +kernel, _, _, rfl, rfl, by decide +kernel⟩
  revert hnewest
  decide +kernel

end OpenRFS.NativeProcess.Events
