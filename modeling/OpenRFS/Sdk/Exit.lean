import OpenRFS.Sdk.StdioSpecs

/-!
# exit

`exit` flushes stdout and stderr and calls the functions of `atexit` before it leaves the
process. Nothing flushes the streams that the program opened, and nothing is flushed once
the functions have been called. A stream holds nothing at the end if the program or a
function flushed it after the last write (`Drained`).
-/

namespace OpenRFS.Sdk

open Function

abbrev Streams := ℕ → Option Stream

def stdin : ℕ := 0
def stdout : ℕ := 1
def stderr : ℕ := 2

def isStatic (id : ℕ) : Bool := decide (id ≤ stderr)

def Streams.start : Streams := fun id =>
  if id = stdin then some (.opened true false true)
  else if id = stdout ∨ id = stderr then some (.opened false true true)
  else none

inductive Action where
  | fopen (id : ℕ) (readable writable : Bool)
  | call (id : ℕ) (call : Call)

variable (k : ℕ → Kernel)

/-- An `fopen` gives a stream that is not open; a call is made on an open one. -/
def act (p : Streams) : Action → Option Streams
  | .fopen id readable writable =>
    match p id with
    | none => some (Function.update p id (some (.opened readable writable false)))
    | some _ => some p
  | .call id call =>
    match p id with
    | none => some p
    | some s =>
      match call with
      -- a static stream is not closed; of the others no more is seen
      | .fclose => some (if isStatic id then p else Function.update p id none)
      | call => (step (k id) s call).map fun s => Function.update p id (some s)

def acts (p : Streams) : List Action → Option Streams
  | [] => some p
  | action :: actions => (act k p action).bind fun p => acts p actions

def flushStream (id : ℕ) (p : Streams) : Bool × Streams :=
  match p id with
  | none => (true, p)
  | some s => ((flushLocked (k id) s).1, Function.update p id (some (flushLocked (k id) s).2))

def fflushAll (p : Streams) : Streams :=
  match flushStream k stdout p with
  | (false, p) => p
  | (true, p) => (flushStream k stderr p).2

/-- `exit` up to the system call. The functions are given by what they do, in the order in
which they are called. -/
def exit (functions : List (List Action)) (p : Streams) : Option Streams :=
  acts k (fflushAll k p) functions.flatten

/-! ### Conditions on a run -/

def Action.drains (id : ℕ) : Action → Bool
  | .call target .fflush => decide (target = id)
  | .call target .fclose => decide (target = id) && !isStatic id
  | _ => false

def Action.supplies (id : ℕ) : Action → Bool
  | .call target request => decide (target = id) && request.writes
  | _ => false

/-- Whether output may be waiting in a stream after an action, if it may have been before. -/
def Action.leaves (action : Action) (id : ℕ) (waiting : Bool) : Bool :=
  !action.drains id && (waiting || action.supplies id)

/-- The last write to the stream is followed by a flush. -/
def Drained (id : ℕ) : Bool → List Action → Prop
  | waiting, [] => waiting = false
  | waiting, action :: actions => Drained id (action.leaves id waiting) actions

def Streams.waits (p : Streams) (id : ℕ) : Bool := (p id).any fun s => decide (s.pending ≠ [])

/-- Every write of the run fits the buffer of its stream. -/
def Within : Streams → List Action → Prop
  | _, [] => True
  | p, action :: actions =>
    (∀ id call s, action = .call id call → p id = some s → Modest s call) ∧
      ∀ p', act k p action = some p' → Within p' actions

def flushStatic : List Action := [.call stdout .fflush, .call stderr .fflush]

/-! ### Steps -/

/-- The streams keep their ledgers, and no output waits in the streams not listed. -/
structure Sound (p : Streams) (waiting : ℕ → Bool) : Prop where
  kept : ∀ {id s}, p id = some s → Kept (k id) s
  clean : ∀ {id s}, p id = some s → waiting id = false → s.pending = []

variable {k} {p : Streams} {waiting : ℕ → Bool}

theorem Sound.start : Sound k .start fun _ => false := by
  have hopened : ∀ {id s}, Streams.start id = some s →
      ∃ readable writable, s = .opened readable writable true := by
    intro id s hs
    unfold Streams.start at hs
    split_ifs at hs
    · exact ⟨true, false, (Option.some.inj hs).symm⟩
    · exact ⟨false, true, (Option.some.inj hs).symm⟩
  refine ⟨fun hs => ?_, fun hs _ => ?_⟩
  · obtain ⟨readable, writable, rfl⟩ := hopened hs
    exact .opened _ readable writable true
  · obtain ⟨readable, writable, rfl⟩ := hopened hs
    rfl

theorem Kept.flush_pending {k : Kernel} {s : Stream} (h : Kept k s) (hk : Succeeds k) :
    (flushLocked k s).1 ∧ (flushLocked k s).2.pending = [] := by
  have hok : (flushLocked k s).1 := by
    rcases flushLocked_cases (k := k) h.writable with ⟨heq, -⟩ | ⟨-, _, _, _, -, heq | ⟨hnot, -⟩⟩
    · rw [heq]
    · rw [heq]
    · exact absurd hk hnot
  exact ⟨hok, ((h.flush (.inl hok)).2 hok).1⟩

theorem Kept.after {k : Kernel} {s : Stream} (h : Kept k s) (hk : Succeeds k) {call : Call}
    (hmodest : Modest s call) :
    ∃ s', Sdk.step k s call = some s' ∧ Kept k s' ∧ (call = .fflush → s'.pending = []) ∧
      (call.writes = false → s.pending = [] → s'.pending = []) := by
  have hmeets := h.meets hk hmodest
  obtain ⟨s', hstep, h', -⟩ := h.step hmeets
  refine ⟨s', hstep, h', fun hflush => ?_, fun hwrites hpending => ?_⟩
  · subst hflush
    cases hstep
    exact (h.flush_pending hk).2
  · obtain ⟨s'', hstep', hcalm⟩ := h.calm hmeets hwrites
    rw [hstep] at hstep'
    cases hstep'
    exact hcalm.clean hpending

theorem leaves_of_ne {target id : ℕ} (hne : id ≠ target) (call : Call) (waiting : Bool) :
    (Action.call target call).leaves id waiting = waiting := by
  cases call <;> simp [Action.leaves, Action.drains, Action.supplies, hne.symm]

theorem leaves_self (id : ℕ) {call : Call} {waiting : Bool}
    (hfalse : (Action.call id call).leaves id waiting = false) :
    call = .fflush ∨ call = .fclose ∧ isStatic id = false ∨
      call.writes = false ∧ waiting = false := by
  cases hstatic : isStatic id <;> cases call <;>
    simp_all [Action.leaves, Action.drains, Action.supplies, Call.writes]

theorem drained_iff (id : ℕ) (waiting : Bool) (actions : List Action) :
    Drained id waiting actions ↔
      actions.foldl (fun waiting action => action.leaves id waiting) waiting = false := by
  induction actions generalizing waiting with
  | nil => rfl
  | cons action actions ih => exact ih _

variable (h : Sound k p waiting)
include h

theorem Sound.update (id : ℕ) (slot : Option Stream)
    {waiting' : ℕ → Bool} (hwaiting : ∀ other, other ≠ id → waiting' other = false →
      waiting other = false)
    (hslot : ∀ s, slot = some s → Kept (k id) s ∧ (waiting' id = false → s.pending = [])) :
    Sound k (Function.update p id slot) waiting' := by
  have hcases : ∀ {other s}, Function.update p id slot other = some s →
      other = id ∧ slot = some s ∨ other ≠ id ∧ p other = some s := by
    intro other s hs
    rcases eq_or_ne other id with rfl | hne
    · rw [update_self] at hs
      exact .inl ⟨rfl, hs⟩
    · rw [update_of_ne hne] at hs
      exact .inr ⟨hne, hs⟩
  refine ⟨fun hs => ?_, fun hs hfalse => ?_⟩
  · rcases hcases hs with ⟨rfl, hslot'⟩ | ⟨-, hs⟩
    · exact (hslot _ hslot').1
    · exact h.kept hs
  · rcases hcases hs with ⟨rfl, hslot'⟩ | ⟨hne, hs⟩
    · exact (hslot _ hslot').2 hfalse
    · exact h.clean hs (hwaiting _ hne hfalse)

theorem Sound.mono {waiting' : ℕ → Bool}
    (hwaiting : ∀ {id s}, p id = some s → waiting' id = false → waiting id = false) :
    Sound k p waiting' :=
  ⟨h.kept, fun hs hfalse => h.clean hs (hwaiting hs hfalse)⟩

theorem Sound.act (hk : ∀ id, Succeeds (k id)) {action : Action}
    (hmodest : ∀ id call s, action = .call id call → p id = some s → Modest s call) :
    ∃ p', Sdk.act k p action = some p' ∧ Sound k p' fun id => action.leaves id (waiting id) := by
  cases action with
  | fopen id readable writable =>
    have hleaves : ∀ other, (Action.fopen id readable writable).leaves other (waiting other) =
        false → waiting other = false := by
      simp [Action.leaves, Action.drains, Action.supplies]
    rw [Sdk.act]
    cases p id with
    | none =>
      refine ⟨_, rfl, h.update id _ (fun other _ => hleaves other) fun s hs => ?_⟩
      cases hs
      exact ⟨.opened (k id) readable writable false, fun _ => rfl⟩
    | some s => exact ⟨p, rfl, h.mono fun _ => hleaves _⟩
  | call id call =>
    have hother : ∀ other, other ≠ id →
        (Action.call id call).leaves other (waiting other) = false → waiting other = false :=
      fun other hne hfalse => by rwa [leaves_of_ne hne] at hfalse
    rw [Sdk.act]
    cases hp : p id with
    | none =>
      refine ⟨p, rfl, h.mono fun hs => hother _ fun heq => ?_⟩
      rw [heq, hp] at hs
      cases hs
    | some s =>
      obtain ⟨s', hstep, h', hflush, hclean⟩ := (h.kept hp).after (hk id)
        (hmodest id call s rfl hp)
      -- a call that leaves the stream open
      have hopen : call ≠ .fclose → Sound k (Function.update p id (some s'))
          fun other => (Action.call id call).leaves other (waiting other) := by
        intro hcall
        refine h.update id _ hother fun t ht => ?_
        cases ht
        refine ⟨h', fun hfalse => ?_⟩
        rcases leaves_self id hfalse with heq | ⟨heq, -⟩ | ⟨hwrites, hwaiting⟩
        · exact hflush heq
        · exact absurd heq hcall
        · exact hclean hwrites (h.clean hp hwaiting)
      cases call with
      | fclose =>
        refine ⟨_, rfl, ?_⟩
        cases hstatic : isStatic id with
        | true =>
          refine h.mono fun {other t} _ hfalse => ?_
          rcases eq_or_ne other id with rfl | hne
          · rcases leaves_self other hfalse with heq | ⟨-, hnot⟩ | ⟨-, hwaiting⟩
            · cases heq
            · rw [hstatic] at hnot
              cases hnot
            · exact hwaiting
          · exact hother other hne hfalse
        | false => exact h.update id none hother nofun
      | _ => exact ⟨_, by dsimp only; rw [hstep]; rfl, hopen nofun⟩

theorem Sound.acts (hk : ∀ id, Succeeds (k id)) (actions : List Action)
    (hwithin : Within k p actions) :
    ∃ p', Sdk.acts k p actions = some p' ∧
      Sound k p' fun id => actions.foldl (fun waiting action => action.leaves id waiting)
        (waiting id) := by
  induction actions generalizing p waiting with
  | nil => exact ⟨p, rfl, h⟩
  | cons action actions ih =>
    obtain ⟨p', hact, h'⟩ := h.act hk hwithin.1
    obtain ⟨p'', hacts, h''⟩ := ih h' (hwithin.2 p' hact)
    refine ⟨p'', ?_, h''⟩
    rw [Sdk.acts, hact]
    exact hacts

theorem Sound.waits : Sound k p p.waits := by
  refine ⟨h.kept, fun hs hfalse => ?_⟩
  simpa [Streams.waits, hs] using hfalse

/-! ### Leaving the process -/

theorem Sound.flushStream (hk : ∀ id, Succeeds (k id)) (id : ℕ) :
    (Sdk.flushStream k id p).1 ∧
      Sdk.act k p (.call id .fflush) = some (Sdk.flushStream k id p).2 := by
  rw [Sdk.flushStream, Sdk.act]
  cases hp : p id with
  | none => exact ⟨rfl, rfl⟩
  | some s => exact ⟨((h.kept hp).flush_pending (hk id)).1, rfl⟩

/-- Where no write fails, `exit` flushes the two streams and then calls the functions. -/
theorem Sound.exit_eq (hk : ∀ id, Succeeds (k id)) (functions : List (List Action)) :
    exit k functions p = Sdk.acts k p (flushStatic ++ functions.flatten) := by
  have hmodest : ∀ id call s, Action.call stdout .fflush = .call id call → p id = some s →
      Modest s call := by
    intro id call s heq _
    cases heq
    trivial
  obtain ⟨hok, hact⟩ := h.flushStream hk stdout
  obtain ⟨p', hact', h'⟩ := h.act hk hmodest
  rw [hact] at hact'
  cases hact'
  have hact' := (h'.flushStream hk stderr).2
  have hall : fflushAll k p = (Sdk.flushStream k stderr (Sdk.flushStream k stdout p).2).2 := by
    unfold fflushAll
    generalize Sdk.flushStream k stdout p = flushed at hok
    obtain ⟨ok, p'⟩ := flushed
    cases hok
    rfl
  change _ = (Sdk.act k p (.call stdout .fflush)).bind fun p =>
    (Sdk.act k p (.call stderr .fflush)).bind fun p => Sdk.acts k p functions.flatten
  rw [hact, Option.bind_some, hact', Option.bind_some, ← hall]
  rfl

omit h

/-- If no write fails, and every stream with output is flushed by `exit` or by a function
before the process is left, every byte that was supplied has been accepted. -/
theorem exit_accepted_eq_supplied (hk : ∀ id, Succeeds (k id)) (actions : List Action)
    (functions : List (List Action)) (hactions : Within k .start actions)
    (hp : acts k .start actions = some p)
    (hfunctions : Within k p (flushStatic ++ functions.flatten))
    (hdrained : ∀ id, Drained id (p.waits id) (flushStatic ++ functions.flatten)) :
    ∃ p', exit k functions p = some p' ∧ ∀ id s, p' id = some s → s.accepted = s.supplied := by
  obtain ⟨q, hq, h⟩ := Sound.start.acts hk actions hactions
  rw [hp] at hq
  cases hq
  obtain ⟨p', hexit, h'⟩ := h.waits.acts hk _ hfunctions
  refine ⟨p', by rw [h.exit_eq hk, hexit], fun id s hs => ?_⟩
  have hpending := h'.clean hs ((drained_iff id _ _).mp (hdrained id))
  have hledger := (h'.kept hs).ledger
  rwa [hpending, List.append_nil] at hledger

/-- A program that writes a byte to a file, and a function that flushes the file. -/
theorem exit_accepted_eq_supplied_file :
    ∃ p p', acts (fun _ => sevens) .start
        [.fopen 3 false true, .call 3 (.fwrite 1 1 fun _ => 9)] = some p ∧
      exit (fun _ => sevens) [[.call 3 .fflush]] p = some p' ∧
      ∀ id s, p' id = some s → s.accepted = s.supplied := by
  have hflush : ∀ (p : Streams) (id target : ℕ) (call : Call) (s : Stream),
      Action.call id .fflush = .call target call → p target = some s → Modest s call := by
    intro p id target call s heq _
    cases heq
    trivial
  have hactions : Within (fun _ => sevens) .start
      [.fopen 3 false true, .call 3 (.fwrite 1 1 fun _ => 9)] := by
    refine ⟨nofun, fun q hq => ⟨?_, fun _ _ => trivial⟩⟩
    cases hq
    intro id call s heq hs
    cases heq
    cases hs
    exact fun _ _ => ⟨by decide +kernel, nofun⟩
  obtain ⟨p', hexit⟩ := exit_accepted_eq_supplied (fun _ _ _ hpos => hpos) _ [[.call 3 .fflush]]
    hactions rfl
    ⟨hflush _ _, fun _ _ => ⟨hflush _ _, fun _ _ => ⟨hflush _ _, fun _ _ => trivial⟩⟩⟩ fun id => by
      by_cases hid : id = 3
      · subst hid
        rfl
      · -- the other streams have never been written to
        have hstart : Streams.waits .start id = false := by
          unfold Streams.waits Streams.start
          split_ifs <;> rfl
        rw [Streams.waits]
        dsimp only
        rw [update_of_ne hid, update_of_ne hid, ← Streams.waits, hstart]
        simp [flushStatic, Drained, Action.leaves, Action.supplies, Call.writes]
  exact ⟨_, p', rfl, hexit⟩

/-- A byte in a file that the program does not close is lost. -/
theorem exit_leaves_output :
    ∃ p p' s, acts (fun _ => sevens) .start
        [.fopen 3 false true, .call 3 (.fwrite 1 1 fun _ => 9)] = some p ∧
      exit (fun _ => sevens) [] p = some p' ∧ p' 3 = some s ∧ s.supplied = [9] ∧
      s.accepted = [] :=
  ⟨_, _, _, rfl, rfl, rfl, rfl, rfl⟩

end OpenRFS.Sdk
