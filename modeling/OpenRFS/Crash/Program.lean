import Mathlib

/-!
# Programs over commands and their interrupted runs

A program calls commands and goes on with their replies. A `Machine` says what
a command does to a world and with which replies it may fail instead; a command
that fails has had its effect or has not. Which commands may fail in a run is the
parameter `F`, so that one program has faultless runs and runs in which every
command may fail.

A run may be interrupted between any two commands. `Reaches` holds of the
worlds met on the way, `Outcome` of the result of a finished run, and `wp`
speaks of both at once: the crash condition `C` holds of every world met, and
`Q` of every result. It is computed along the program, and `wp_iff` says that
it is exact.
-/

namespace OpenRFS.Crash

open List

/-- A program that calls commands of the type `Cmd`; the reply to `c` has the
type `Reply c`. -/
inductive Prog (Cmd : Type) (Reply : Cmd → Type) (α : Type) : Type where
  | done (a : α)
  | call (c : Cmd) (k : Reply c → Prog Cmd Reply α)

namespace Prog

variable {Cmd : Type} {Reply : Cmd → Type} {α β : Type}

def bind : Prog Cmd Reply α → (α → Prog Cmd Reply β) → Prog Cmd Reply β
  | .done a, f => f a
  | .call c k, f => .call c fun r => (k r).bind f

instance : Monad (Prog Cmd Reply) where
  pure := .done
  bind := bind

@[simp] theorem pure_eq (a : α) : (pure a : Prog Cmd Reply α) = .done a := rfl

@[simp] theorem done_bind (a : α) (f : α → Prog Cmd Reply β) : (Prog.done a >>= f) = f a := rfl

@[simp] theorem call_bind (c : Cmd) (k : Reply c → Prog Cmd Reply α) (f : α → Prog Cmd Reply β) :
    (Prog.call c k >>= f) = .call c fun r => k r >>= f := rfl

def lift (c : Cmd) : Prog Cmd Reply (Reply c) :=
  .call c .done

/-- All commands a program may call satisfy `R`. -/
def Only (R : Cmd → Prop) : Prog Cmd Reply α → Prop
  | .done _ => True
  | .call c k => R c ∧ ∀ r, (k r).Only R

theorem only_bind {R : Cmd → Prop} {p : Prog Cmd Reply α} {f : α → Prog Cmd Reply β}
    (hp : p.Only R) (hf : ∀ a, (f a).Only R) : (p >>= f).Only R := by
  induction p with
  | done a => exact hf a
  | call c k ih => exact ⟨hp.1, fun r => ih r (hp.2 r)⟩

end Prog

/-- What commands do: `step` is their effect and reply, and `Fails` holds of the
replies with which a command may fail. -/
structure Machine (Cmd : Type) (Reply : Cmd → Type) (W : Type) where
  step : (c : Cmd) → W → Reply c × W
  Fails : (c : Cmd) → Reply c → Prop

namespace Machine

variable {Cmd : Type} {Reply : Cmd → Type} {W α β : Type}
variable (M : Machine Cmd Reply W) (F : Cmd → Prop)

/-- The run without failures and interruptions. -/
def exec : Prog Cmd Reply α → W → α × W
  | .done a, w => (a, w)
  | .call c k, w => exec (k (M.step c w).1) (M.step c w).2

/-- One command: its effect, or its failure where `F` allows for one. -/
inductive Next (c : Cmd) (w : W) : Reply c → W → Prop
  | step : Next c w (M.step c w).1 (M.step c w).2
  | fail (r : Reply c) : F c → M.Fails c r → Next c w r w
  /-- The effect is there, but the command reports a failure. -/
  | late (r : Reply c) : F c → M.Fails c r → Next c w r (M.step c w).2

/-- A run of the program from `w` passes through the world `w'`. -/
inductive Reaches : Prog Cmd Reply α → W → W → Prop
  | here (p : Prog Cmd Reply α) (w : W) : Reaches p w w
  | call {c : Cmd} {k : Reply c → Prog Cmd Reply α} {w v w' : W} {r : Reply c} :
      M.Next F c w r v → Reaches (k r) v w' → Reaches (.call c k) w w'

/-- A run of the program from `w` ends in the world `w'` with the result `a`. -/
inductive Outcome : Prog Cmd Reply α → W → α → W → Prop
  | done (a : α) (w : W) : Outcome (.done a) w a w
  | call {c : Cmd} {k : Reply c → Prog Cmd Reply α} {w v w' : W} {r : Reply c} {a : α} :
      M.Next F c w r v → Outcome (k r) v a w' → Outcome (.call c k) w a w'

/-- Every world a run meets satisfies `C`, and every result satisfies `Q`. -/
def wp (Q : α → W → Prop) (C : W → Prop) : Prog Cmd Reply α → W → Prop
  | .done a, w => C w ∧ Q a w
  | .call c k, w => C w ∧ ∀ r v, M.Next F c w r v → wp Q C (k r) v

variable {M F} {Q Q' : α → W → Prop} {C C' : W → Prop} {p : Prog Cmd Reply α} {w : W}

theorem wp_here (h : M.wp F Q C p w) : C w := by
  cases p with
  | done a => exact h.1
  | call c k => exact h.1

theorem wp_mono (hQ : ∀ a v, Q a v → Q' a v) (hC : ∀ v, C v → C' v)
    (h : M.wp F Q C p w) : M.wp F Q' C' p w := by
  induction p generalizing w with
  | done a => exact ⟨hC w h.1, hQ a w h.2⟩
  | call c k ih => exact ⟨hC w h.1, fun r v hv => ih r (h.2 r v hv)⟩

/-- Both conditions of a run in one: whatever holds of every world met may be
used at the end of the run. -/
theorem wp_post (h : M.wp F Q C p w) : M.wp F (fun a v => Q a v ∧ C v) C p w := by
  induction p generalizing w with
  | done a => exact ⟨h.1, h.2, h.1⟩
  | call c k ih => exact ⟨h.1, fun r v hv => ih r (h.2 r v hv)⟩

theorem wp_bind {f : α → Prog Cmd Reply β} {Q : β → W → Prop} :
    M.wp F Q C (p >>= f) w ↔ M.wp F (fun a v => M.wp F Q C (f a) v) C p w := by
  induction p generalizing w with
  | done a => exact ⟨fun h => ⟨wp_here h, h⟩, fun h => h.2⟩
  | call c k ih =>
    exact and_congr_right fun _ => forall_congr' fun r => forall_congr' fun v =>
      imp_congr_right fun _ => ih r

theorem wp_call {c : Cmd} {k : Reply c → Prog Cmd Reply α} :
    M.wp F Q C (.call c k) w ↔ C w ∧ M.wp F Q C (k (M.step c w).1) (M.step c w).2 ∧
      (F c → ∀ r, M.Fails c r → M.wp F Q C (k r) w ∧ M.wp F Q C (k r) (M.step c w).2) := by
  refine and_congr_right fun _ => ⟨fun h => ⟨h _ _ .step, fun hF r hr => ?_⟩, ?_⟩
  · exact ⟨h r w (.fail r hF hr), h r _ (.late r hF hr)⟩
  rintro ⟨hstep, hfail⟩ r v hv
  cases hv with
  | step => exact hstep
  | fail _ hF hr => exact (hfail hF r hr).1
  | late _ hF hr => exact (hfail hF r hr).2

/-- The weakest precondition is exact. -/
theorem wp_iff : M.wp F Q C p w ↔
    (∀ w', M.Reaches F p w w' → C w') ∧ ∀ a w', M.Outcome F p w a w' → Q a w' := by
  constructor
  · intro h
    refine ⟨fun w' hw' => ?_, fun a w' hw' => ?_⟩
    · induction hw' with
      | here p w => exact wp_here h
      | call hnext _ ih => exact ih (h.2 _ _ hnext)
    · induction hw' with
      | done a w => exact h.2
      | call hnext _ ih => exact ih (h.2 _ _ hnext)
  · rintro ⟨hC, hQ⟩
    induction p generalizing w with
    | done a => exact ⟨hC w (.here _ w), hQ a w (.done a w)⟩
    | call c k ih =>
      refine ⟨hC w (.here _ w), fun r v hv => ih r ?_ ?_⟩
      · exact fun w' hw' => hC w' (.call hv hw')
      · exact fun a w' hw' => hQ a w' (.call hv hw')

theorem Reaches.crash {w' : W} (h : M.Reaches F p w w') (hp : M.wp F Q C p w) : C w' :=
  (wp_iff.mp hp).1 w' h

theorem Outcome.post {a : α} {w' : W} (h : M.Outcome F p w a w') (hp : M.wp F Q C p w) : Q a w' :=
  (wp_iff.mp hp).2 a w' h

def Clean : Cmd → Prop := fun _ => False

theorem outcome_exec : M.Outcome Clean p w (M.exec p w).1 (M.exec p w).2 := by
  induction p generalizing w with
  | done a => exact .done a w
  | call c k ih => exact .call .step (ih _)

/-- A run without failures has one result. -/
theorem post_exec (h : M.wp Clean Q C p w) : Q (M.exec p w).1 (M.exec p w).2 :=
  outcome_exec.post h

end Machine

/-!
## Runs that are cut short

A run as a function of what goes wrong in it: which of its commands fail, by their
number, and after how many commands it is cut. A run that is cut has no result.
-/

namespace Machine

variable {Cmd : Type} {Reply : Cmd → Type} {W α : Type} (M : Machine Cmd Reply W)

/-- The run of a program that is cut when it calls a command and none is left to it.
The command with a number fails if `fails` has a reply for it. -/
def cutRun (fails : ℕ → (c : Cmd) → Option (Reply c)) :
    Prog Cmd Reply α → (left number : ℕ) → W → Option α × W
  | .done a, _, _, w => (some a, w)
  | .call _ _, 0, _, w => (none, w)
  | .call c k, left + 1, number, w =>
    match fails number c with
    | some r => cutRun fails (k r) left (number + 1) w
    | none => cutRun fails (k (M.step c w).1) left (number + 1) (M.step c w).2

variable {M} {fails : ℕ → (c : Cmd) → Option (Reply c)} {c : Cmd} {k : Reply c → Prog Cmd Reply α}
  {left number : ℕ} {w : W}

@[simp] theorem cutRun_done {a : α} : M.cutRun fails (.done a) left number w = (some a, w) := by
  cases left <;> rfl

@[simp] theorem cutRun_zero : M.cutRun fails (.call c k) 0 number w = (none, w) := rfl

theorem cutRun_fail {r : Reply c} (h : fails number c = some r) :
    M.cutRun fails (.call c k) (left + 1) number w = M.cutRun fails (k r) left (number + 1) w := by
  rw [cutRun, h]

theorem cutRun_step (h : fails number c = none) :
    M.cutRun fails (.call c k) (left + 1) number w =
      M.cutRun fails (k (M.step c w).1) left (number + 1) (M.step c w).2 := by
  rw [cutRun, h]

section Runs

variable {F : Cmd → Prop} {p : Prog Cmd Reply α} {v : W}

theorem reaches_cutRun (hfails : ∀ n c r, fails n c = some r → F c ∧ M.Fails c r) :
    M.Reaches F p w (M.cutRun fails p left number w).2 := by
  induction p generalizing left number w with
  | done a =>
    rw [cutRun_done]
    exact .here _ w
  | call c k ih =>
    cases left with
    | zero => exact .here _ w
    | succ left =>
      cases hfail : fails number c with
      | none =>
        rw [cutRun_step hfail]
        exact .call .step (ih _)
      | some r =>
        obtain ⟨hF, hr⟩ := hfails number c r hfail
        rw [cutRun_fail hfail]
        exact .call (.fail r hF hr) (ih r)

theorem outcome_cutRun (hfails : ∀ n c r, fails n c = some r → F c ∧ M.Fails c r) {a : α}
    (h : M.cutRun fails p left number w = (some a, v)) : M.Outcome F p w a v := by
  induction p generalizing left number w with
  | done b =>
    rw [cutRun_done] at h
    cases h
    exact .done _ _
  | call c k ih =>
    cases left with
    | zero => cases h
    | succ left =>
      cases hfail : fails number c with
      | none =>
        rw [cutRun_step hfail] at h
        exact .call .step (ih _ h)
      | some r =>
        obtain ⟨hF, hr⟩ := hfails number c r hfail
        rw [cutRun_fail hfail] at h
        exact .call (.fail r hF hr) (ih r h)

end Runs

end Machine

end OpenRFS.Crash
