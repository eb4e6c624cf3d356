import OpenRFS.Crash.Program

/-!
# Programs answered from outside

A program that calls commands of a system about which little is known: a reply is any
that `A` allows for its command. The calls with their replies are kept as a log, so
that a statement can speak of what the program asked for as well as of its result.
-/

namespace OpenRFS.Crash

namespace Prog

variable {Cmd : Type} {Reply : Cmd → Type} {α β : Type} {A : (c : Cmd) → Reply c → Prop}

abbrev Log (Reply : Cmd → Type) := List (Σ c, Reply c)

/-- The program gives `a` when its calls are answered as in the log, with replies that
`A` allows. -/
inductive Answered (A : (c : Cmd) → Reply c → Prop) :
    Prog Cmd Reply α → Log Reply → α → Prop
  | done (a : α) : Answered A (.done a) [] a
  | call {c : Cmd} {k : Reply c → Prog Cmd Reply α} {r : Reply c} {log : Log Reply} {a : α} :
      A c r → Answered A (k r) log a → Answered A (.call c k) (⟨c, r⟩ :: log) a

variable {p : Prog Cmd Reply α} {log : Log Reply}

@[simp] theorem answered_done {a b : α} : Answered A (.done a) log b ↔ log = [] ∧ b = a := by
  constructor
  · intro h
    cases h
    exact ⟨rfl, rfl⟩
  · rintro ⟨rfl, rfl⟩
    exact .done b

/-- A check that ends the program, or is passed. -/
theorem answered_guard {c : Prop} [Decidable c] {b : α} {a : α}
    (h : Answered A (if c then .done b else p) log a) :
    (c ∧ log = [] ∧ a = b) ∨ ¬ c ∧ Answered A p log a := by
  by_cases hc : c
  · rw [if_pos hc] at h
    exact .inl ⟨hc, answered_done.mp h⟩
  · rw [if_neg hc] at h
    exact .inr ⟨hc, h⟩

theorem answered_call {c : Cmd} {k : Reply c → Prog Cmd Reply α} {a : α} :
    Answered A (.call c k) log a ↔
      ∃ r rest, log = ⟨c, r⟩ :: rest ∧ A c r ∧ Answered A (k r) rest a := by
  constructor
  · intro h
    cases h with
    | call hr hk => exact ⟨_, _, rfl, hr, hk⟩
  · rintro ⟨r, rest, rfl, hr, hk⟩
    exact .call hr hk

theorem answered_bind {f : α → Prog Cmd Reply β} {b : β} :
    Answered A (p >>= f) log b ↔
      ∃ a first rest, log = first ++ rest ∧ Answered A p first a ∧ Answered A (f a) rest b := by
  induction p generalizing log with
  | done a =>
    constructor
    · exact fun h => ⟨a, [], log, rfl, .done a, h⟩
    · rintro ⟨a', first, rest, rfl, hfirst, hrest⟩
      obtain ⟨rfl, rfl⟩ := answered_done.mp hfirst
      exact hrest
  | call c k ih =>
    rw [call_bind, answered_call]
    constructor
    · rintro ⟨r, tail, rfl, hr, hk⟩
      obtain ⟨a, first, rest, rfl, hfirst, hrest⟩ := (ih r).mp hk
      exact ⟨a, ⟨c, r⟩ :: first, rest, rfl, .call hr hfirst, hrest⟩
    · rintro ⟨a, first, rest, rfl, hfirst, hrest⟩
      obtain ⟨r, tail, rfl, hr, hk⟩ := answered_call.mp hfirst
      exact ⟨r, tail ++ rest, rfl, hr, (ih r).mpr ⟨a, tail, rest, rfl, hk, hrest⟩⟩

/-- A program that calls only certain commands has only those in its log. -/
theorem Answered.only {R : Cmd → Prop} {a : α} (h : Answered A p log a) (hp : p.Only R) :
    ∀ x ∈ log, R x.1 := by
  induction h with
  | done a => simp
  | call hr hk ih =>
    intro x hx
    rcases List.mem_cons.mp hx with rfl | hx
    · exact hp.1
    · exact ih (hp.2 _) x hx

def answerWith (table : (c : Cmd) → Reply c) : Prog Cmd Reply α → Log Reply × α
  | .done a => ([], a)
  | .call c k => (⟨c, table c⟩ :: (answerWith table (k (table c))).1, (answerWith table (k (table c))).2)

theorem eq_of_mem_answerWith {table : (c : Cmd) → Reply c} {x : Σ c, Reply c}
    (h : x ∈ (p.answerWith table).1) : x = ⟨x.1, table x.1⟩ := by
  induction p with
  | done a => cases h
  | call c k ih =>
    rcases List.mem_cons.mp h with rfl | h
    · rfl
    · exact ih _ h

theorem answered_answerWith {table : (c : Cmd) → Reply c} (h : ∀ c, A c (table c))
    (p : Prog Cmd Reply α) : Answered A p (p.answerWith table).1 (p.answerWith table).2 := by
  induction p with
  | done a => exact .done a
  | call c k ih => exact .call (h c) (ih (table c))

end Prog

end OpenRFS.Crash
