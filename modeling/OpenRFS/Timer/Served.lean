import OpenRFS.Timer.Table

/-!
# Pending deadlines have an interrupt coming

A table with a pending deadline is served when the one-shot timer is armed and fires in
time for the earliest one. `timer_arm` programs the hardware for the earliest deadline
only, so a deadline that the count register cannot hold is taken in behind a nearer one,
and is left without an interrupt when the nearer one goes. If every deadline that joins
others is within the reach of the register when it is armed, the table is served whenever
no interrupt is being handled.
-/

namespace OpenRFS.Timer

open List Option

section Counting

variable {rate nanoseconds count : ℕ}

/-- The count of the interval fits the register. -/
def InReach (rate interval : ℕ) : Prop := interval * rate / second ≤ maxCount

instance (rate interval : ℕ) : Decidable (InReach rate interval) :=
  inferInstanceAs (Decidable (_ ≤ _))

theorem InReach.mono {m n : ℕ} (h : InReach rate n) (hmn : m ≤ n) : InReach rate m :=
  (Nat.div_le_div_right (Nat.mul_le_mul_right rate hmn)).trans h

theorem split_count {unit : ℕ} (hunit : 0 < unit) (a scale : ℕ) :
    a / unit * scale + a % unit * scale / unit = a * scale / unit := by
  have hsplit : a * scale = a % unit * scale + a / unit * scale * unit := by
    conv_lhs => rw [← Nat.mod_add_div a unit]
    ring
  rw [hsplit, Nat.add_mul_div_right _ _ hunit, add_comm]

/-- For rates up to `2 ^ 34` the words do not overflow. -/
theorem requested_eq (hmax : rate ≤ 2 ^ 34) :
    nanoseconds / second * rate + nanoseconds % second * rate % 2 ^ 64 / second =
      nanoseconds * rate / second := by
  have hrest : nanoseconds % second * rate < 2 ^ 64 := by
    have hmod : nanoseconds % second < second := Nat.mod_lt _ (by decide)
    calc nanoseconds % second * rate ≤ second * 2 ^ 34 := Nat.mul_le_mul hmod.le hmax
      _ < 2 ^ 64 := by decide
  rw [Nat.mod_eq_of_lt hrest, split_count (by decide)]

theorem seconds_le_iff (hrate : 0 < rate) (h : InReach rate nanoseconds) :
    nanoseconds / second ≤ maxCount / rate := by
  rw [Nat.le_div_iff_mul_le hrate]
  calc nanoseconds / second * rate
      ≤ nanoseconds / second * rate + nanoseconds % second * rate / second := Nat.le_add_right _ _
    _ = nanoseconds * rate / second := split_count (by decide) nanoseconds rate
    _ ≤ maxCount := h

theorem countForNanoseconds_iff (hmax : rate ≤ 2 ^ 34) :
    countForNanoseconds rate nanoseconds = some count ↔
      count = nanoseconds * rate / second ∧ 1 ≤ count ∧ count ≤ maxCount := by
  unfold countForNanoseconds
  dsimp only
  rw [requested_eq hmax]
  constructor
  · intro h
    split_ifs at h with hzero hseconds hrange
    have hrate : 0 < rate := by omega
    -- the sum of the two halves is no larger than its bound in words
    have hsum : nanoseconds * rate / second < 2 ^ 64 := by
      have hmod : nanoseconds % second < second := Nat.mod_lt _ (by decide)
      have hwhole : nanoseconds / second * rate ≤ maxCount :=
        (Nat.le_div_iff_mul_le hrate).mp (by omega)
      have hpart : nanoseconds % second * rate / second ≤ 2 ^ 34 := by
        refine Nat.div_le_of_le_mul ?_
        exact Nat.mul_le_mul hmod.le hmax
      have hbound : maxCount + 2 ^ 34 < 2 ^ 64 := by decide
      rw [← split_count (by decide)]
      omega
    rw [Nat.mod_eq_of_lt hsum] at h hrange
    obtain rfl := Option.some.inj h
    obtain ⟨hone, hreach⟩ := not_or.mp hrange
    exact ⟨rfl, Nat.pos_iff_ne_zero.mpr hone, le_of_not_gt hreach⟩
  · rintro ⟨rfl, hone, hreach⟩
    have hzero : ¬ (rate = 0 ∨ nanoseconds = 0) := by
      rintro (rfl | rfl) <;> simp at hone
    have hseconds := seconds_le_iff (by omega) hreach
    have hwords : maxCount < 2 ^ 64 := by decide
    rw [Nat.mod_eq_of_lt (by omega), if_neg hzero, if_neg (by omega)]
    exact if_neg (by omega)

theorem countForNanoseconds_of_inReach (hmin : 10000 ≤ rate) (hmax : rate ≤ 2 ^ 34)
    (hlong : minimumInterval ≤ nanoseconds) (h : InReach rate nanoseconds) :
    countForNanoseconds rate nanoseconds = some (nanoseconds * rate / second) := by
  have hone : 1 ≤ nanoseconds * rate / second := by
    rw [Nat.le_div_iff_mul_le (by decide)]
    calc 1 * second = minimumInterval * 10000 := by decide
      _ ≤ nanoseconds * rate := Nat.mul_le_mul hlong hmin
  exact (countForNanoseconds_iff hmax).mpr ⟨rfl, hone, h⟩

end Counting

section Earliest

variable {entries : List (Option Entry)} {condition : ℕ → Bool} {slot d : ℕ} {e : Entry}

theorem exists_slot (h : some e ∈ entries) :
    ∃ slot ∈ List.range entries.length, entries[slot]?.join = some e := by
  obtain ⟨slot, hlt, hslot⟩ := getElem_of_mem h
  exact ⟨slot, mem_range.mpr hlt, by rw [getElem?_eq_getElem hlt, hslot]; rfl⟩

theorem mem_of_slot (h : entries[slot]?.join = some e) : some e ∈ entries :=
  mem_of_getElem? (join_eq_some_iff.mp h)

theorem deadlineOf_eq (h : entries[slot]?.join = some e) : deadlineOf entries slot = e.deadline := by
  rw [deadlineOf, h]
  rfl

theorem earliestDeadline_eq_none (h : earliestDeadline entries = none) (e : Entry) :
    some e ∉ entries := by
  intro he
  obtain ⟨slot, hslot, hjoin⟩ := exists_slot he
  have hready := Schedule.pick_eq_none (map_eq_none_iff.mp h) slot hslot
  rw [inUse, hjoin] at hready
  exact absurd hready nofun

theorem earliestDeadline_eq_some (h : earliestDeadline entries = some d) :
    (∃ e, some e ∈ entries ∧ e.deadline = d) ∧ ∀ e, some e ∈ entries → d ≤ e.deadline := by
  obtain ⟨slot, hpick, rfl⟩ := map_eq_some_iff.mp h
  have hspec := fun hirrefl htrans => Schedule.pick_eq_some hirrefl htrans hpick
  obtain ⟨-, hready, hbest⟩ := hspec (fun _ => lt_irrefl _) (fun _ _ _ => lt_trans)
  rw [Bool.and_true, inUse, isSome_iff_exists] at hready
  obtain ⟨e, he⟩ := hready
  refine ⟨⟨e, mem_of_slot he, (deadlineOf_eq he).symm⟩, fun e' he' => ?_⟩
  obtain ⟨slot', hslot', hjoin⟩ := exists_slot he'
  have hnot := hbest slot' hslot' (by rw [inUse, hjoin]; rfl)
  rw [deadlineOf_eq hjoin] at hnot
  exact le_of_not_gt hnot

theorem mem_of_mem_set_none (h : some e ∈ entries.set slot none) : some e ∈ entries := by
  rcases mem_or_eq_of_mem_set h with hmem | heq
  · exact hmem
  · exact absurd heq nofun

end Earliest

section Served

variable {rate : ℕ} {t t' : State}

/-- If anything is pending, the one-shot timer is armed and fires no later than the
earliest deadline and the minimum interval, or than the minimum interval after the clock
was read if the deadline had passed by then. -/
def Served (rate : ℕ) (t : State) : Prop :=
  ∀ d ∈ earliestDeadline t.entries, ∃ arming ∈ t.armed,
    arming.FiresBy rate (max d arming.written + minimumInterval)

instance : Decidable (Served rate t) := by unfold Served; infer_instance

/-- Every pending deadline could be programmed now. -/
def AllInReach (rate : ℕ) (t : State) : Prop :=
  ∀ e, some e ∈ t.entries → InReach rate (e.deadline - t.clock)

theorem AllInReach.mono (h : AllInReach rate t) (hentries : ∀ e, some e ∈ t'.entries →
    some e ∈ t.entries) (hclock : t.clock ≤ t'.clock) : AllInReach rate t' :=
  fun e he => (h e (hentries e he)).mono (Nat.sub_le_sub_left hclock _)

theorem State.clock_le_read (t : State) (c : ℕ) : t.clock ≤ (t.read c).clock :=
  le_max_right _ _

theorem reprogram_entries (rate c : ℕ) (t : State) :
    (reprogram rate c t).1.entries = t.entries := by
  unfold reprogram
  dsimp only
  split
  · rfl
  · split <;> rfl

theorem clock_le_reprogram (rate c : ℕ) (t : State) : t.clock ≤ (reprogram rate c t).1.clock := by
  unfold reprogram
  dsimp only
  split
  · exact le_refl _
  · split
    · exact le_max_right _ _
    · exact le_max_right _ _

theorem firesBy_of_count {written d : ℕ} :
    Arming.FiresBy rate ⟨written, max (d - written) minimumInterval * rate / second⟩
      (max d written + minimumInterval) := by
  refine ⟨(le_max_right d written).trans (Nat.le_add_right _ _), ?_⟩
  calc max (d - written) minimumInterval * rate / second * second
      ≤ max (d - written) minimumInterval * rate := Nat.div_mul_le_self _ _
    _ ≤ (max d written + minimumInterval - written) * rate := by
      refine Nat.mul_le_mul_right rate ?_
      omega

/-- A success of `reprogram` serves the table, and the earliest deadline was in reach. -/
theorem reprogram_ok (hmax : rate ≤ 2 ^ 34) {c : ℕ} (h : (reprogram rate c t).2 = .ok) :
    Served rate (reprogram rate c t).1 ∧
      ∀ d ∈ earliestDeadline t.entries, InReach rate (d - (reprogram rate c t).1.clock) := by
  have hentries := reprogram_entries rate c t
  unfold Served
  rw [hentries]
  unfold reprogram at h ⊢
  dsimp only at h ⊢
  split at h
  · rename_i hnone
    rw [hnone]
    exact ⟨nofun, nofun⟩
  · rename_i d hsome
    rw [hsome]
    split at h
    · exact absurd h nofun
    · rename_i count hcount
      obtain ⟨rfl, -, hreach⟩ := (countForNanoseconds_iff hmax).mp hcount
      constructor
      · rintro _ ⟨⟩
        exact ⟨_, rfl, firesBy_of_count⟩
      · rintro _ ⟨⟩
        exact InReach.mono hreach (le_max_left _ _)

/-- If everything pending is in reach, `reprogram` succeeds. -/
theorem reprogram_of_allInReach (hmin : 10000 ≤ rate) (hmax : rate ≤ 2 ^ 34) {c : ℕ}
    (h : AllInReach rate t) : (reprogram rate c t).2 = .ok := by
  unfold reprogram
  dsimp only
  split
  · rfl
  · rename_i d hsome
    obtain ⟨⟨e, he, rfl⟩, -⟩ := earliestDeadline_eq_some hsome
    have hdeadline : InReach rate (e.deadline - (t.read c).clock) :=
      (h e he).mono (Nat.sub_le_sub_left (t.clock_le_read c) _)
    have hminimum : InReach rate minimumInterval := by
      calc minimumInterval * rate / second ≤ minimumInterval * 2 ^ 34 / second :=
            Nat.div_le_div_right (Nat.mul_le_mul_left _ hmax)
        _ ≤ maxCount := by decide
    have hinterval : InReach rate
        (max (e.deadline - (t.read c).clock) minimumInterval) := by
      rcases le_total (e.deadline - (t.read c).clock) minimumInterval with hle | hle
      · rwa [max_eq_right hle]
      · rwa [max_eq_left hle]
    have hcount := countForNanoseconds_of_inReach hmin hmax (le_max_right _ _) hinterval
    split
    · rename_i hnone
      exact absurd (hnone.symm.trans hcount) nofun
    · rfl

end Served

section Runs

variable {rate : ℕ} {t t' : State}

/-- A deadline that joins others is within the reach of the count register when it is
armed. A deadline that is alone is programmed at once, or refused. -/
def Event.Admissible (rate : ℕ) (t : State) : Event → Prop
  | .arm deadline checked _ =>
    earliestDeadline t.entries = none ∨ InReach rate (deadline - (t.read checked).clock)
  | _ => True

instance : (event : Event) → Decidable (event.Admissible rate t)
  | .arm _ _ _ => inferInstanceAs (Decidable (_ ∨ _))
  | .cancel _ _ | .expiry _ | .release | .done _ => .isTrue trivial

/-- Every event of the run is admissible in the state it meets. -/
def Admissible (rate : ℕ) : State → List Event → Prop
  | _, [] => True
  | t, e :: events => e.Admissible rate t ∧ ∀ t' ∈ step rate t e, Admissible rate t' events

instance decidableAdmissible (rate : ℕ) :
    (t : State) → (events : List Event) → Decidable (Admissible rate t events)
  | _, [] => .isTrue trivial
  | t, e :: events =>
    have : ∀ t', Decidable (Admissible rate t' events) := fun t' => decidableAdmissible rate t' events
    inferInstanceAs (Decidable (e.Admissible rate t ∧ ∀ t' ∈ step rate t e, Admissible rate t' events))

structure Ready (rate : ℕ) (t : State) : Prop where
  inReach : AllInReach rate t
  served : t.handling = none → Served rate t

theorem ready_of_empty (h : ∀ e, some e ∉ t.entries) : Ready rate t where
  inReach e he := absurd he (h e)
  served _ := fun _ hd => absurd (earliestDeadline_eq_some hd).1 fun ⟨e, he, _⟩ => h e he

theorem ready_started (clock : ℕ) : Ready rate (started clock) :=
  ready_of_empty fun _ he => absurd (eq_of_mem_replicate he) nofun

theorem Ready.read (h : Ready rate t) (c : ℕ) : Ready rate (t.read c) where
  inReach := h.inReach.mono (fun _ he => he) (t.clock_le_read c)
  served := h.served

theorem AllInReach.clear (h : AllInReach rate t) (slot : ℕ) : AllInReach rate (t.clear slot) :=
  h.mono (fun _ => mem_of_mem_set_none) (le_refl _)

theorem mem_add {slot deadline : ℕ} {e : Entry} (h : some e ∈ (t.add slot deadline).entries) :
    some e ∈ t.entries ∨ e.deadline = deadline := by
  rcases mem_or_eq_of_mem_set h with hold | hnew
  · exact .inl hold
  · exact .inr (congrArg Entry.deadline (Option.some.inj hnew))

theorem ready_add_alone (hmax : rate ≤ 2 ^ 34) {slot deadline programmed : ℕ}
    (halone : ∀ e, some e ∉ t.entries) :
    Ready rate (if (reprogram rate programmed (t.add slot deadline)).2 = .ok then
      reprogram rate programmed (t.add slot deadline)
      else ((reprogram rate programmed (t.add slot deadline)).1.clear slot, .hardwareFailure)).1 := by
  split_ifs with hok
  · obtain ⟨hserved, hreach⟩ := reprogram_ok hmax hok
    refine ⟨fun e he => ?_, fun _ => hserved⟩
    rw [reprogram_entries] at he
    have hdeadline := (mem_add he).resolve_left (halone e)
    rcases hearliest : earliestDeadline (t.add slot deadline).entries with - | d
    · exact absurd he (earliestDeadline_eq_none hearliest e)
    · obtain ⟨⟨e', he', hd⟩, -⟩ := earliestDeadline_eq_some hearliest
      have hd' : e.deadline = d := by
        rw [hdeadline, ← (mem_add he').resolve_left (halone e'), hd]
      rw [hd']
      exact hreach d hearliest
  · refine ready_of_empty fun e he => halone e ?_
    rw [State.clear, reprogram_entries, State.add, set_set] at he
    exact mem_of_mem_set_none he

variable (hmin : 10000 ≤ rate) (hmax : rate ≤ 2 ^ 34)
include hmin hmax

theorem AllInReach.ready_reprogram {c : ℕ}
    (h : AllInReach rate t) : Ready rate (reprogram rate c t).1 where
  inReach := h.mono (fun e he => by rwa [reprogram_entries] at he) (clock_le_reprogram rate c t)
  served _ := (reprogram_ok hmax (reprogram_of_allInReach hmin hmax h)).1

variable (h : Ready rate t)
include h

theorem Ready.timerCancel {identifier programmed : ℕ} : Ready rate (timerCancel rate identifier programmed t).1 := by
  unfold Timer.timerCancel
  split
  · exact h
  · exact (h.inReach.clear _).ready_reprogram hmin hmax

theorem Ready.timerArm {deadline checked programmed : ℕ}
    (hadmissible : (Event.arm deadline checked programmed).Admissible rate t) :
    Ready rate (timerArm rate deadline checked programmed t).1 := by
  have hread := h.read checked
  unfold Timer.timerArm
  dsimp only
  split
  · exact hread
  split
  · exact hread
  rename_i slot hfree
  rcases hadmissible with halone | hreach
  · exact ready_add_alone hmax (earliestDeadline_eq_none halone)
  · have hin : AllInReach rate ((t.read checked).add slot deadline) := by
      intro e he
      rcases mem_add he with hold | hnew
      · exact hread.inReach e hold
      · rw [hnew]
        exact hreach
    rw [if_pos (reprogram_of_allInReach hmin hmax hin)]
    exact hin.ready_reprogram hmin hmax

theorem Ready.step {event : Event} (hadmissible : event.Admissible rate t) (hstep : step rate t event = some t') :
    Ready rate t' := by
  cases event with
  | arm deadline checked programmed =>
    obtain rfl := Option.some.inj hstep
    exact h.timerArm hmin hmax hadmissible
  | cancel identifier programmed =>
    obtain rfl := Option.some.inj hstep
    exact h.timerCancel hmin hmax
  | expiry reached =>
    simp only [Timer.step, expiry] at hstep
    split_ifs at hstep
    obtain rfl := Option.some.inj hstep
    exact ⟨h.inReach.mono (fun _ he => he) (le_max_right _ _), nofun⟩
  | release =>
    simp only [Timer.step, release, bind_eq_bind, bind_eq_some_iff] at hstep
    obtain ⟨now, hnow, slot, -, hclear⟩ := hstep
    obtain rfl := Option.some.inj hclear
    exact ⟨h.inReach.clear slot, fun hnone => absurd (hnow.symm.trans hnone) nofun⟩
  | done programmed =>
    simp only [Timer.step, done, bind_eq_bind, bind_eq_some_iff] at hstep
    obtain ⟨now, -, hdone⟩ := hstep
    split_ifs at hdone
    obtain rfl := Option.some.inj hdone
    have hok := reprogram_of_allInReach hmin hmax (c := programmed) h.inReach
    exact ⟨(h.inReach.ready_reprogram hmin hmax).inReach, fun _ => (reprogram_ok hmax hok).1⟩

theorem Ready.run {events : List Event} (hadmissible : Admissible rate t events) (hrun : run rate t events = some t') :
    Ready rate t' := by
  induction events generalizing t with
  | nil =>
    obtain rfl := Option.some.inj hrun
    exact h
  | cons event events ih =>
    obtain ⟨hevent, hrest⟩ := hadmissible
    simp only [Timer.run, foldlM_cons, bind_eq_bind, bind_eq_some_iff] at hrun
    obtain ⟨t₁, hstep, hrun⟩ := hrun
    exact ih (h.step hmin hmax hevent hstep) (hrest t₁ hstep) hrun

omit h

omit hmin hmax

/-- The table is served after every call and every interrupt of a run whose deadlines
are in reach when they join others. -/
theorem served_of_admissible (hmin : 10000 ≤ rate) (hmax : rate ≤ 2 ^ 34) (clock : ℕ)
    (events : List Event) (hadmissible : Admissible rate (started clock) events) (t : State)
    (hrun : run rate (started clock) events = some t) (houtside : t.handling = none) :
    Served rate t :=
  ((ready_started clock).run hmin hmax hadmissible hrun).served houtside

/-- Two deadlines a second apart, the nearer one cancelled. -/
theorem served_after_cancel :
    ∃ t, run 62500000 (started 0)
        [.arm 1000000000 0 0, .arm 2000000000 10 20, .cancel 1 30] = some t ∧
      earliestDeadline t.entries = some 2000000000 ∧ Served 62500000 t := by
  refine ⟨_, rfl, by decide, ?_⟩
  exact served_of_admissible (by decide) (by decide) 0
    [.arm 1000000000 0 0, .arm 2000000000 10 20, .cancel 1 30] (by decide +kernel) _ rfl rfl

/-- A deadline 100 seconds away is taken in behind a nearer one, and has no interrupt
when the nearer one is cancelled. -/
theorem unserved_after_cancel :
    ∃ t, run 62500000 (started 0)
        [.arm 1000000000 0 0, .arm 100000000000 10 20, .cancel 1 30] = some t ∧
      (timerArm 62500000 100000000000 10 20
        (timerArm 62500000 1000000000 0 0 (started 0)).1).2 = .ok ∧
      t.handling = none ∧ earliestDeadline t.entries = some 100000000000 ∧ t.armed = none ∧
      ¬ Served 62500000 t := by
  refine ⟨_, rfl, ?_⟩
  decide +kernel

end Runs

end OpenRFS.Timer
