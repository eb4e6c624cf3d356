import Mathlib

/-!
# Greedy schedules

Items need other items. A greedy planner takes the best item whose needs are all
done, again and again. `Greedy` says what it has taken so far, without saying how the
planner finds the best item. A complete greedy schedule is determined by the items,
their needs and the order between them; a planner that finds nothing to take has
found a cycle of needs.
-/

namespace OpenRFS.Schedule

open List

section Pick

variable {ι : Type} (better : ι → ι → Prop) [DecidableRel better] (ready : ι → Bool)

def keepBetter (selected : Option ι) (i : ι) : Option ι :=
  if ready i then
    match selected with
    | none => some i
    | some s => if better i s then some i else some s
  else selected

def pick (items : List ι) : Option ι := items.foldl (keepBetter better ready) none

variable {better ready}

theorem pick_concat (items : List ι) (i : ι) :
    pick better ready (items ++ [i]) = keepBetter better ready (pick better ready items) i := by
  rw [pick, foldl_append]
  rfl

theorem pick_eq_none {items : List ι} (h : pick better ready items = none) :
    ∀ i ∈ items, ready i = false := by
  induction items using List.reverseRecOn with
  | nil => exact nofun
  | append_singleton items a ih =>
    rw [pick_concat, keepBetter.eq_def] at h
    split_ifs at h with ha
    · -- a ready item is never given up
      split at h
      · exact absurd h nofun
      · split_ifs at h
    · exact forall_mem_append.mpr ⟨ih h, forall_mem_singleton.mpr (by simpa using ha)⟩

theorem pick_eq_some (hirrefl : ∀ a, ¬ better a a)
    (htrans : ∀ a b c, better a b → better b c → better a c) {items : List ι} {i : ι}
    (h : pick better ready items = some i) :
    i ∈ items ∧ ready i ∧ ∀ j ∈ items, ready j → ¬ better j i := by
  induction items using List.reverseRecOn generalizing i with
  | nil => exact absurd h nofun
  | append_singleton items a ih =>
    rw [pick_concat, keepBetter.eq_def] at h
    split_ifs at h with ha
    · rcases hs : pick better ready items with - | s
      · rw [hs] at h
        obtain rfl : a = i := Option.some.inj h
        refine ⟨by simp, ha, forall_mem_append.mpr ⟨fun j hold hready => ?_,
          forall_mem_singleton.mpr fun _ => hirrefl a⟩⟩
        exact absurd hready (by simp [pick_eq_none hs j hold])
      · obtain ⟨hmem, hready, hbest⟩ := ih hs
        rw [hs] at h
        dsimp only at h
        split_ifs at h with hbetter
        · obtain rfl : a = i := Option.some.inj h
          refine ⟨by simp, ha, forall_mem_append.mpr ⟨fun j hold hready hja => ?_,
            forall_mem_singleton.mpr fun _ => hirrefl a⟩⟩
          exact hbest j hold hready (htrans _ _ _ hja hbetter)
        · obtain rfl : s = i := Option.some.inj h
          exact ⟨mem_append_left _ hmem, hready,
            forall_mem_append.mpr ⟨hbest, forall_mem_singleton.mpr fun _ => hbetter⟩⟩
    · obtain ⟨hmem, hready, hbest⟩ := ih h
      exact ⟨mem_append_left _ hmem, hready,
        forall_mem_append.mpr ⟨hbest, forall_mem_singleton.mpr fun hready => absurd hready ha⟩⟩

end Pick

section Greedy

variable {ι : Type} {items : List ι} {needs better : ι → ι → Prop}

def Ready (items : List ι) (needs : ι → ι → Prop) (done : List ι) (i : ι) : Prop :=
  i ∈ items ∧ i ∉ done ∧ ∀ j, needs i j → j ∈ done

/-- Every item was the best of the ready ones when it was taken. -/
def Greedy (items : List ι) (needs better : ι → ι → Prop) (order : List ι) : Prop :=
  ∀ done i rest, order = done ++ i :: rest →
    Ready items needs done i ∧ ∀ j, Ready items needs done j → ¬ better j i

theorem greedy_nil : Greedy items needs better [] := by
  intro done i rest h
  exact absurd h (by simp)

theorem Greedy.concat {done : List ι} {i : ι} (h : Greedy items needs better done)
    (hready : Ready items needs done i) (hbest : ∀ j, Ready items needs done j → ¬ better j i) :
    Greedy items needs better (done ++ [i]) := by
  intro before j rest heq
  rcases eq_nil_or_concat rest with rfl | ⟨rest, k, rfl⟩
  · obtain ⟨rfl, hij⟩ := append_inj' heq rfl
    obtain rfl : i = j := by simpa using hij
    exact ⟨hready, hbest⟩
  · rw [concat_eq_append, ← cons_append, ← append_assoc] at heq
    obtain ⟨rfl, -⟩ := append_inj' heq rfl
    exact h before j rest rfl

theorem Greedy.of_append {done rest : List ι} (h : Greedy items needs better (done ++ rest)) :
    Greedy items needs better done := by
  intro before i after heq
  exact h before i (after ++ rest) (by rw [heq]; simp)

variable {order : List ι} (h : Greedy items needs better order)
include h

theorem Greedy.mem {i : ι} (hi : i ∈ order) : i ∈ items := by
  obtain ⟨done, rest, rfl⟩ := append_of_mem hi
  exact (h done i rest rfl).1.1

theorem Greedy.nodup : order.Nodup := by
  induction order using List.reverseRecOn with
  | nil => exact nodup_nil
  | append_singleton done i ih =>
    have hi := (h done i [] rfl).1
    refine List.Nodup.append (ih h.of_append) (nodup_singleton i) ?_
    simpa using hi.2.1

/-- A schedule as long as the list of the items has them all. -/
theorem Greedy.perm (hlength : items.length ≤ order.length) : order.Perm items :=
  (h.nodup.subperm fun _ hi => h.mem hi).perm_of_length_le hlength

/-- The rank never falls along a schedule, if no item has a higher rank than those
that need it, and a better item is one of lower or the same rank. -/
theorem Greedy.rank_le {κ : Type} [LinearOrder κ] {rank : ι → κ}
    (hneeds : ∀ i j, needs i j → rank j ≤ rank i)
    (hbetter : ∀ i ∈ items, ∀ j ∈ items, rank i < rank j → better i j) :
    order.Pairwise fun i j => rank i ≤ rank j := by
  have hchain : order.IsChain fun i j => rank i ≤ rank j := by
    rw [isChain_iff_forall_rel_of_append_cons_cons]
    intro i j done rest heq
    have hi := h done i (j :: rest) heq
    have hj := h (done ++ [i]) j rest (by rw [heq]; simp)
    by_cases hready : ∀ k, needs j k → k ∈ done
    · -- `j` was ready when `i` was taken
      have hfresh : j ∉ done := fun hmem => hj.1.2.1 (mem_append_left _ hmem)
      have hnot := hi.2 j ⟨hj.1.1, hfresh, hready⟩
      exact not_lt.mp fun hlt => hnot (hbetter j hj.1.1 i hi.1.1 hlt)
    · -- what `j` was waiting for is `i`
      push Not at hready
      obtain ⟨k, hk, hout⟩ := hready
      have hlast : k = i := by
        have := hj.1.2.2 k hk
        simpa [hout] using this
      exact hneeds j i (hlast ▸ hk)
  exact isChain_iff_pairwise.mp hchain

/-- The needs of a complete schedule have no cycle. -/
theorem Greedy.acyclic
    (hmem : ∀ i j, needs i j → i ∈ order) (i : ι) : ¬ Relation.TransGen needs i i := by
  classical
  -- along the needs the place in the schedule falls
  have hstep : ∀ a b, needs a b → order.idxOf b < order.idxOf a := by
    intro a b hab
    obtain ⟨done, rest, rfl⟩ := append_of_mem (hmem a b hab)
    obtain ⟨-, hfresh, hdone⟩ := (h done a rest rfl).1
    rw [idxOf_append_of_notMem hfresh, idxOf_append_of_mem (hdone b hab), idxOf_cons_self]
    exact idxOf_lt_length_of_mem (hdone b hab)
  have hpath : ∀ a b, Relation.TransGen needs a b → order.idxOf b < order.idxOf a := by
    intro a b hab
    induction hab with
    | single hab => exact hstep _ _ hab
    | tail _ hbc ih => exact (hstep _ _ hbc).trans ih
  exact fun hcycle => lt_irrefl _ (hpath i i hcycle)

omit h

/-- If some items are left and none of them is ready, then the needs have a cycle. -/
theorem cycle_of_stuck {done : List ι} {i : ι} (hi : i ∈ items) (hleft : i ∉ done)
    (hneeds : ∀ i j, needs i j → j ∈ items) (hstuck : ∀ j, ¬ Ready items needs done j) :
    ∃ j, Relation.TransGen needs j j := by
  by_contra hacyclic
  push Not at hacyclic
  -- among the finitely many items that are left, the needs are well founded
  let Left := { j // j ∈ items ∧ j ∉ done }
  have : Finite Left := ((finite_toSet items).subset fun _ hj => hj.1).to_subtype
  let r : Left → Left → Prop := fun a b => Relation.TransGen needs b.1 a.1
  have : IsTrans Left r := ⟨fun _ _ _ hab hbc => hbc.trans hab⟩
  have : Std.Irrefl r := ⟨fun a => hacyclic a.1⟩
  obtain ⟨m, -, hmin⟩ := (Finite.wellFounded_of_trans_of_irrefl r).has_min Set.univ
    ⟨⟨i, hi, hleft⟩, trivial⟩
  refine hstuck m.1 ⟨m.2.1, m.2.2, fun k hk => ?_⟩
  by_contra hout
  exact hmin ⟨k, hneeds m.1 k hk, hout⟩ trivial (.single hk)

/-- Two complete schedules of the same items, with the same needs and a total order
between the items, are the same. -/
theorem Greedy.unique {items' order order' : List ι} (h : Greedy items needs better order)
    (h' : Greedy items' needs better order') (hitems : ∀ i, i ∈ items ↔ i ∈ items')
    (htotal : ∀ i ∈ items, ∀ j ∈ items, i ≠ j → better i j ∨ better j i)
    (hlength : order.length = order'.length) : order = order' := by
  have hready : ∀ done i, Ready items needs done i ↔ Ready items' needs done i := by
    intro done i
    rw [Ready, Ready, hitems]
  -- the two agree on every length, by induction on it
  have hprefix : ∀ n ≤ order.length, order.take n = order'.take n := by
    intro n
    induction n with
    | zero => simp
    | succ n ih =>
      intro hn
      have hn' : n < order'.length := by omega
      have hbefore := ih (by omega)
      rw [take_succ_eq_append_getElem hn, take_succ_eq_append_getElem hn', hbefore]
      have hi := h (order.take n) order[n] (order.drop (n + 1)) (by simp)
      have hj := h' (order'.take n) order'[n] (order'.drop (n + 1)) (by simp)
      rw [hbefore] at hi
      congr 2
      by_contra hne
      rcases htotal _ hi.1.1 _ ((hitems _).mpr hj.1.1) hne with hbetter | hbetter
      · exact hj.2 _ ((hready _ _).mp hi.1) hbetter
      · exact hi.2 _ ((hready _ _).mpr hj.1) hbetter
  have := hprefix order.length le_rfl
  rwa [take_length, hlength, take_length] at this

/-- The names of the items of a schedule are a schedule of the names. -/
theorem Greedy.map {κ : Type} {name : ι → κ} {needs' better' : κ → κ → Prop} {order : List ι}
    (h : Greedy items needs better order) (hinj : ∀ i ∈ items, ∀ j ∈ items, name i = name j → i = j)
    (hneeds : ∀ i ∈ items, ∀ a, needs' (name i) a ↔ ∃ j, needs i j ∧ name j = a)
    (hclosed : ∀ i j, needs i j → j ∈ items)
    (hbetter : ∀ i ∈ items, ∀ j ∈ items, better' (name i) (name j) → better i j) :
    Greedy (items.map name) needs' better' (order.map name) := by
  have hready : ∀ done : List ι, (∀ i ∈ done, i ∈ items) → ∀ i ∈ items,
      (Ready (items.map name) needs' (done.map name) (name i) ↔ Ready items needs done i) := by
    intro done hdone i hi
    have hmem : ∀ j ∈ items, (name j ∈ done.map name ↔ j ∈ done) := by
      intro j hj
      refine ⟨fun hname => ?_, mem_map_of_mem⟩
      obtain ⟨k, hk, heq⟩ := mem_map.mp hname
      exact hinj k (hdone k hk) j hj heq ▸ hk
    simp only [Ready, mem_map_of_mem hi, hi, hmem i hi, hneeds i hi, true_and]
    refine and_congr_right fun _ => ⟨fun hall j hj => ?_, ?_⟩
    · exact (hmem j (hclosed i j hj)).mp (hall (name j) ⟨j, hj, rfl⟩)
    · rintro hall a ⟨j, hj, rfl⟩
      exact mem_map_of_mem (hall j hj)
  intro done a rest heq
  obtain ⟨before, after, rfl, rfl, hafter⟩ := map_eq_append_iff.mp heq
  obtain ⟨i, tail, rfl, rfl, rfl⟩ := map_eq_cons_iff.mp hafter
  obtain ⟨hi, hbest⟩ := h before i tail rfl
  have hin : ∀ j ∈ before, j ∈ items := fun j hj => h.mem (mem_append_left _ hj)
  refine ⟨(hready before hin i hi.1).mpr hi, fun b hb => ?_⟩
  obtain ⟨j, hj, rfl⟩ := mem_map.mp hb.1
  exact fun hbj => hbest j ((hready before hin j hj).mp hb) (hbetter j hj i hi.1 hbj)

end Greedy

section Plan

variable {ι : Type} (better : ι → ι → Prop) [DecidableRel better] (ready : List ι → ι → Bool)
  (items : List ι)

/-- Take the best ready item, `n` times. The error is what was done when no item was
ready. -/
def plan : ℕ → List ι → Except (List ι) (List ι)
  | 0, done => .ok done
  | n + 1, done =>
    match pick better (ready done) items with
    | none => .error done
    | some i => plan n (done ++ [i])

variable {better ready items} {needs : ι → ι → Prop}

section Rules

variable (hready : ∀ done, ∀ i ∈ items, (ready done i = true ↔ Ready items needs done i))
  (hirrefl : ∀ a, ¬ better a a) (htrans : ∀ a b c, better a b → better b c → better a c)
include hready

theorem ready_of_plan_error {n : ℕ} {done stuck : List ι}
    (h : plan better ready items n done = .error stuck) :
    (∀ i, ¬ Ready items needs stuck i) ∧ stuck.length < done.length + n := by
  induction n generalizing done with
  | zero => exact absurd h nofun
  | succ n ih =>
    rw [plan] at h
    split at h
    · rename_i hnone
      obtain rfl : done = stuck := Except.error.inj h
      refine ⟨fun i hi => ?_, by omega⟩
      have := pick_eq_none hnone i hi.1
      exact absurd ((hready done i hi.1).mpr hi) (by simp [this])
    · obtain ⟨hstuck, hlt⟩ := ih h
      rw [length_append, length_singleton] at hlt
      exact ⟨hstuck, by omega⟩

include hirrefl htrans

theorem greedy_plan {n : ℕ} {done order : List ι} (hdone : Greedy items needs better done)
    (h : plan better ready items n done = .ok order) :
    Greedy items needs better order ∧ order.length = done.length + n := by
  induction n generalizing done with
  | zero =>
    obtain rfl : done = order := Except.ok.inj h
    exact ⟨hdone, rfl⟩
  | succ n ih =>
    rw [plan] at h
    split at h
    · exact absurd h nofun
    · rename_i i hi
      obtain ⟨hmem, hi', hbest⟩ := pick_eq_some hirrefl htrans hi
      have hnext := hdone.concat ((hready done i hmem).mp hi')
        fun j hj => hbest j hj.1 ((hready done j hj.1).mpr hj)
      obtain ⟨hgreedy, hlength⟩ := ih hnext h
      rw [length_append, length_singleton] at hlength
      exact ⟨hgreedy, by omega⟩

/-- The planner gets stuck exactly if the needs have a cycle. -/
theorem plan_error_iff (hnodup : items.Nodup) (hneeds : ∀ i j, needs i j → i ∈ items ∧ j ∈ items) :
    (∃ stuck, plan better ready items items.length [] = .error stuck) ↔
      ∃ i, Relation.TransGen needs i i := by
  constructor
  · rintro ⟨stuck, h⟩
    obtain ⟨hstuck, hlt⟩ := ready_of_plan_error hready h
    rw [length_nil, zero_add] at hlt
    obtain ⟨i, hi, hleft⟩ : ∃ i ∈ items, i ∉ stuck := by
      by_contra hall
      push Not at hall
      have := (hnodup.subperm hall).length_le
      omega
    exact cycle_of_stuck hi hleft (fun i j hij => (hneeds i j hij).2) hstuck
  · rintro ⟨i, hcycle⟩
    rcases h : plan better ready items items.length [] with stuck | order
    · exact ⟨stuck, rfl⟩
    · obtain ⟨hgreedy, hlength⟩ := greedy_plan hready hirrefl htrans greedy_nil h
      have hperm := hgreedy.perm (by simp [hlength])
      exact absurd hcycle
        (hgreedy.acyclic (fun a b hab => hperm.mem_iff.mpr (hneeds a b hab).1) i)

end Rules

end Plan

end OpenRFS.Schedule
