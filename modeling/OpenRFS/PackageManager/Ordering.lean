import OpenRFS.Codec.Checked
import OpenRFS.Digraph.Topological
import OpenRFS.PackageManager.Plan
import OpenRFS.PackageState.Reach

/-!
# The order of a plan

`orderPackages` emits a selected package once all packages it depends on are emitted. It
finds an order of all positions unless the dependencies have a cycle.
-/

namespace OpenRFS.PackageManager

open Codec PackageState OpenRFS.Digraph List

variable {solver : Solver}

def providerPosition (solver : Solver) (dependency : Relation) : Option ℕ :=
  (bindingFor solver dependency.identifier).bind (selectedPositionForProvider solver)

/-- The selected package at `i` has a dependency that is bound to the one at `j`. -/
def DependsOn (solver : Solver) (i j : ℕ) : Prop :=
  ∃ item, solver.selected[i]? = some item ∧ ∃ dependency ∈ item.dependencies,
    providerPosition solver dependency = some j

/-- Every dependency of a selected package is bound to a selected provider. -/
def Bound (solver : Solver) : Prop :=
  ∀ item ∈ solver.selected, ∀ dependency ∈ item.dependencies, ∃ provider position,
    bindingFor solver dependency.identifier = some provider ∧
      selectedPositionForProvider solver provider = some position

theorem DependsOn.lt {i j : ℕ} (h : DependsOn solver i j) :
    i < solver.selected.length ∧ j < solver.selected.length := by
  obtain ⟨item, hitem, dependency, -, hj⟩ := h
  obtain ⟨provider, -, hj⟩ := Option.bind_eq_some_iff.mp hj
  exact ⟨(List.getElem?_eq_some_iff.mp hitem).1, (List.findIdx?_eq_some_iff_getElem.mp hj).1⟩

theorem Bound.position (h : Bound solver) {item : Item} (hitem : item ∈ solver.selected)
    {dependency : Relation} (hdependency : dependency ∈ item.dependencies) :
    ∃ position, providerPosition solver dependency = some position := by
  obtain ⟨provider, position, hprovider, hposition⟩ := h item hitem dependency hdependency
  exact ⟨position, by rw [providerPosition, hprovider, Option.bind_some, hposition]⟩

/-- What has been emitted: the positions in `order`, providers first. -/
structure Emitted (solver : Solver) (states : List Bool) (order : List ℕ) : Prop where
  length : states.length = solver.selected.length
  marked : ∀ j, states.getD j false = true ↔ j ∈ order
  range : ∀ j ∈ order, j < solver.selected.length
  topological : Topological (DependsOn solver) order

variable {states : List Bool} {order : List ℕ}

theorem Emitted.start : Emitted solver (List.replicate solver.selected.length false) [] := by
  refine ⟨length_replicate, fun j => ?_, nofun, .nil⟩
  simp [getD_eq_getElem?_getD, getElem?_replicate]
  split_ifs <;> rfl

theorem exists_dependenciesEmitted (states : List Bool) {dependencies : List Relation}
    (hbound : ∀ dependency ∈ dependencies, ∃ j, providerPosition solver dependency = some j) :
    ∃ ready, dependenciesEmitted solver states dependencies = .ok ready := by
  induction dependencies with
  | nil => exact ⟨true, rfl⟩
  | cons dependency dependencies ih =>
    obtain ⟨position, hposition⟩ := hbound dependency mem_cons_self
    rw [dependenciesEmitted, ← providerPosition, hposition]
    dsimp only
    split_ifs
    · exact ih fun d hd => hbound d (mem_cons_of_mem _ hd)
    · exact ⟨false, rfl⟩

theorem Bound.exists_orderPass (hbound : Bound solver) {rest : List (ℕ × Item)}
    (hrest : ∀ p ∈ rest, solver.selected[p.1]? = some p.2) (states : List Bool) (order : List ℕ) :
    ∃ result, orderPass solver rest states order = .ok result := by
  induction rest generalizing states order with
  | nil => exact ⟨_, rfl⟩
  | cons p rest ih =>
    obtain ⟨position, item⟩ := p
    have htail := fun p hp => hrest p (mem_cons_of_mem _ hp)
    have hitem := mem_of_getElem? (hrest _ mem_cons_self)
    obtain ⟨ready, hok⟩ := exists_dependenciesEmitted states
      fun dependency hdependency => hbound.position hitem hdependency
    rw [orderPass]
    split_ifs
    · exact ih htail _ _
    · rw [hok]
      cases ready with
      | true => exact ih htail _ _
      | false => exact ih htail _ _

theorem getElem?_of_mem_zip {p : ℕ × Item}
    (hp : p ∈ (List.range solver.selected.length).zip solver.selected) :
    solver.selected[p.1]? = some p.2 := by
  obtain ⟨i, hi, rfl⟩ := mem_iff_getElem.mp hp
  simp

variable (h : Emitted solver states order)
include h

theorem Emitted.emit {position : ℕ}
    (hposition : position < solver.selected.length) (hnew : position ∉ order)
    (hready : ∀ j, DependsOn solver position j → j ∈ order) :
    Emitted solver (states.set position true) (order ++ [position]) := by
  refine ⟨length_set.trans h.length, fun j => ?_,
    forall_mem_append.mpr ⟨h.range, forall_mem_singleton.mpr hposition⟩,
    h.topological.snoc hnew hready⟩
  rw [getD_set_true states (h.length ▸ hposition), h.marked, mem_append, mem_singleton]

theorem Emitted.dependencies {dependencies : List Relation}
    {ready : Bool} (hok : dependenciesEmitted solver states dependencies = .ok ready) :
    (ready → ∀ dependency ∈ dependencies, ∀ j,
      providerPosition solver dependency = some j → j ∈ order) ∧
    (ready = false → ∃ dependency ∈ dependencies, ∃ j,
      providerPosition solver dependency = some j ∧ j ∉ order) := by
  induction dependencies with
  | nil =>
    cases hok
    exact ⟨nofun, nofun⟩
  | cons dependency dependencies ih =>
    rw [dependenciesEmitted, ← providerPosition] at hok
    cases hposition : providerPosition solver dependency with
    | none =>
      rw [hposition] at hok
      cases hok
    | some position =>
      simp only [hposition] at hok
      by_cases hmarked : states.getD position false
      · rw [if_pos hmarked] at hok
        obtain ⟨hall, hmissing⟩ := ih hok
        refine ⟨fun hready => forall_mem_cons.mpr ⟨fun j hj => ?_, hall hready⟩, fun hready => ?_⟩
        · rw [hposition] at hj
          exact Option.some.inj hj ▸ (h.marked position).mp hmarked
        · obtain ⟨d, hd, hj⟩ := hmissing hready
          exact ⟨d, mem_cons_of_mem _ hd, hj⟩
      · rw [if_neg hmarked] at hok
        cases hok
        exact ⟨nofun, fun _ => ⟨dependency, mem_cons_self, position,
          hposition, fun hmem => hmarked ((h.marked position).mpr hmem)⟩⟩

/-- A pass emits some packages; if it emits none, each package it looked at is emitted or
waits for one that is not. -/
theorem Emitted.pass {rest : List (ℕ × Item)} {result : List Bool × List ℕ}
    (hrest : ∀ p ∈ rest, solver.selected[p.1]? = some p.2)
    (hpass : orderPass solver rest states order = .ok result) :
    Emitted solver result.1 result.2 ∧ order.length ≤ result.2.length ∧
      (result.2.length = order.length → ∀ p ∈ rest,
        p.1 ∈ order ∨ ∃ j, DependsOn solver p.1 j ∧ j ∉ order) := by
  induction rest generalizing states order with
  | nil =>
    cases hpass
    exact ⟨h, le_rfl, nofun⟩
  | cons p rest ih =>
    obtain ⟨position, item⟩ := p
    have hitem := hrest _ mem_cons_self
    have htail := fun p hp => hrest p (mem_cons_of_mem _ hp)
    -- nothing is emitted here
    have hskip : orderPass solver rest states order = .ok result →
        (position ∈ order ∨ ∃ j, DependsOn solver position j ∧ j ∉ order) →
        Emitted solver result.1 result.2 ∧ order.length ≤ result.2.length ∧
          (result.2.length = order.length → ∀ p ∈ (position, item) :: rest,
            p.1 ∈ order ∨ ∃ j, DependsOn solver p.1 j ∧ j ∉ order) := by
      intro hpass hwaits
      obtain ⟨h', hle, hstuck⟩ := ih h htail hpass
      exact ⟨h', hle, fun heq => forall_mem_cons.mpr ⟨hwaits, hstuck heq⟩⟩
    rw [orderPass] at hpass
    by_cases hmarked : states.getD position false
    · rw [if_pos hmarked] at hpass
      exact hskip hpass (.inl ((h.marked position).mp hmarked))
    rw [if_neg hmarked] at hpass
    obtain ⟨ready, hok, hpass⟩ := bind_eq_ok.mp hpass
    obtain ⟨hall, hmissing⟩ := h.dependencies hok
    cases ready with
    | false =>
      obtain ⟨dependency, hdependency, j, hj, hnot⟩ := hmissing rfl
      exact hskip hpass (.inr ⟨j, ⟨item, hitem, dependency, hdependency, hj⟩, hnot⟩)
    | true =>
      have hemit := h.emit (List.getElem?_eq_some_iff.mp hitem).1
        (fun hmem => hmarked ((h.marked position).mpr hmem)) fun j hj => by
          obtain ⟨item', hitem', dependency, hdependency, hj⟩ := hj
          rw [hitem] at hitem'
          cases hitem'
          exact hall rfl dependency hdependency j hj
      obtain ⟨h', hle, -⟩ := ih hemit htail hpass
      rw [length_append, length_singleton] at hle
      exact ⟨h', by omega, fun heq => by omega⟩

theorem Emitted.subperm : order.Subperm (List.range solver.selected.length) :=
  h.topological.nodup.subperm fun j hj => mem_range.mpr (h.range j hj)

theorem Emitted.loop {passes : ℕ} {result : List ℕ}
    (hloop : orderLoop solver passes states order = .ok result) :
    ∃ states', Emitted solver states' result ∧ result.Perm (List.range solver.selected.length) := by
  induction passes generalizing states order with
  | zero =>
    rw [orderLoop] at hloop
    split_ifs at hloop with hdone
    cases hloop
    exact ⟨states, h, h.subperm.perm_of_length_le (by rwa [length_range])⟩
  | succ passes ih =>
    rw [orderLoop] at hloop
    split_ifs at hloop with hdone
    · cases hloop
      exact ⟨states, h, h.subperm.perm_of_length_le (by rwa [length_range])⟩
    · obtain ⟨result', hpass, hloop⟩ := bind_eq_ok.mp hloop
      dsimp only at hloop
      split_ifs at hloop
      exact ih (h.pass (fun p hp => getElem?_of_mem_zip hp) hpass).1 hloop

omit h

theorem orderPackages_perm (h : orderPackages solver = .ok order) :
    order.Perm (List.range solver.selected.length) := by
  obtain ⟨-, -, hperm⟩ := Emitted.start.loop h
  exact hperm

theorem Emitted.loop_total (hbound : Bound solver) (passes : ℕ) (h : Emitted solver states order)
    (hpasses : solver.selected.length ≤ order.length + passes) :
    (∃ result, orderLoop solver passes states order = .ok result) ∨
      orderLoop solver passes states order = .error .cycle ∧ ¬ Acyclic (DependsOn solver) := by
  induction passes generalizing states order with
  | zero =>
    rw [orderLoop, if_pos (by simpa using hpasses)]
    exact .inl ⟨order, rfl⟩
  | succ passes ih =>
    by_cases hdone : solver.selected.length ≤ order.length
    · rw [orderLoop, if_pos hdone]
      exact .inl ⟨order, rfl⟩
    have hzip : ∀ p ∈ (List.range solver.selected.length).zip solver.selected,
        solver.selected[p.1]? = some p.2 := fun p hp => getElem?_of_mem_zip hp
    obtain ⟨result, hpass⟩ := hbound.exists_orderPass hzip states order
    obtain ⟨h', hle, hstuck⟩ := h.pass hzip hpass
    have hloop : orderLoop solver (passes + 1) states order =
        if result.2.length = order.length then .error .cycle
        else orderLoop solver passes result.1 result.2 := by
      rw [orderLoop, if_neg hdone, hpass]
      rfl
    rw [hloop]
    by_cases heq : result.2.length = order.length
    · refine .inr ⟨if_pos heq, fun hacyclic => ?_⟩
      obtain ⟨i, hi, hnot, hfree⟩ := hacyclic.exists_next (not_le.mp hdone)
      have hmem : (i, solver.selected[i]) ∈
          (List.range solver.selected.length).zip solver.selected :=
        mem_iff_getElem.mpr ⟨i, by simpa using hi, by simp⟩
      rcases hstuck heq _ hmem with hmem | ⟨j, hj, hjnot⟩
      · exact hnot hmem
      · exact hfree j hj.lt.2 hjnot hj
    · rw [if_neg heq]
      exact ih h' (by omega)

/-- `order_packages` reports a cycle if and only if the provider graph of the selected
packages has one, and otherwise orders them with providers first. -/
theorem orderPackages_spec (hbound : Bound solver) :
    (orderPackages solver = .error .cycle ↔ ¬ Acyclic (DependsOn solver)) ∧
    (Acyclic (DependsOn solver) → ∃ order, orderPackages solver = .ok order ∧
      order.Perm (List.range solver.selected.length) ∧
      ∀ i j, DependsOn solver i j → order.idxOf j < order.idxOf i) := by
  rcases Emitted.start.loop_total hbound solver.selected.length (by simp) with
    ⟨order, hok⟩ | ⟨hcycle, hcyclic⟩
  · obtain ⟨states, h, hperm⟩ := Emitted.start.loop hok
    have hmem : ∀ i j, DependsOn solver i j → i ∈ order := fun i j hij =>
      hperm.mem_iff.mpr (mem_range.mpr hij.lt.1)
    have hacyclic := h.topological.acyclic hmem
    refine ⟨⟨fun herror => ?_, absurd hacyclic⟩, fun _ => ⟨order, hok, hperm,
      fun i j hij => (h.topological.idxOf_lt (hmem i j hij) hij).2⟩⟩
    rw [orderPackages, hok] at herror
    cases herror
  · exact ⟨⟨fun _ => hcyclic, fun _ => hcycle⟩, fun hacyclic => absurd hacyclic hcyclic⟩

def plainItem (identifier : Bytes) (dependencies : List Bytes) : Item where
  entry := ⟨⟨[], 0, 0, 0, 0, 0, 0, 0, 0, 0, 0, []⟩, 0, identifier, [], [], 0, [], [], 0, 0, 0, 0,
    0, 0⟩
  dependencies := dependencies.map fun identifier => ⟨identifier, []⟩
  conflicts := []
  provides := []

/-- The first of two packages needs what the second provides under another name. -/
def pairSolver : Solver := ⟨[plainItem [1] [[3]], plainItem [2] []], [⟨[3], [2]⟩]⟩

theorem orderPackages_spec_pair :
    (orderPackages pairSolver = .error .cycle ↔ ¬ Acyclic (DependsOn pairSolver)) ∧
      orderPackages pairSolver = .ok [1, 0] := by
  refine ⟨(orderPackages_spec fun item hitem dependency hdependency => ?_).1, by decide +kernel⟩
  rcases mem_cons.mp hitem with rfl | hitem
  · obtain rfl := mem_singleton.mp hdependency
    exact ⟨[2], 1, by decide +kernel, by decide +kernel⟩
  · obtain rfl := mem_singleton.mp hitem
    cases hdependency

end OpenRFS.PackageManager
