import OpenRFS.NativeHandle.Moves

/-!
# Runs of a handle table

From a table that was just initialized, any sequence of calls is sound. A retired
handle is stale until its slot was retired as often as there are generations, a full
table has every slot active, and closing everything leaves a table empty if every
callback closes its resource.
-/

namespace OpenRFS.NativeHandle

open Ledger Relation List Function Table World

variable {σ : Type} {w : World σ} (closeResource : Option (CloseFn σ))

section Places

variable {t : Table} {limit : ℕ} {active : Fin tableLimit → Bool} {i : Fin tableLimit}

theorem firstInactive_eq_some (h : firstInactive limit active = some i) :
    active i = false ∧ i.val < limit := by
  have := find?_some h
  simpa [and_comm] using this

theorem firstInactive_eq_none (h : firstInactive limit active = none) (hi : i.val < limit) :
    active i := by
  have := find?_eq_none.mp h i (mem_finRange i)
  simpa [hi] using this

theorem decodeSlot_eq_ok {handle : UInt64} (h : t.decodeSlot handle = .ok i) :
    i = Fin.ofNat tableLimit (encodedIndex handle - 1) ∧ (t.slots i).active ∧
      (t.slots i).generation = encodedGeneration handle := by
  simp only [decodeSlot] at h
  split_ifs at h with hbad hslot
  cases h
  simp only [Bool.or_eq_true, Bool.not_eq_true', decide_eq_true_eq, not_or, not_not,
    Bool.not_eq_false] at hslot
  exact ⟨rfl, hslot.1, hslot.2.1⟩

open Finset

theorem sum_names (slots : Fin tableLimit → Slot) :
    ∑ o, tally (Slot.names o) slots = tally Slot.active slots := by
  have hfiber := Finset.card_eq_sum_card_fiberwise
    (s := Finset.univ.filter fun i => (slots i).active) (t := Finset.univ)
    (f := fun i => (slots i).objectIndex) (fun _ _ => mem_coe.mpr (mem_univ _))
  rw [tally, hfiber]
  refine sum_congr rfl fun o _ => ?_
  rw [tally, Finset.filter_filter]
  simp [Slot.names]

namespace Table.Balanced

theorem activeObjects_le (h : t.Balanced) : t.activeObjects ≤ t.activeHandles := by
  rw [h.objects, h.handles, ← sum_names, tally_eq_sum]
  refine Finset.sum_le_sum fun o _ => ?_
  rw [← h.references o]
  cases ho : (t.objects o).active with
  | false => exact Nat.zero_le _
  | true => exact Nat.one_le_iff_ne_zero.mpr ((h.live o).mp ho)

theorem slots_active_of_objects (h : t.Balanced)
    (hobjects : ∀ o : Fin tableLimit, o.val < t.limit → (t.objects o).active)
    (hi : i.val < t.limit) : (t.slots i).active := by
  have hsub : (Finset.univ.filter fun j => (t.slots j).active) ⊆
      Finset.univ.filter fun j => (t.objects j).active :=
    monotone_filter_right _ fun j _ hj => hobjects j (h.slots_below j hj)
  have hcard : (Finset.univ.filter fun j => (t.objects j).active).card ≤
      (Finset.univ.filter fun j => (t.slots j).active).card := by
    have := h.activeObjects_le
    rwa [h.objects, h.handles] at this
  have heq := eq_of_subset_of_card_le hsub hcard
  have hmem : i ∈ Finset.univ.filter fun j => (t.slots j).active := by
    rw [heq]
    simpa using hobjects i hi
  simpa using hmem

/-- A slot is left as long as there are fewer handles than the limit. -/
theorem inactiveSlot_eq_none_iff (h : t.Balanced) :
    t.inactiveSlot = none ↔ t.limit ≤ t.activeHandles := by
  have hsub : (Finset.univ.filter fun i => (t.slots i).active) ⊆
      Finset.univ.filter fun i : Fin tableLimit => i.val < t.limit :=
    monotone_filter_right _ fun i _ => h.slots_below i
  have hcard : (Finset.univ.filter fun i : Fin tableLimit => i.val < t.limit).card = t.limit := by
    rw [Fin.card_filter_val_lt, min_eq_right h.limit_le]
  rw [h.handles, tally, ← hcard]
  constructor
  · intro hnone
    exact card_le_card
      (monotone_filter_right _ fun i _ hi => firstInactive_eq_none hnone hi)
  · intro hle
    have heq := eq_of_subset_of_card_le hsub hle
    refine find?_eq_none.mpr fun i _ hi => ?_
    simp only [Bool.and_eq_true, decide_eq_true_eq, Bool.not_eq_true'] at hi
    have hmem : i ∈ Finset.univ.filter fun i => (t.slots i).active := by
      rw [heq]
      simpa using hi.1
    rw [(Finset.mem_filter.mp hmem).2] at hi
    exact Bool.noConfusion hi.2

end Table.Balanced

end Places

section Calls

theorem move_install (type : UInt8) (resource : Resource) :
    ReflTransGen Move w (install type resource w).2 := by
  rw [install]
  split_ifs with hready htype
  · exact .refl
  · exact .refl
  · rcases hi : w.table.inactiveSlot with - | i
    · exact .refl
    · rcases ho : w.table.inactiveObject with - | o
      · exact .refl
      · obtain ⟨hfree, hlt⟩ := firstInactive_eq_some hi
        obtain ⟨hfree', hlt'⟩ := firstInactive_eq_some ho
        exact .single (.install w i o type resource hfree hlt hfree' hlt' (by simpa using htype))

theorem move_duplicate (source : UInt64) : ReflTransGen Move w (duplicate source w).2 := by
  rw [duplicate]
  rcases hsource : w.table.decodeSlot source with status | index
  · exact .refl
  · rcases hi : w.table.inactiveSlot with - | i
    · exact .refl
    · obtain ⟨hfree, hlt⟩ := firstInactive_eq_some hi
      dsimp only
      split_ifs with hfull hstale
      · exact .refl
      · exact .refl
      · exact .single (.duplicate w i index hfree hlt (decodeSlot_eq_ok hsource).2.1)

/-- What closing a slot comes to: it is retired, with or without an answer that gives the
resource up, or the answer keeps the resource. -/
theorem closeValidSlot_cases (i : Fin tableLimit) (w : World σ) :
    (closeValidSlot closeResource i w).2 = retire i w ∨
      (w.table.objects (w.table.slots i).objectIndex).references ≤ 1 ∧
        ∃ (result : CloseResult) (context : σ), (closeValidSlot closeResource i w).2 =
          (if result.consuming then retire i else id)
            { w with context := context, log := .called w.table i result :: w.log } := by
  rw [closeValidSlot]
  split_ifs with hmany
  · exact .inl rfl
  · rcases closeResource with - | f
    · exact .inl rfl
    · simp only [askClose]
      generalize f _ _ _ = answer
      obtain ⟨result, context⟩ := answer
      refine .inr ⟨le_of_not_gt hmany, result, context, ?_⟩
      cases result <;> rfl

theorem move_closeValidSlot {i : Fin tableLimit} (hi : (w.table.slots i).active) :
    ReflTransGen Move w (closeValidSlot closeResource i w).2 := by
  rcases closeValidSlot_cases closeResource i w with heq | ⟨hlast, result, context, heq⟩ <;> rw [heq]
  · exact .single (.retire w i hi)
  · split_ifs with hresult
    · exact .single (.consume w i result context hi hlast hresult)
    · exact .single (.keep w i result context hi hlast (by simpa using hresult))

theorem move_closeAllSlot (i : Fin tableLimit) :
    ReflTransGen Move w (closeAllSlot closeResource i w).2 := by
  rw [closeAllSlot]
  split_ifs with hidle hbad hobject
  · exact .refl
  · exact .refl
  · exact .refl
  · exact move_closeValidSlot closeResource (by simpa using hidle)

theorem move_closeAllSlots (l : List (Fin tableLimit)) :
    ∀ w : World σ, ReflTransGen Move w (closeAllSlots closeResource l w).2 := by
  induction l with
  | nil => exact fun _ => .refl
  | cons i rest ih => exact fun w => (move_closeAllSlot closeResource i).trans (ih _)

theorem move_step (w : World σ) (c : Call σ) : ReflTransGen Move w (step w c) := by
  cases c with
  | install type resource => exact move_install type resource
  | duplicate source => exact move_duplicate source
  | resolve handle expectedType => exact .refl
  | close handle closeResource =>
    rw [step, close]
    rcases hi : w.table.decodeSlot handle with status | i
    · exact .refl
    · dsimp only
      split_ifs with hobject
      · exact .refl
      · exact move_closeValidSlot closeResource (decodeSlot_eq_ok hi).2.1
  | closeAll closeResource =>
    rw [step, closeAll]
    split_ifs with hbad
    · exact .refl
    · exact move_closeAllSlots closeResource _ w

theorem Sound.run (h : Sound w) (calls : List (Call σ)) : Sound (run w calls) := by
  induction calls generalizing w with
  | nil => exact h
  | cons c calls ih => exact ih (h.moves (move_step w c))

end Calls

def World.start (t : Table) (context : σ) : World σ := ⟨t, context, []⟩

theorem sound_start {limit : ℕ} {t : Table} (h : tableInitialize limit = .ok t)
    (context : σ) : Sound (start t context) := by
  refine ⟨balanced_tableInitialize h, fun i hi => ?_, nofun, ?_, ?_⟩
  · rw [tableInitialize] at h
    split_ifs at h with hlimit
    cases h
    have hi : i.val < limit := hi
    simp [start, hi, retirements]
  · intro o newer e between e' older hlog
    simp [start] at hlog
  · intro o _ newer e older hlog
    simp [start] at hlog

section Results

abbrev generations : ℕ := 2 ^ 32 - 1

/-- A handle that was live is stale once its slot was retired, until the slot was
retired as often as there are generations. -/
theorem resolve_eq_stale {w w' : World σ} (h : Sound w) (h' : Sound w') {handle : UInt64}
    {i : Fin tableLimit} (hlive : w.table.decodeSlot handle = .ok i)
    (hretired : retirements i w.log < retirements i w'.log)
    (hbefore : retirements i w'.log < retirements i w.log + generations) (type : UInt8) :
    w'.table.resolve handle type = .error .stale := by
  obtain ⟨hindex, hactive, hgeneration⟩ := decodeSlot_eq_ok hlive
  rcases hagain : w'.table.decodeSlot handle with status | j
  · -- `decodeSlot` has no other error
    have hstatus : status = .stale := by
      simp only [decodeSlot] at hagain
      split_ifs at hagain <;> cases hagain <;> rfl
    rw [resolve, hagain, hstatus]
    rfl
  · obtain ⟨hindex', hactive', hgeneration'⟩ := decodeSlot_eq_ok hagain
    obtain rfl : j = i := hindex'.trans hindex.symm
    have hnow := h'.generations j (h'.balanced.slots_below j hactive')
    have hthen := h.generations j (h.balanced.slots_below j hactive)
    rw [hgeneration'] at hnow
    rw [hgeneration] at hthen
    -- the two counts have the same remainder, and they are too close for that
    simp only [generations] at hbefore
    omega

theorem slots_active_of_full (h : Sound w) {type : UInt8} {resource : Resource}
    (hfull : (install type resource w).1 = .error .full) {i : Fin tableLimit}
    (hi : i.val < w.table.limit) : (w.table.slots i).active := by
  rw [install] at hfull
  split_ifs at hfull with hready htype
  · cases hfull
  · cases hfull
  · rcases hslot : w.table.inactiveSlot with - | j
    · exact firstInactive_eq_none hslot hi
    · rcases hobject : w.table.inactiveObject with - | o
      · exact h.balanced.slots_active_of_objects
          (fun o ho => firstInactive_eq_none hobject ho) hi
      · rw [hslot, hobject] at hfull
        cases hfull

theorem install_cases (h : w.table.Balanced) {type : UInt8} (htype : validType type)
    (resource : Resource) :
    (w.table.activeHandles < w.table.limit ∧ ∃ i o,
      ((w.table.slots i).active = false ∧ i.val < w.table.limit) ∧
      ((w.table.objects o).active = false ∧ o.val < w.table.limit) ∧
      install type resource w = (.ok (encodeHandle i type (w.table.slots i).generation),
        { w with table := w.table.installAt i o type resource, log := .installed o :: w.log })) ∨
    (w.table.limit ≤ w.table.activeHandles ∧ install type resource w = (.error .full, w)) := by
  rw [install, h.initialized, htype]
  cases hi : w.table.inactiveSlot with
  | none => exact .inr ⟨h.inactiveSlot_eq_none_iff.mp hi, rfl⟩
  | some i =>
    have hlt : w.table.activeHandles < w.table.limit := by
      refine lt_of_not_ge fun hle => ?_
      rw [h.inactiveSlot_eq_none_iff.mpr hle] at hi
      cases hi
    cases ho : w.table.inactiveObject with
    | none =>
      -- without a free object there is no free slot either
      obtain ⟨hfree, hbelow⟩ := firstInactive_eq_some hi
      have hactive := h.slots_active_of_objects
        (fun o hlt => firstInactive_eq_none ho hlt) hbelow
      rw [hfree] at hactive
      cases hactive
    | some o =>
      exact .inl ⟨hlt, i, o, firstInactive_eq_some hi, firstInactive_eq_some ho, rfl⟩

theorem close_table (handle : UInt64) (w : World σ) :
    (close handle closeResource w).2.table = w.table ∨ ∃ i, (w.table.slots i).active ∧
        (close handle closeResource w).2.table = w.table.retireSlot i := by
  rw [close]
  cases hdecode : w.table.decodeSlot handle with
  | error status => exact .inl rfl
  | ok i =>
    obtain ⟨-, hi, -⟩ := decodeSlot_eq_ok hdecode
    dsimp only
    split_ifs
    · exact .inl rfl
    rcases closeValidSlot_cases closeResource i w with heq | ⟨-, result, context, heq⟩ <;> rw [heq]
    · exact .inr ⟨i, hi, rfl⟩
    · split_ifs
      · exact .inr ⟨i, hi, rfl⟩
      · exact .inl rfl

/-- The events of a call after which the slots in `l` are inactive if every callback
closed its resource. -/
structure Cleared (w w' : World σ) (l : List (Fin tableLimit)) : Prop where
  stays : ∀ j, (w.table.slots j).active = false → (w'.table.slots j).active = false
  cleared : ∃ events, w'.log = events ++ w.log ∧
    ((∀ t i result, .called t i result ∈ events → result = .closed) →
      ∀ i ∈ l, (w'.table.slots i).active = false)

theorem retireSlot_active_eq (t : Table) (i j : Fin tableLimit) :
    ((t.retireSlot i).slots j).active = if j = i then false else (t.slots j).active := by
  simp only [retireSlot]
  split_ifs with h
  · rw [h, update_self]
  · rw [update_of_ne h]

theorem cleared_retire (w₁ : World σ) (i : Fin tableLimit) (events : List Event)
    (htable : w₁.table = w.table) (hlog : w₁.log = events ++ w.log) :
    Cleared w (retire i w₁) [i] := by
  constructor
  · intro j hj
    simp only [retire, retireSlot_active_eq, htable, hj, ite_self]
  · refine ⟨.retired i :: events, by simp [retire, hlog], fun _ j hj => ?_⟩
    rw [mem_singleton.mp hj]
    simp [retire, retireSlot_active_eq]

theorem cleared_closeValidSlot (i : Fin tableLimit) :
    Cleared w (closeValidSlot closeResource i w).2 [i] := by
  rcases closeValidSlot_cases closeResource i w with heq | ⟨-, result, context, heq⟩ <;> rw [heq]
  · exact cleared_retire w i [] rfl rfl
  · split_ifs with hresult
    · exact cleared_retire _ i [.called w.table i result] rfl rfl
    · -- an answer that keeps the resource is not the one that is asked for
      refine ⟨fun _ hj => hj, [.called w.table i result], rfl, fun hclosed => ?_⟩
      rw [hclosed w.table i result mem_cons_self] at hresult
      exact absurd rfl hresult

theorem cleared_closeAllSlot (h : Sound w) (i : Fin tableLimit) :
    Cleared w (closeAllSlot closeResource i w).2 [i] := by
  rw [closeAllSlot]
  by_cases hidle : (w.table.slots i).active
  · have hgeneration : (w.table.slots i).generation ≠ 0 := by
      intro hzero
      have := h.generations i (h.balanced.slots_below i hidle)
      rw [hzero] at this
      exact absurd this (Nat.succ_ne_zero _).symm
    simp only [hidle, hgeneration, (h.balanced.types i hidle).2,
      h.balanced.validSlotObject_eq_true hidle, Bool.not_true, decide_false, Bool.or_false,
      Bool.false_eq_true, if_false]
    exact cleared_closeValidSlot closeResource i
  · rw [if_pos (by simpa using hidle)]
    exact ⟨fun _ hj => hj, [], rfl, fun _ j hj => by
      rw [mem_singleton.mp hj]
      simpa using hidle⟩

theorem cleared_closeAllSlots (l : List (Fin tableLimit)) :
    ∀ {w : World σ}, Sound w → Cleared w (closeAllSlots closeResource l w).2 l := by
  induction l with
  | nil => exact fun _ => ⟨fun _ hj => hj, [], rfl, fun _ => nofun⟩
  | cons i rest ih =>
    intro w h
    have hturn := cleared_closeAllSlot closeResource h i
    have hafter := ih (h.moves (move_closeAllSlot closeResource i))
    obtain ⟨events, hlog, hi⟩ := hturn.cleared
    obtain ⟨events', hlog', hrest⟩ := hafter.cleared
    refine ⟨fun j hj => hafter.stays j (hturn.stays j hj), events' ++ events, ?_,
      fun hclosed j hj => ?_⟩
    · rw [closeAllSlots, hlog', hlog, append_assoc]
    · rcases mem_cons.mp hj with rfl | hmem
      · refine hafter.stays j (hi (fun t k r hk => ?_) j mem_cons_self)
        exact hclosed t k r (mem_append_right _ hk)
      · exact hrest (fun t k r hk => hclosed t k r (mem_append_left _ hk)) j hmem

structure Table.Empty (t : Table) : Prop where
  slots : ∀ i, (t.slots i).active = false
  objects : ∀ o, (t.objects o).active = false
  handles : t.activeHandles = 0
  objectCount : t.activeObjects = 0

theorem Table.Balanced.empty {t : Table} (h : t.Balanced)
    (hslots : ∀ i, (t.slots i).active = false) : t.Empty := by
  have hobjects : ∀ o, (t.objects o).active = false := by
    intro o
    have hzero : (t.objects o).references = 0 := by
      rw [h.references]
      exact tally_eq_zero.mpr fun i => by simp [Slot.names, hslots i]
    by_contra hactive
    exact (h.live o).mp (by simpa using hactive) hzero
  refine ⟨hslots, hobjects, ?_, ?_⟩
  · rw [h.handles]
    exact tally_eq_zero.mpr hslots
  · rw [h.objects]
    exact tally_eq_zero.mpr hobjects

theorem empty_closeAll (h : Sound w) {events : List Event}
    (hevents : (closeAll closeResource w).2.log = events ++ w.log)
    (hclosed : ∀ t i result, .called t i result ∈ events → result = .closed) :
    (closeAll closeResource w).2.table.Empty := by
  have hsound : Sound (closeAll closeResource w).2 :=
    h.moves (move_step w (.closeAll closeResource))
  have hready : (!w.table.initialized ||
      decide (w.table.limit = 0 ∨ tableLimit < w.table.limit)) = false := by
    have := h.balanced.limit_pos
    have := h.balanced.limit_le
    simp only [h.balanced.initialized, Bool.not_true, Bool.false_or, decide_eq_false_iff_not]
    omega
  refine hsound.balanced.empty fun i => ?_
  have hloop := cleared_closeAllSlots closeResource (slotsBelow w.table.limit) h
  rw [closeAll, hready] at hevents ⊢
  obtain ⟨events', hlog, hall⟩ := hloop.cleared
  obtain rfl : events' = events := append_cancel_right (hlog.symm.trans hevents)
  by_cases hi : i.val < w.table.limit
  · exact hall hclosed i (by simpa [slotsBelow] using hi)
  · refine hloop.stays i ?_
    by_contra hactive
    exact hi (h.balanced.slots_below i (by simpa using hactive))

end Results

/-- After `native_handle_table_initialize`, and after any calls with any handles and
any callbacks: the counters, references and types agree; an installation finds no
place only if every slot is active; a handle is stale from the retirement of its slot
until the slot was retired `2 ^ 32 - 2` more times; a callback is asked for the last
handle of its object only, and takes the resource at most once; and closing
everything with callbacks that close leaves nothing. -/
theorem table_run {limit : ℕ} {t : Table} (h : tableInitialize limit = .ok t) (context : σ)
    (calls : List (Call σ)) :
    let w := run (start t context) calls
    w.table.Balanced ∧
    (∀ type resource, (install type resource w).1 = .error .full →
      ∀ i : Fin tableLimit, i.val < w.table.limit → (w.table.slots i).active = true) ∧
    (∀ handle i later type, w.table.decodeSlot handle = .ok i →
      retirements i w.log + 1 ≤ retirements i (run w later).log →
      retirements i (run w later).log < retirements i w.log + 1 + (2 ^ 32 - 2) →
      (run w later).table.resolve handle type = .error .stale) ∧
    (∀ t' i result, .called t' i result ∈ w.log → t'.LastHandle i) ∧
    ConsumedOnce w.log ∧
    (∀ closeResource events, (closeAll closeResource w).2.log = events ++ w.log →
      (∀ t' i result, .called t' i result ∈ events → result = .closed) →
      (closeAll closeResource w).2.table.Empty) := by
  intro w
  have hw : Sound w := (sound_start h context).run calls
  refine ⟨hw.balanced, fun type resource hfull i hi => slots_active_of_full hw hfull hi,
    fun handle i later type hlive hretired hbefore => ?_, hw.last, hw.once,
    fun closeResource events hevents hclosed => empty_closeAll closeResource hw hevents hclosed⟩
  have hgenerations : generations = 1 + (2 ^ 32 - 2) := by decide
  refine resolve_eq_stale hw (hw.run later) hlive hretired ?_ type
  rw [hgenerations, ← add_assoc]
  exact hbefore

def soloTable (n : ℕ) : Table where
  slots := Function.update (fun _ => .zero) 0 ⟨UInt32.ofNat (n % generations + 1), 0, 0, false⟩
  objects := fun _ => .zero
  limit := 1
  activeHandles := 0
  activeObjects := 0
  initialized := true

theorem tableInitialize_one : tableInitialize 1 = .ok (soloTable 0) := by
  simp only [tableInitialize, soloTable]
  rw [if_neg (by decide)]
  congr 2
  funext i
  rcases eq_or_ne i 0 with rfl | hne
  · rfl
  · have : ¬ i.val < 1 := fun hlt => hne (Fin.ext (by simpa using hlt))
    rw [if_neg this, update_of_ne hne]
    rfl

abbrev refill : List (Call Unit) := [.install 1 .zero, .closeAll none]

theorem toNat_generation (n : ℕ) :
    (UInt32.ofNat (n % generations + 1)).toNat = n % generations + 1 := by
  have hlt : n % generations < generations := Nat.mod_lt n (by decide)
  refine UInt32.toNat_ofNat_of_lt' ?_
  exact lt_of_le_of_lt hlt (by decide)

theorem nextGeneration_ofNat (n : ℕ) :
    nextGeneration (UInt32.ofNat (n % generations + 1)) =
      UInt32.ofNat ((n + 1) % generations + 1) := by
  exact UInt32.toNat_inj.mp
    ((nextGeneration_toNat (toNat_generation n)).trans (toNat_generation (n + 1)).symm)

theorem firstInactive_one {active : Fin tableLimit → Bool} (h : active 0 = false) :
    firstInactive 1 active = some 0 := by
  rw [firstInactive, finRange_succ, find?_cons_of_pos (by simp [h])]

theorem install_soloTable (n : ℕ) (log : List Event) :
    install 1 .zero ⟨soloTable n, (), log⟩ =
      (.ok (encodeHandle 0 1 (UInt32.ofNat (n % generations + 1))),
        ⟨(soloTable n).installAt 0 0 1 .zero, (), .installed 0 :: log⟩) := by
  have hslot : (soloTable n).inactiveSlot = some 0 := firstInactive_one rfl
  have hobject : (soloTable n).inactiveObject = some 0 := firstInactive_one rfl
  simp only [install, hslot, hobject]
  rfl

theorem run_refill (n : ℕ) (log : List Event) :
    run ⟨soloTable n, (), log⟩ refill =
      ⟨soloTable (n + 1), (), .retired 0 :: .installed 0 :: log⟩ := by
  have hslots : slotsBelow ((soloTable n).installAt 0 0 1 .zero).limit = [0] := by
    change slotsBelow 1 = [0]
    decide
  have htable : ((soloTable n).installAt 0 0 1 .zero).retireSlot 0 = soloTable (n + 1) := by
    simp only [soloTable, installAt, retireSlot, update_self, update_idem, nextGeneration_ofNat]
    simp
  have hgeneration : UInt32.ofNat (n % generations + 1) ≠ 0 := by
    intro hzero
    have hnat := toNat_generation n
    rw [hzero] at hnat
    exact absurd hnat (Nat.succ_ne_zero _).symm
  have hactive : (((soloTable n).installAt 0 0 1 .zero).slots 0) =
      ⟨UInt32.ofNat (n % generations + 1), 0, 1, true⟩ := rfl
  have hobject : ((soloTable n).installAt 0 0 1 .zero).validSlotObject 0 := rfl
  rw [← htable, run_cons, step, install_soloTable, run_cons, run_nil, step, closeAll]
  simp only [hslots, closeAllSlots, closeAllSlot, hactive, hgeneration, hobject]
  rfl

theorem run_refills (n k : ℕ) (log : List Event) :
    ∃ events, run ⟨soloTable k, (), log⟩ (List.replicate n refill).flatten =
      ⟨soloTable (k + n), (), events ++ log⟩ ∧ retirements 0 events = n := by
  induction n generalizing k log with
  | zero => exact ⟨[], rfl, rfl⟩
  | succ n ih =>
    obtain ⟨events, hrun, hcount⟩ := ih (k + 1) (.retired 0 :: .installed 0 :: log)
    refine ⟨events ++ [.retired 0, .installed 0], ?_, ?_⟩
    · rw [replicate_succ, flatten_cons, run_append, run_refill, hrun]
      simp [add_assoc, add_comm 1 n]
    · rw [retirements, countP_append]
      exact congrArg (· + 1) hcount

/-- A handle whose slot is in use again is stale. -/
theorem table_run_solo :
    tableInitialize 1 = .ok (soloTable 0) ∧
    (run (start (soloTable 0) ()) refill).table.Balanced ∧
    (run (run (start (soloTable 0) ()) [.install 1 .zero])
      [.closeAll none, .install 1 .zero]).table.resolve (encodeHandle 0 1 1) 1 = .error .stale := by
  refine ⟨tableInitialize_one, (table_run tableInitialize_one () refill).1, ?_⟩
  refine (table_run tableInitialize_one () [.install 1 .zero]).2.2.1 (encodeHandle 0 1 1) 0
    [.closeAll none, .install 1 .zero] 1 ?_ ?_ ?_
  all_goals decide

/-- The handle of the first installation after its table was refilled `n` times. -/
theorem run_install_refills (n : ℕ) :
    ∃ events, run (run (start (soloTable 0) ()) [.install 1 .zero])
        (.closeAll none :: ((List.replicate n refill).flatten ++ [.install 1 .zero])) =
      ⟨(soloTable (1 + n)).installAt 0 0 1 .zero, (), events⟩ ∧ retirements 0 events = n + 1 := by
  obtain ⟨events, hrun, hcount⟩ := run_refills n 1 [.retired 0, .installed 0]
  refine ⟨.installed 0 :: (events ++ [.retired 0, .installed 0]), ?_, ?_⟩
  · have hfirst : step (run (start (soloTable 0) ()) [.install 1 .zero]) (.closeAll none) =
        ⟨soloTable 1, (), [.retired 0, .installed 0]⟩ := run_refill 0 []
    calc run (run (start (soloTable 0) ()) [.install 1 .zero])
          (.closeAll none :: ((List.replicate n refill).flatten ++ [.install 1 .zero]))
        = run ⟨soloTable 1, (), [.retired 0, .installed 0]⟩
            ((List.replicate n refill).flatten ++ [.install 1 .zero]) := by rw [run_cons, hfirst]
      _ = step ⟨soloTable (1 + n), (), events ++ [.retired 0, .installed 0]⟩
            (.install 1 .zero) := by rw [run_append, hrun, run_cons, run_nil]
      _ = _ := by rw [step, install_soloTable]
  · rw [retirements_cons_of_not rfl, retirements, countP_append]
    exact congrArg (· + 1) hcount

/-- Zero is no generation, so a handle returns after the retirement of its slot and
`2 ^ 32 - 2` more of them. -/
theorem resolve_after_all_generations :
    let w := run (start (soloTable 0) ()) [.install 1 .zero]
    let later := .closeAll none ::
      ((List.replicate (2 ^ 32 - 2) refill).flatten ++ [.install 1 .zero])
    tableInitialize 1 = .ok (soloTable 0) ∧
    w.table.decodeSlot (encodeHandle 0 1 1) = .ok 0 ∧
    retirements 0 w.log + 1 ≤ retirements 0 (run w later).log ∧
    retirements 0 (run w later).log < retirements 0 w.log + 1 + (2 ^ 32 - 1) ∧
    (run w later).table.resolve (encodeHandle 0 1 1) 1 = .ok .zero := by
  intro w later
  obtain ⟨events, hrun, hcount⟩ := run_install_refills (2 ^ 32 - 2)
  have hw : w = ⟨(soloTable 0).installAt 0 0 1 .zero, (), [.installed 0]⟩ := by
    change run ⟨soloTable 0, (), []⟩ [.install 1 .zero] = _
    rw [run_cons, step, install_soloTable]
    rfl
  have hagain : soloTable (1 + (2 ^ 32 - 2)) = soloTable 0 := by
    rw [soloTable, show (1 + (2 ^ 32 - 2)) % generations = 0 by decide]
    rfl
  have hnone : retirements 0 w.log = 0 := by rw [hw]; rfl
  have hlive : ((soloTable 0).installAt 0 0 1 .zero).decodeSlot (encodeHandle 0 1 1) = .ok 0 := by
    decide
  have hresolved : ((soloTable 0).installAt 0 0 1 .zero).resolve (encodeHandle 0 1 1) 1 =
      .ok .zero := by decide
  refine ⟨tableInitialize_one, ?_, ?_, ?_, ?_⟩
  · exact hlive
  · rw [hrun, hnone, hcount]
    decide
  · rw [hrun, hnone, hcount]
    decide
  · rw [hrun, hagain]
    exact hresolved

end OpenRFS.NativeHandle
