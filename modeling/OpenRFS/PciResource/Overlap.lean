import OpenRFS.PciResource.Claims
import OpenRFS.Codec.Checked
import OpenRFS.Region.Count

/-!
# Claimed ranges do not overlap

`ranges_overlap` compares ends that lie one past the last address. A range that ends with
the last 64-bit address has no such end, and `ranges_overlap` finds it to overlap with
nothing, while `validate_bar` takes it in. As long as no such range is claimed, no address
belongs to two implemented bars of active claims.
-/

namespace OpenRFS.PciResource

open List

variable {records : Fin claimCapacity → Option Record}

section Ranges

variable {a b : Bar} {bars : List Bar} {x : ℕ}

def Apart (a b : Bar) : Prop :=
  a.implemented → b.implemented → a.isIo = b.isIo → Region.Apart Bar.base Bar.size a b

theorem Apart.symm (h : Apart a b) : Apart b a :=
  fun hb ha hspace => (h ha hb hspace.symm).symm

/-- A range that is not empty and ends before the last address. -/
def Bar.Inner (bar : Bar) : Prop := bar.implemented → 0 < bar.size ∧ bar.base + bar.size < 2 ^ 64

theorem Bar.Inner.rangeEndExclusive (h : a.Inner) (himplemented : a.implemented) :
    rangeEndExclusive a.base a.size = some (a.base + a.size) := by
  obtain ⟨hpos, hend⟩ := h himplemented
  have hmax : wordMax = 2 ^ 64 - 1 := rfl
  exact if_neg (by omega)

/-- What `ranges_overlap` does not find to overlap has no address in common. -/
theorem apart_of_not_conflict (ha : a.Inner) (hb : b.Inner) (h : conflict a b = false) :
    Apart a b := by
  intro hia hib hspace x ⟨⟨hax, hxa⟩, hbx, hxb⟩
  have hoverlap : rangesOverlap a.base a.size b.base b.size := by
    rw [rangesOverlap, ha.rangeEndExclusive hia, hb.rangeEndExclusive hib]
    exact decide_eq_true ⟨by omega, by omega⟩
  rw [conflict, hia, hib, hspace, hoverlap] at h
  simp at h

theorem pairwise_apart (hinner : ∀ bar ∈ bars, bar.Inner) (h : conflictWithin bars = false) :
    bars.Pairwise Apart := by
  induction bars with
  | nil => exact .nil
  | cons bar bars ih =>
    obtain ⟨hfirst, hrest⟩ := Bool.or_eq_false_iff.mp h
    refine .cons (fun other hother => ?_) (ih (fun b hb => hinner b (by simp [hb])) hrest)
    refine apart_of_not_conflict (hinner bar (by simp)) (hinner other (by simp [hother])) ?_
    exact Bool.eq_false_iff.mpr fun hc => by simp [any_eq_false.mp hfirst other hother] at hc

end Ranges

section Probed

variable {address : Address} {barCount fuel index : ℕ} {original : ℕ → UInt32} {d : Device}
  {bars : List Bar} {bar : Bar}

theorem pos_of_validateBar (h : validateBar bar = .ok ()) (himplemented : bar.implemented) :
    0 < bar.size := by
  unfold validateBar at h
  rw [himplemented] at h
  by_contra hzero
  simp [Nat.eq_zero_of_not_pos hzero] at h

theorem validateBar_of_not_implemented (h : bar.implemented = false) : validateBar bar = .ok () := by
  simp [validateBar, h]

theorem valid_prependBars {own : List Bar} {rest : Except Status (List Bar) × Device}
    (hown : ∀ bar ∈ own, validateBar bar = .ok ())
    (hrest : ∀ bars, rest.1 = .ok bars → ∀ bar ∈ bars, validateBar bar = .ok ())
    (h : (prependBars own rest).1 = .ok bars) : ∀ bar ∈ bars, validateBar bar = .ok () := by
  rcases hkept : rest.1 with status | more
  · rw [prependBars, hkept] at h
    exact absurd h nofun
  · rw [prependBars, hkept] at h
    obtain rfl := Except.ok.inj h
    exact forall_mem_append.mpr ⟨hown, hrest more hkept⟩

theorem valid_keepBars {upper : List Bar} {rest : Except Status (List Bar) × Device}
    (hupper : ∀ bar ∈ upper, validateBar bar = .ok ())
    (hrest : ∀ bars, rest.1 = .ok bars → ∀ bar ∈ bars, validateBar bar = .ok ())
    (h : (keepBars bar upper d rest).1 = .ok bars) : ∀ bar ∈ bars, validateBar bar = .ok () := by
  unfold keepBars at h
  split at h
  · exact absurd h nofun
  · rename_i hvalid
    exact valid_prependBars (forall_mem_cons.mpr ⟨hvalid, hupper⟩) hrest h

theorem valid_probeFrom (h : (probeFrom address barCount original fuel index d).1 = .ok bars) :
    ∀ bar ∈ bars, validateBar bar = .ok () := by
  induction fuel generalizing index d bars with
  | zero =>
    obtain rfl := Except.ok.inj h
    simp
  | succ fuel ih =>
    unfold probeFrom at h
    dsimp only at h
    split_ifs at h with hend hmask hio h32 h64 hpair
    · obtain rfl := Except.ok.inj h
      simp
    · refine valid_prependBars (fun bar hbar => ?_) (fun _ => ih) h
      exact validateBar_of_not_implemented (by rw [mem_singleton.mp hbar]; rfl)
    · exact valid_keepBars (by simp) (fun _ => ih) h
    · exact valid_keepBars (by simp) (fun _ => ih) h
    · refine valid_keepBars (fun bar hbar => ?_) (fun _ => ih) h
      exact validateBar_of_not_implemented (by rw [mem_singleton.mp hbar]; rfl)

theorem valid_probeBars {headerType : UInt8} {probed : Probed}
    (h : (probeBars address headerType d).1 = .ok probed) :
    ∀ bar ∈ probed.bars, validateBar bar = .ok () := by
  unfold probeBars at h
  split at h
  · exact absurd h nofun
  · obtain ⟨⟨⟩, -, h⟩ := Codec.bind_eq_ok.mp h
    obtain ⟨bars, hbars, h⟩ := Codec.bind_eq_ok.mp h
    obtain rfl := Except.ok.inj h
    unfold sizeBars at hbars
    dsimp only at hbars
    split at hbars
    · exact absurd hbars nofun
    · exact valid_probeFrom hbars

end Probed

section Records

variable {functions : List PciFunction} {s s' : State} {k : ℕ}

/-- No address belongs to two implemented bars of the table. -/
structure Separate (records : Fin claimCapacity → Option Record) : Prop where
  within : ∀ slot record, records slot = some record → record.bars.Pairwise Apart
  between : ∀ slot slot' record record', slot ≠ slot' → records slot = some record →
    records slot' = some record' → ∀ a ∈ record.bars, ∀ b ∈ record'.bars, Apart a b

/-- The ranges of the table end before the last address. -/
def AllInner (records : Fin claimCapacity → Option Record) : Prop :=
  ∀ slot record, records slot = some record → ∀ bar ∈ record.bars, bar.Inner

theorem enableMemory_records (s : State) (k : ℕ) : (s.enableMemory k).records = s.records := by
  unfold State.enableMemory
  split
  · rfl
  · split_ifs <;> rfl

theorem releaseMappings_records (k n : ℕ) (s : State) :
    (releaseMappings k n s).records = s.records := by
  induction n generalizing s with
  | zero => rfl
  | succ n ih =>
    unfold releaseMappings
    split
    · rfl
    · split
      · rfl
      · rw [ih]
        rfl

inductive RecordsMove (functions : List PciFunction) (s : State) (c : Call) :
    (Fin claimCapacity → Option Record) → Prop
  | same : RecordsMove functions s c s.records
  | released (slot : Fin claimCapacity) :
      RecordsMove functions s c (Function.update s.records slot none)
  | claimed (function : PciFunction) (slot : Fin claimCapacity) (probed : Probed) (identifier : ℕ) :
      c = .claimDevice function → s.records slot = none →
      (probeBars function.address function.headerType (s.config function.address)).1 = .ok probed →
      validateClaimBars s.records probed.bars = .ok () →
      RecordsMove functions s c
        (Function.update s.records slot (some ⟨function.address, identifier, probed.bars⟩))

theorem recordsMove_claimDevice (functions : List PciFunction) (s : State) (function : PciFunction) :
    RecordsMove functions s (.claimDevice function) (pciClaimDevice functions function s).2.records := by
  unfold pciClaimDevice
  split
  · exact .same
  split
  · exact .same
  split
  · exact .same
  rename_i slot hfree
  have hnone : s.records slot = none := by simpa using find?_some hfree
  dsimp only
  split
  · exact .same
  rename_i probed hprobe
  split
  · split_ifs <;> exact .same
  · rename_i hvalid
    exact .claimed function slot probed s.nextIdentifier rfl hnone hprobe hvalid

theorem recordsMove_call (functions : List PciFunction) (s : State) (c : Call) :
    RecordsMove functions s c (call functions s c).2.records := by
  have hactive : ∀ {k body}, (∀ claim slot, RecordsMove functions s c (body claim slot).2.records) →
      RecordsMove functions s c (withActiveClaim s k body).2.records := fun h =>
    withActiveClaim_rule (P := fun r => RecordsMove functions s c r.2.records) (fun _ => .same)
      fun claim slot _ _ _ => h claim slot
  cases c with
  | claimDevice function => exact recordsMove_claimDevice functions s function
  | release k =>
    refine hactive fun claim slot => ?_
    have hrecords : (releaseMappings k claim.mappings.length
        (if claim.busMasterEnabled then s.disableBusMaster k claim else s)).records = s.records := by
      rw [releaseMappings_records]
      split <;> rfl
    dsimp only
    generalize releaseMappings k claim.mappings.length
      (if claim.busMasterEnabled then s.disableBusMaster k claim else s) = s' at hrecords ⊢
    split
    · exact hrecords ▸ .same
    · have hretired : ∀ claim, (s'.retire k claim slot).records =
          Function.update s.records slot none := fun _ => by rw [← hrecords]; rfl
      rw [hretired]
      exact .released slot
  | mapBar k barIndex ramOverlap paging =>
    refine hactive fun claim slot => ?_
    dsimp only
    split
    · exact .same
    · split
      · exact .same
      · split_ifs
        · exact .same
        · rw [enableMemory_records]
          exact .same
  | updateCommand k mask value =>
    refine hactive fun claim slot => ?_
    dsimp only
    split_ifs <;> exact .same
  | unmapLastBar k barIndex | enableIo k | enableBusMaster k owned | disableBusMaster k =>
    refine hactive fun claim slot => ?_
    repeat' split
    all_goals exact .same

end Records

section Runs

variable {functions : List PciFunction} {s : State}

/-- What happens to the state: a call, or the platform changes the registers. -/
inductive Event where
  | call (c : Call)
  | platform (config : Address → Device)

def step (functions : List PciFunction) (s : State) : Event → State
  | .call c => (PciResource.call functions s c).2
  | .platform config => { s with config := config }

/-- No implemented bar of a function that is claimed ends with the last address. -/
def Event.BelowTop (s : State) : Event → Prop
  | .call (.claimDevice function) =>
    ∀ probed, (probeBars function.address function.headerType (s.config function.address)).1 =
      .ok probed → ∀ bar ∈ probed.bars, bar.implemented → bar.base + bar.size < 2 ^ 64
  | _ => True

/-- Every event of the run meets the condition in the state it finds. -/
def BelowTop (functions : List PciFunction) : State → List Event → Prop
  | _, [] => True
  | s, e :: events => e.BelowTop s ∧ BelowTop functions (step functions s e) events

structure Exclusive (s : State) : Prop where
  separate : Separate s.records
  inner : AllInner s.records

theorem exclusive_initialized (config : Address → Device) : Exclusive (initialized config) :=
  ⟨⟨nofun, nofun⟩, nofun⟩

theorem validateClaimBars_ok {bars : List Bar} (h : validateClaimBars records bars = .ok ()) :
    conflictWithin bars = false ∧
      ∀ slot record, records slot = some record → ∀ current ∈ bars, ∀ owned ∈ record.bars,
        conflict current owned = false := by
  unfold validateClaimBars at h
  split_ifs at h with hwithin hbetween
  refine ⟨Bool.eq_false_iff.mpr hwithin, fun slot record hrecord current hcurrent owned howned => ?_⟩
  by_contra hconflict
  refine hbetween (any_eq_true.mpr ⟨slot, mem_finRange slot, ?_⟩)
  rw [hrecord]
  exact any_eq_true.mpr ⟨current, hcurrent, any_eq_true.mpr
    ⟨owned, howned, by simpa using hconflict⟩⟩

/-- A slot is cleared, or filled with bars that were validated. -/
theorem Exclusive.update {slot : Fin claimCapacity} {new : Option Record}
    (hseparate : Separate records) (hinner : AllInner records)
    (hbars : ∀ record ∈ new, ∀ bar ∈ record.bars, bar.Inner)
    (hvalid : ∀ record ∈ new, validateClaimBars records record.bars = .ok ()) :
    Separate (Function.update records slot new) ∧ AllInner (Function.update records slot new) := by
  have happart : ∀ record ∈ new, ∀ i other, records i = some other →
      ∀ a ∈ record.bars, ∀ b ∈ other.bars, Apart a b :=
    fun record hnew i other hother a ha b hb => apart_of_not_conflict (hbars record hnew a ha)
      (hinner i other hother b hb) ((validateClaimBars_ok (hvalid record hnew)).2 i other hother a ha b hb)
  have hcases : ∀ i record, Function.update records slot new i = some record →
      i = slot ∧ record ∈ new ∨ records i = some record := by
    intro i record h
    rcases eq_or_ne i slot with rfl | hne
    · rw [Function.update_self] at h
      exact .inl ⟨rfl, h⟩
    · rw [Function.update_of_ne hne] at h
      exact .inr h
  refine ⟨⟨fun i record h => ?_, fun i j record record' hne h h' a ha b hb => ?_⟩, fun i record h => ?_⟩
  · rcases hcases i record h with ⟨-, hnew⟩ | hold
    · exact pairwise_apart (hbars record hnew) (validateClaimBars_ok (hvalid record hnew)).1
    · exact hseparate.within i record hold
  · rcases hcases i record h with ⟨rfl, hnew⟩ | hold
    · rcases hcases j record' h' with ⟨rfl, -⟩ | hold'
      · exact absurd rfl hne
      · exact happart record hnew j record' hold' a ha b hb
    · rcases hcases j record' h' with ⟨-, hnew⟩ | hold'
      · exact (happart record' hnew i record hold b hb a ha).symm
      · exact hseparate.between i j record record' hne hold hold' a ha b hb
  · rcases hcases i record h with ⟨-, hnew⟩ | hold
    · exact hbars record hnew
    · exact hinner i record hold

theorem Exclusive.step {e : Event} (h : Exclusive s) (hbelow : e.BelowTop s) :
    Exclusive (step functions s e) := by
  cases e with
  | platform config => exact ⟨h.separate, h.inner⟩
  | call c =>
    have hmove := recordsMove_call functions s c
    suffices hall : Separate (PciResource.call functions s c).2.records ∧
        AllInner (PciResource.call functions s c).2.records from ⟨hall.1, hall.2⟩
    generalize (PciResource.call functions s c).2.records = records at hmove ⊢
    cases hmove with
    | same => exact ⟨h.separate, h.inner⟩
    | released slot => exact Exclusive.update h.separate h.inner nofun nofun
    | claimed function slot probed identifier hc hnone hprobe hvalid =>
      subst hc
      refine Exclusive.update h.separate h.inner ?_ (by simpa using hvalid)
      rintro _ ⟨⟩ bar hbar himplemented
      exact ⟨pos_of_validateBar (valid_probeBars hprobe bar hbar) himplemented,
        hbelow probed hprobe bar hbar himplemented⟩

theorem Exclusive.run {events : List Event} (h : Exclusive s) (hbelow : BelowTop functions s events) :
    Exclusive (events.foldl (PciResource.step functions) s) := by
  induction events generalizing s with
  | nil => exact h
  | cons e events ih => exact ih (h.step hbelow.1) hbelow.2

/-- Claims never share an address, if no bar that ends with the last address is claimed. -/
theorem separate_of_belowTop (functions : List PciFunction) (config : Address → Device)
    (events : List Event) (hbelow : BelowTop functions (initialized config) events) :
    Separate (events.foldl (step functions) (initialized config)).records :=
  ((exclusive_initialized config).run hbelow).separate

end Runs

section Sample

def sampleFunction (device : UInt8) : PciFunction := ⟨⟨0, 0, device, 0⟩, 0x8086, 0x1234, 0⟩

def sampleDevice (low high : UInt32) : Device where
  command := 0
  bars
    | 0 => ⟨low ||| 4, 0xfffff000⟩
    | 1 => ⟨high, 0xffffffff⟩
    | _ => ⟨0, 0⟩

def sampleFunctions : List PciFunction := [sampleFunction 1, sampleFunction 2]

def sampleClaims (low high : UInt32) : State :=
  [Event.call (.claimDevice (sampleFunction 1)), .call (.claimDevice (sampleFunction 2))].foldl
    (step sampleFunctions) (initialized fun _ => sampleDevice low high)

theorem belowTop_of_all {s : State} {function : PciFunction}
    (h : ((probeBars function.address function.headerType (s.config function.address)).1.toOption.all
      fun probed => probed.bars.all fun bar =>
        !bar.implemented || decide (bar.base + bar.size < 2 ^ 64))) :
    (Event.call (.claimDevice function)).BelowTop s := by
  intro probed hprobed bar hbar himplemented
  rw [hprobed] at h
  have hbelow := all_eq_true.mp h bar hbar
  rw [himplemented] at hbelow
  simpa using hbelow

/-- The second function is refused, as its page is claimed. -/
theorem separate_sampleClaims : (sampleClaims 0xfe000000 0).activeClaims = 1 ∧
    Separate (sampleClaims 0xfe000000 0).records := by
  refine ⟨by decide +kernel, ?_⟩
  exact separate_of_belowTop sampleFunctions (fun _ => sampleDevice 0xfe000000 0)
    [.call (.claimDevice (sampleFunction 1)), .call (.claimDevice (sampleFunction 2))]
    ⟨belowTop_of_all (by decide +kernel), belowTop_of_all (by decide +kernel), trivial⟩

theorem not_separate_of_shared {slot slot' : Fin claimCapacity} (hne : slot ≠ slot') (x : ℕ)
    (h : ((records slot).any fun record => (records slot').any fun record' =>
      record.bars.any fun a => record'.bars.any fun b => decide (a.implemented ∧ b.implemented ∧
        a.isIo = b.isIo ∧ (a.base ≤ x ∧ x < a.base + a.size) ∧
        b.base ≤ x ∧ x < b.base + b.size))) : ¬ Separate records := by
  intro hseparate
  obtain ⟨record, hrecord, h⟩ := (Option.any_eq_true _ _).mp h
  obtain ⟨record', hrecord', h⟩ := (Option.any_eq_true _ _).mp h
  obtain ⟨a, ha, h⟩ := any_eq_true.mp h
  obtain ⟨b, hb, h⟩ := any_eq_true.mp h
  obtain ⟨hia, hib, hspace, hx⟩ := of_decide_eq_true h
  exact hseparate.between slot slot' record record' hne hrecord hrecord' a ha b hb hia hib hspace x hx

/-- The last page of the 64-bit space is claimed twice. -/
theorem sampleClaims_overlap : (sampleClaims 0xfffff000 0xffffffff).activeClaims = 2 ∧
    ¬ Separate (sampleClaims 0xfffff000 0xffffffff).records := by
  refine ⟨by decide +kernel, ?_⟩
  exact not_separate_of_shared (show (0 : Fin claimCapacity) ≠ 1 by decide) (2 ^ 64 - 1)
    (by decide +kernel)

end Sample

end OpenRFS.PciResource
