import OpenRFS.BootLedger.Plan

/-!
# What the checks of a boot plan accept

`WellFormed` says what `checkDescriptors` accepts, without the order in which the
stages were registered and in which they list their capabilities. The providers that
come out are then the only ones.
-/

namespace OpenRFS.BootLedger

open Codec List Option

variable {σ : Type} {ds : List (Descriptor σ)} {providers : Providers}
variable {p' : Providers} {c : Capability} {index : ℕ}

/-- The stage provides the capability when it runs or when it is skipped. -/
def Descriptor.Provides (d : Descriptor σ) (c : Capability) : Prop :=
  c ∈ d.providedCapabilities ∨ c ∈ d.skippedCapabilities

instance (d : Descriptor σ) (c : Capability) : Decidable (d.Provides c) :=
  inferInstanceAs (Decidable (_ ∨ _))

structure Descriptor.Acceptable (d : Descriptor σ) : Prop where
  id_known : stageIsKnown d.id = true
  phase_known : d.phase < phaseCount
  class_known : d.irreversibleClass < irreversibleCount
  named : d.name.isSome = true
  executable : d.execute.isSome = true
  required_length : d.requiredCapabilities.length ≤ capabilityCapacity
  provided_length : d.providedCapabilities.length ≤ capabilityCapacity
  skipped_length : d.skippedCapabilities.length ≤ capabilityCapacity
  neutral : d.skipPreservesHealth = true → d.required = false ∧ d.skippedCapabilities ≠ []
  required_known : ∀ c ∈ d.requiredCapabilities, capabilityIsKnown c = true
  required_nodup : d.requiredCapabilities.Nodup
  provides_known : ∀ c, d.Provides c → capabilityIsKnown c = true
  provided_nodup : d.providedCapabilities.Nodup
  skipped_nodup : d.skippedCapabilities.Nodup

structure WellFormed (ds : List (Descriptor σ)) : Prop where
  nonempty : ds ≠ []
  length_le : ds.length ≤ stageCapacity
  acceptable : ∀ d ∈ ds, d.Acceptable
  ids_nodup : (ds.map (·.id)).Nodup
  provider_unique : ∀ d ∈ ds, ∀ e ∈ ds, ∀ c, d.Provides c → e.Provides c → d.id = e.id
  supplied : ∀ d ∈ ds, ∀ c ∈ d.requiredCapabilities, ∃ e ∈ ds, e.Provides c
  irreversible : ∀ d ∈ ds, ∀ c ∈ irreversibleRequirements d.irreversibleClass,
    c ∈ d.requiredCapabilities ∧ ∀ e ∈ ds, e.Provides c → e.phase ≤ d.phase

/-- `providers` names the stage that provides a capability. -/
def Named (ds : List (Descriptor σ)) (providers : Providers) : Prop :=
  ∀ c j, providers c = some j ↔ ∃ d, ds[j]? = some d ∧ d.Provides c

theorem Named.eq_none_iff (h : Named ds providers) :
    providers c = none ↔ ∀ e ∈ ds, ¬ e.Provides c := by
  rw [eq_none_iff_forall_ne_some]
  constructor
  · intro hnone e he hprovides
    obtain ⟨j, hj⟩ := getElem?_of_mem he
    exact hnone j ((h c j).mpr ⟨e, hj, hprovides⟩)
  · intro hall j hj
    obtain ⟨e, he, hprovides⟩ := (h c j).mp hj
    exact hall e (mem_of_getElem? he) hprovides

variable {l earlier : List Capability} {d : Descriptor σ}

section Loops

def claimed (index : ℕ) (l : List Capability) (providers : Providers) : Providers :=
  fun c => if c ∈ l then some index else providers c

theorem claimed_concat (index : ℕ) (l : List Capability) (providers : Providers) (c : Capability) :
    Function.update (claimed index l providers) c (some index) =
      claimed index (l ++ [c]) providers := by
  funext x
  rcases eq_or_ne x c with rfl | hne
  · simp [claimed]
  · simp [claimed, hne]

theorem claimed_of_mem (h : c ∈ l) :
    claimed index (l ++ [c]) providers = claimed index l providers := by
  funext x
  simp only [claimed, mem_append, mem_singleton]
  congr 1
  exact propext ⟨fun hx => hx.elim id fun heq => heq ▸ h, .inl⟩

theorem claim_eq_ok (d : Descriptor σ) {common : Bool} :
    claim d index common c providers = .ok p' ↔ capabilityIsKnown c ∧
      (providers c = none ∧ p' = Function.update providers c (some index) ∨
        providers c ≠ none ∧ common ∧ p' = providers) := by
  rw [claim]
  by_cases hknown : capabilityIsKnown c
  · rcases hc : providers c with - | j
    · simp [hknown, eq_comm]
    · cases common <;> simp [hknown, eq_comm]
  · simp [hknown]

/-- No capability of the list was claimed by this stage before or by another one. -/
def Unclaimed (providers : Providers) (earlier l : List Capability) : Prop :=
  (∀ c ∈ l, capabilityIsKnown c = true ∧ c ∉ earlier ∧ providers c = none) ∧ l.Nodup

theorem unclaimed_cons :
    Unclaimed providers earlier (c :: l) ↔
      (capabilityIsKnown c ∧ c ∉ earlier ∧ providers c = none) ∧
        Unclaimed providers (earlier ++ [c]) l := by
  constructor
  · rintro ⟨hall, hnodup⟩
    obtain ⟨hc, hnodup⟩ := nodup_cons.mp hnodup
    refine ⟨hall c mem_cons_self, fun x hx => ?_, hnodup⟩
    obtain ⟨hx', hfresh, hnone⟩ := hall x (mem_cons_of_mem _ hx)
    refine ⟨hx', ?_, hnone⟩
    simp only [mem_append, mem_singleton, not_or]
    exact ⟨hfresh, fun heq => hc (heq ▸ hx)⟩
  · rintro ⟨hc, hall, hnodup⟩
    refine ⟨fun x hx => ?_, nodup_cons.mpr ⟨fun hmem => (hall c hmem).2.1 (by simp), hnodup⟩⟩
    rcases mem_cons.mp hx with rfl | hx
    · exact hc
    · obtain ⟨hx', hfresh, hnone⟩ := hall x hx
      exact ⟨hx', fun hmem => hfresh (mem_append_left _ hmem), hnone⟩

theorem checkRequirements_eq_ok (d : Descriptor σ) :
    checkRequirements d earlier l = .ok () ↔ Unclaimed (fun _ => none) earlier l := by
  induction l generalizing earlier with
  | nil => simp [checkRequirements, Unclaimed]
  | cons c l ih =>
    rw [checkRequirements, unclaimed_cons, ← ih]
    split_ifs with hunknown hearlier <;> simp_all

/-- The capabilities that a stage provides when it runs: known ones, each once, and
none that another stage provides. -/
theorem claimProvided_eq_ok (d : Descriptor σ) :
    claimProvided d index l (claimed index earlier providers) = .ok p' ↔
      Unclaimed providers earlier l ∧ p' = claimed index (earlier ++ l) providers := by
  induction l generalizing earlier with
  | nil => simpa [claimProvided, Unclaimed] using eq_comm
  | cons c l ih =>
    have hclaim : ∀ p, claim d index false c (claimed index earlier providers) = .ok p ↔
        (capabilityIsKnown c ∧ c ∉ earlier ∧ providers c = none) ∧
          p = claimed index (earlier ++ [c]) providers := by
      intro p
      rw [claim_eq_ok, claimed_concat]
      by_cases hmem : c ∈ earlier <;> simp [claimed, hmem]
      tauto
    rw [claimProvided, bind_eq_ok, unclaimed_cons, and_assoc]
    simp only [hclaim, and_assoc, exists_eq_left, exists_and_left, ih, append_assoc,
      singleton_append]

/-- The capabilities that a stage provides when it is skipped: those may be among the
ones that it provides when it runs. -/
theorem claimSkipped_eq_ok (d : Descriptor σ)
    (hprovided : ∀ c ∈ d.providedCapabilities, providers c = none) :
    claimSkipped d index earlier l
        (claimed index (d.providedCapabilities ++ earlier) providers) = .ok p' ↔
      Unclaimed providers earlier l ∧
        p' = claimed index (d.providedCapabilities ++ earlier ++ l) providers := by
  induction l generalizing earlier with
  | nil => simpa [claimSkipped, Unclaimed] using eq_comm
  | cons c l ih =>
    -- claiming `c` succeeds exactly if it is not there twice and no other stage has it
    have hclaim : ∀ p, claim d index
        (decide (claimed index (d.providedCapabilities ++ earlier) providers c = some index ∧
          c ∈ d.providedCapabilities ∧ c ∉ earlier)) c
        (claimed index (d.providedCapabilities ++ earlier) providers) = .ok p ↔
        (capabilityIsKnown c ∧ c ∉ earlier ∧ providers c = none) ∧
          p = claimed index (d.providedCapabilities ++ (earlier ++ [c])) providers := by
      intro p
      rw [claim_eq_ok, ← append_assoc]
      by_cases hrun : c ∈ d.providedCapabilities
      · have hmem : c ∈ d.providedCapabilities ++ earlier := mem_append_left _ hrun
        rw [claimed_of_mem hmem]
        simp [claimed, hmem, hrun, hprovided c hrun]
        tauto
      · by_cases hskip : c ∈ earlier
        · simp [claimed, hrun, hskip]
        · rw [claimed_concat]
          simp [claimed, hrun, hskip]
          tauto
    rw [claimSkipped, bind_eq_ok, unclaimed_cons, and_assoc]
    simp only [hclaim, and_assoc, exists_eq_left, exists_and_left, ih, append_assoc,
      singleton_append]

end Loops

section Stages

theorem claimed_nil (index : ℕ) (providers : Providers) : claimed index [] providers = providers := by
  funext c
  simp [claimed]

theorem checkStage_eq_ok {earlier : List (Descriptor σ)} :
    checkStage earlier d providers = .ok p' ↔
      d.Acceptable ∧ d.id ∉ earlier.map (·.id) ∧ (∀ c, d.Provides c → providers c = none) ∧
        p' = claimed earlier.length (d.providedCapabilities ++ d.skippedCapabilities)
          providers := by
  have hfirst : ∀ p, claimProvided d earlier.length d.providedCapabilities providers = .ok p ↔
      Unclaimed providers [] d.providedCapabilities ∧
        p = claimed earlier.length d.providedCapabilities providers := fun p => by
    conv_lhs => rw [← claimed_nil earlier.length providers]
    exact claimProvided_eq_ok d
  simp only [checkStage, ite_error_eq_ok, bind_eq_ok, not_or, UInt32.not_le, not_lt, not_and,
    isNone_iff_eq_none, Bool.not_eq_true', Bool.not_eq_false, hfirst]
  constructor
  · rintro ⟨hid, hphase, hlength, hneutral, hduplicate, _, hrequired, p, ⟨⟨hprovided, hpnodup⟩, rfl⟩,
      hskipped⟩
    obtain ⟨hknown, hnodup⟩ := (checkRequirements_eq_ok d).mp hrequired
    rw [← append_nil d.providedCapabilities,
      claimSkipped_eq_ok d fun c hc => (hprovided c hc).2.2] at hskipped
    obtain ⟨⟨hskip, hsnodup⟩, rfl⟩ := hskipped
    refine ⟨⟨hid, hphase.1, hphase.2.1, isSome_iff_ne_none.mpr hphase.2.2.1,
      isSome_iff_ne_none.mpr hphase.2.2.2, hlength.1, hlength.2.1, hlength.2.2,
      fun h => ⟨by simpa using (hneutral h).1, (hneutral h).2⟩, fun c hc => (hknown c hc).1, hnodup,
      ?_, hpnodup, hsnodup⟩, hduplicate, ?_, by simp⟩
    · rintro c (hc | hc)
      · exact (hprovided c hc).1
      · exact (hskip c hc).1
    · rintro c (hc | hc)
      · exact (hprovided c hc).2.2
      · exact (hskip c hc).2.2
  · rintro ⟨h, hduplicate, hnone, rfl⟩
    refine ⟨h.id_known, ⟨h.phase_known, h.class_known, isSome_iff_ne_none.mp h.named,
      isSome_iff_ne_none.mp h.executable⟩,
      ⟨h.required_length, h.provided_length, h.skipped_length⟩,
      fun hskip => ⟨by simpa using (h.neutral hskip).1, (h.neutral hskip).2⟩, hduplicate, (),
      (checkRequirements_eq_ok d).mpr ⟨fun c hc => ⟨h.required_known c hc, nofun, rfl⟩,
        h.required_nodup⟩, _, ⟨⟨?_, h.provided_nodup⟩, rfl⟩, ?_⟩
    · exact fun c hc => ⟨h.provides_known c (.inl hc), nofun, hnone c (.inl hc)⟩
    · rw [← append_nil d.providedCapabilities, claimSkipped_eq_ok d fun c hc => hnone c (.inl hc)]
      exact ⟨⟨fun c hc => ⟨h.provides_known c (.inr hc), nofun, hnone c (.inr hc)⟩,
        h.skipped_nodup⟩, by simp⟩

/-- What holds of the stages that were checked so far. -/
structure Accepted (ds : List (Descriptor σ)) (providers : Providers) : Prop where
  acceptable : ∀ d ∈ ds, d.Acceptable
  ids_nodup : (ds.map (·.id)).Nodup
  provider_unique : ∀ d ∈ ds, ∀ e ∈ ds, ∀ c, d.Provides c → e.Provides c → d.id = e.id
  named : Named ds providers

theorem Accepted.concat {earlier : List (Descriptor σ)} (h : Accepted earlier providers)
    (hd : d.Acceptable) (hid : d.id ∉ earlier.map (·.id))
    (hnone : ∀ c, d.Provides c → providers c = none) :
    Accepted (earlier ++ [d])
      (claimed earlier.length (d.providedCapabilities ++ d.skippedCapabilities) providers) := by
  have hmem : ∀ e ∈ earlier ++ [d], e ∈ earlier ∨ e = d := by simp
  have hother : ∀ e ∈ earlier, ∀ c, d.Provides c → ¬ e.Provides c :=
    fun e he c hc => h.named.eq_none_iff.mp (hnone c hc) e he
  refine ⟨fun e he => ?_, ?_, fun e he f hf c hec hfc => ?_, fun c j => ?_⟩
  · rcases hmem e he with he | rfl
    · exact h.acceptable e he
    · exact hd
  · rw [map_append]
    refine List.Nodup.append h.ids_nodup (nodup_singleton _) ?_
    simpa using hid
  · rcases hmem e he with hold | rfl <;> rcases hmem f hf with hold' | rfl
    · exact h.provider_unique e hold f hold' c hec hfc
    · exact absurd hec (hother e hold c hfc)
    · exact absurd hfc (hother f hold' c hec)
    · rfl
  · have hclaims : c ∈ d.providedCapabilities ++ d.skippedCapabilities ↔ d.Provides c := mem_append
    simp only [claimed, hclaims, getElem?_concat_eq_some, or_and_right, exists_or, ← h.named c j,
      and_assoc, exists_and_left, exists_eq_left]
    split_ifs with hc
    · simp [hnone c hc, hc, eq_comm]
    · simp [hc]

theorem Accepted.checkStages {earlier rest : List (Descriptor σ)} (h : Accepted earlier providers)
    (hok : checkStages earlier rest providers = .ok p') : Accepted (earlier ++ rest) p' := by
  induction rest generalizing earlier providers with
  | nil =>
    obtain rfl : providers = p' := Except.ok.inj hok
    simpa using h
  | cons d rest ih =>
    obtain ⟨p, hstage, hrest⟩ := bind_eq_ok.mp hok
    obtain ⟨hd, hid, hnone, rfl⟩ := checkStage_eq_ok.mp hstage
    simpa using ih (h.concat hd hid hnone) hrest

theorem Accepted.exists_checkStages {earlier rest : List (Descriptor σ)}
    (h : Accepted earlier providers) (hacceptable : ∀ d ∈ rest, d.Acceptable)
    (hids : ((earlier ++ rest).map (·.id)).Nodup)
    (hunique : ∀ d ∈ earlier ++ rest, ∀ e ∈ earlier ++ rest, ∀ c,
      d.Provides c → e.Provides c → d.id = e.id) :
    ∃ p', BootLedger.checkStages earlier rest providers = .ok p' := by
  induction rest generalizing earlier providers with
  | nil => exact ⟨providers, rfl⟩
  | cons d rest ih =>
    have hid : d.id ∉ earlier.map (·.id) := by
      rw [map_append, map_cons] at hids
      exact fun hmem => (disjoint_of_nodup_append hids) hmem mem_cons_self
    have hnone : ∀ c, d.Provides c → providers c = none := by
      refine fun c hc => h.named.eq_none_iff.mpr fun e hmem hprovides => ?_
      have heq := hunique e (mem_append_left _ hmem) d (by simp) c hprovides hc
      exact hid (heq ▸ mem_map_of_mem hmem)
    have hd := hacceptable d mem_cons_self
    obtain ⟨p', hp'⟩ := ih (h.concat hd hid hnone)
      (fun e he => hacceptable e (mem_cons_of_mem _ he)) (by simpa using hids)
      (by simpa using hunique)
    exact ⟨p', bind_eq_ok.mpr ⟨_, checkStage_eq_ok.mpr ⟨hd, hid, hnone, rfl⟩, hp'⟩⟩

theorem accepted_nil : Accepted ([] : List (Descriptor σ)) fun _ => none :=
  ⟨nofun, nodup_nil, nofun, fun _ _ => ⟨nofun, fun ⟨_, h, _⟩ => absurd h nofun⟩⟩

end Stages

section Accepted

theorem Named.providedInTime (h : Named ds providers)
    (hunique : ∀ d ∈ ds, ∀ e ∈ ds, ∀ c, d.Provides c → e.Provides c → d.id = e.id)
    (hids : (ds.map (·.id)).Nodup) :
    providedInTime ds providers d c ↔
      (∃ e ∈ ds, e.Provides c) ∧ ∀ e ∈ ds, e.Provides c → e.phase ≤ d.phase := by
  rw [BootLedger.providedInTime, providerPhase]
  rcases hc : providers c with - | j
  · exact iff_of_false nofun fun ⟨⟨e, he, hprovides⟩, _⟩ => h.eq_none_iff.mp hc e he hprovides
  · obtain ⟨e, hj, hprovides⟩ := (h c j).mp hc
    have he := mem_of_getElem? hj
    simp only [hj, map_some, decide_eq_true_eq]
    constructor
    · intro hphase
      refine ⟨⟨e, he, hprovides⟩, fun f hf hf' => ?_⟩
      have heq := inj_on_of_nodup_map hids hf he (hunique f hf e he c hf' hprovides)
      exact heq ▸ hphase
    · exact fun hall => hall.2 e he hprovides

theorem checkSupplied_eq_ok (h : Named ds providers) :
    checkSupplied ds providers = .ok () ↔
      ∀ d ∈ ds, ∀ c ∈ d.requiredCapabilities, ∃ e ∈ ds, e.Provides c := by
  simp only [checkSupplied, forM_eq_ok_iff, isNone_iff_eq_none, h.eq_none_iff]
  refine forall₂_congr fun d _ => forall₂_congr fun c _ => ?_
  simp

theorem checkIrreversible_eq_ok (h : Accepted ds providers) :
    checkIrreversible ds providers = .ok () ↔
      ∀ d ∈ ds, ∀ c ∈ irreversibleRequirements d.irreversibleClass,
        c ∈ d.requiredCapabilities ∧ (∃ e ∈ ds, e.Provides c) ∧
          ∀ e ∈ ds, e.Provides c → e.phase ≤ d.phase := by
  simp only [checkIrreversible, forM_eq_ok_iff]
  refine forall₂_congr fun d _ => forall₂_congr fun c _ => ?_
  rw [← h.named.providedInTime h.provider_unique h.ids_nodup]
  simp

theorem checkPhases_eq_ok (h : Accepted ds providers) :
    checkPhases ds providers = .ok () ↔
      ∀ d ∈ ds, ∀ c ∈ d.requiredCapabilities, (∃ e ∈ ds, e.Provides c) ∧
        ∀ e ∈ ds, e.Provides c → e.phase ≤ d.phase := by
  simp only [checkPhases, forM_eq_ok_iff]
  refine forall₂_congr fun d _ => forall₂_congr fun c _ => ?_
  rw [← h.named.providedInTime h.provider_unique h.ids_nodup]
  simp

/-- The checks accept exactly the well-formed lists, and name the provider of each
capability. -/
theorem checkDescriptors_eq_ok (h : checkDescriptors ds = .ok providers) :
    WellFormed ds ∧ Accepted ds providers := by
  rw [checkDescriptors] at h
  split_ifs at h with hnil hlong
  obtain ⟨p, hstages, h⟩ := bind_eq_ok.mp h
  obtain ⟨_, hsupplied, h⟩ := bind_eq_ok.mp h
  obtain ⟨_, hirreversible, h⟩ := bind_eq_ok.mp h
  obtain rfl : p = providers := Except.ok.inj h
  have haccepted : Accepted ds p := by simpa using accepted_nil.checkStages hstages
  refine ⟨⟨hnil, by omega, haccepted.acceptable, haccepted.ids_nodup, haccepted.provider_unique,
    (checkSupplied_eq_ok haccepted.named).mp hsupplied, fun d hd c hc => ?_⟩, haccepted⟩
  obtain ⟨hrequired, -, hphase⟩ := (checkIrreversible_eq_ok haccepted).mp hirreversible d hd c hc
  exact ⟨hrequired, hphase⟩

theorem WellFormed.exists_checkDescriptors (h : WellFormed ds) :
    ∃ providers, checkDescriptors ds = .ok providers := by
  obtain ⟨p, hp⟩ : ∃ p, checkStages [] ds (fun _ => none) = .ok p :=
    accepted_nil.exists_checkStages h.acceptable (by simpa using h.ids_nodup)
      (by simpa using h.provider_unique)
  have haccepted : Accepted ds p := by simpa using accepted_nil.checkStages hp
  refine ⟨p, ?_⟩
  rw [checkDescriptors, if_neg h.nonempty, if_neg (by have := h.length_le; omega)]
  refine bind_eq_ok.mpr ⟨p, hp, bind_eq_ok.mpr ⟨(), ?_, bind_eq_ok.mpr ⟨(), ?_, rfl⟩⟩⟩
  · exact (checkSupplied_eq_ok haccepted.named).mpr h.supplied
  · refine (checkIrreversible_eq_ok haccepted).mpr fun d hd c hc => ?_
    obtain ⟨hrequired, hphase⟩ := h.irreversible d hd c hc
    exact ⟨hrequired, h.supplied d hd c hrequired, hphase⟩

end Accepted

end OpenRFS.BootLedger
