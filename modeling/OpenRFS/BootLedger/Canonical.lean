import OpenRFS.BootLedger.WellFormed

/-!
# The canonical order of a boot plan

The plan of a ledger is a greedy schedule of its stages. It is refused for a cycle
exactly if the requirements have one. Because a greedy schedule is unique, the order
in which the stages are registered and list their capabilities does not matter.
-/

namespace OpenRFS.BootLedger

open Schedule Relation List

variable {σ : Type} {ds ds' : List (Descriptor σ)} {providers : Providers}

/-- The stage `i` requires a capability that the stage `j` provides. -/
def Requires (ds : List (Descriptor σ)) (i j : ℕ) : Prop :=
  ∃ d e, ds[i]? = some d ∧ ds[j]? = some e ∧ ∃ c ∈ d.requiredCapabilities, e.Provides c

/-- The requirements have a cycle. -/
def HasCycle (ds : List (Descriptor σ)) : Prop := ∃ i, TransGen (Requires ds) i i

section Refusals

variable {α : Type}

/-- Every refusal of the computation has one of the statuses. -/
def RefusesWith (P : LedgerStatus → Prop) (x : Except Refusal α) : Prop :=
  ∀ r, x = .error r → P r.status

variable {P : LedgerStatus → Prop}

theorem refusesWith_ok (a : α) : RefusesWith P (.ok a) := nofun

theorem refusesWith_error {status : LedgerStatus} {stage : StageId} {capability : Capability}
    (h : P status) : RefusesWith P (.error ⟨status, stage, capability⟩ : Except Refusal α) := by
  intro r' heq
  cases heq
  exact h

theorem RefusesWith.bind {β : Type} {x : Except Refusal α} {f : α → Except Refusal β}
    (hx : RefusesWith P x) (hf : ∀ a, RefusesWith P (f a)) : RefusesWith P (x >>= f) := by
  intro r h
  cases x with
  | error r' => exact hx r (by cases h; rfl)
  | ok a => exact hf a r h

theorem RefusesWith.forM {l : List α} {f : α → Except Refusal Unit}
    (hf : ∀ a, RefusesWith P (f a)) : RefusesWith P (l.forM f) := by
  induction l with
  | nil => exact refusesWith_ok ()
  | cons a l ih => exact (hf a).bind fun _ => ih

/-- Whether a refusal is one of those before the plan is made. -/
def Early (status : LedgerStatus) : Prop :=
  status ≠ .ok ∧ status ≠ .capabilityDependencyCycle

instance : DecidablePred Early := fun _ => inferInstanceAs (Decidable (_ ∧ _))

theorem refusesWith_checkRequirements (d : Descriptor σ) (earlier l : List Capability) :
    RefusesWith Early (checkRequirements d earlier l) := by
  induction l generalizing earlier with
  | nil => exact refusesWith_ok ()
  | cons c l ih =>
    rw [checkRequirements]
    split_ifs
    · exact refusesWith_error (by decide)
    · exact refusesWith_error (by decide)
    · exact ih _

theorem refusesWith_claim (d : Descriptor σ) (index : ℕ) (common : Bool) (c : Capability) :
    RefusesWith Early (claim d index common c providers) := by
  rw [claim]
  split
  · exact refusesWith_error (by decide)
  · split
    · exact refusesWith_ok _
    · split_ifs
      · exact refusesWith_ok _
      · exact refusesWith_error (by decide)

open RefusesWith

theorem refusesWith_checkStages (earlier rest : List (Descriptor σ)) :
    RefusesWith Early (checkStages earlier rest providers) := by
  have hprovided : ∀ (d : Descriptor σ) index l (p : Providers),
      RefusesWith Early (claimProvided d index l p) := by
    intro d index l
    induction l with
    | nil => exact fun p => refusesWith_ok p
    | cons c l ih =>
      exact fun p => (refusesWith_claim d index _ c).bind ih
  have hskipped : ∀ (d : Descriptor σ) index l earlier (p : Providers),
      RefusesWith Early (claimSkipped d index earlier l p) := by
    intro d index l
    induction l with
    | nil => exact fun _ p => refusesWith_ok p
    | cons c l ih =>
      exact fun _ p => (refusesWith_claim d index _ c).bind fun _ => ih _ _
  induction rest generalizing earlier providers with
  | nil => exact refusesWith_ok _
  | cons d rest ih =>
    refine bind ?_ fun _ => ih _
    rw [checkStage]
    split_ifs
    any_goals exact refusesWith_error (by decide)
    exact (refusesWith_checkRequirements d _ _).bind fun _ =>
      (hprovided d _ _ _).bind fun _ => hskipped d _ _ _ _

theorem refusesWith_checkDescriptors : RefusesWith Early (checkDescriptors ds) := by
  rw [checkDescriptors]
  split_ifs
  · exact refusesWith_error (by decide)
  · exact refusesWith_error (by decide)
  · refine (refusesWith_checkStages _ _).bind fun p => bind ?_ fun _ =>
      bind ?_ fun _ => refusesWith_ok p
    · refine forM fun d => forM fun c => ?_
      split_ifs
      · exact refusesWith_error (by decide)
      · exact refusesWith_ok ()
    · refine forM fun d => forM fun c => ?_
      split_ifs
      · exact refusesWith_ok ()
      · exact refusesWith_error (by decide)

theorem refusesWith_checkPhases : RefusesWith Early (checkPhases ds providers) := by
  refine forM fun d => forM fun c => ?_
  split_ifs
  · exact refusesWith_ok ()
  · exact refusesWith_error (by decide)

end Refusals

variable {i j : ℕ} {order : List ℕ}

section Planner

theorem before_iff : before ds i j ↔ ∃ d e, ds[i]? = some d ∧ ds[j]? = some e ∧
    (d.phase < e.phase ∨ d.phase = e.phase ∧ d.id < e.id) := by
  rw [before]
  rcases ds[i]? with - | d <;> rcases ds[j]? with - | e <;> simp

theorem before_irrefl (i : ℕ) : ¬ before ds i i := by
  rw [before_iff]
  rintro ⟨d, e, hd, he, h⟩
  obtain rfl : d = e := Option.some.inj (hd.symm.trans he)
  simp at h

theorem before_trans (i j k : ℕ) (hij : before ds i j) (hjk : before ds j k) :
    before ds i k := by
  obtain ⟨d, e, hd, he, hde⟩ := before_iff.mp hij
  obtain ⟨e', f, he', hf, hef⟩ := before_iff.mp hjk
  obtain rfl : e = e' := Option.some.inj (he.symm.trans he')
  refine before_iff.mpr ⟨d, f, hd, hf, ?_⟩
  rcases hde with hde | ⟨hde, hid⟩ <;> rcases hef with hef | ⟨hef, hid'⟩
  · exact .inl (UInt32.lt_trans hde hef)
  · exact .inl (hef ▸ hde)
  · exact .inl (hde ▸ hef)
  · exact .inr ⟨hde.trans hef, UInt32.lt_trans hid hid'⟩

theorem Requires.mem_range (h : Requires ds i j) :
    i ∈ List.range ds.length ∧ j ∈ List.range ds.length := by
  obtain ⟨d, e, hd, he, -⟩ := h
  simp only [List.mem_range]
  exact ⟨(List.getElem?_eq_some_iff.mp hd).1, (List.getElem?_eq_some_iff.mp he).1⟩

theorem exists_stage (h : i ∈ List.range ds.length) : ∃ d, ds[i]? = some d :=
  ⟨_, getElem?_eq_getElem (List.mem_range.mp h)⟩

theorem ready_iff (h : WellFormed ds) (hnamed : Named ds providers) (planned : List ℕ) :
    ∀ i ∈ List.range ds.length, (ready ds providers planned i ↔
      Ready (List.range ds.length) (Requires ds) planned i) := by
  intro i hi
  obtain ⟨d, hd⟩ := exists_stage hi
  rw [ready, Ready, hd]
  simp only [hi, true_and, Bool.and_eq_true, decide_eq_true_eq, all_eq_true]
  refine and_congr_right fun _ => ⟨?_, fun hall c hc => ?_⟩
  · rintro hall j ⟨d', e, hd', he, c, hc, hprovides⟩
    obtain rfl : d = d' := Option.some.inj (hd.symm.trans hd')
    have := hall c hc
    rw [(hnamed c j).mpr ⟨e, he, hprovides⟩] at this
    simpa using this
  · obtain ⟨e, he, hprovides⟩ := h.supplied _ (mem_of_getElem? hd) c hc
    obtain ⟨j, hj⟩ := getElem?_of_mem he
    rw [(hnamed c j).mpr ⟨e, hj, hprovides⟩]
    simpa using hall j ⟨_, e, hd, hj, c, hc, hprovides⟩

/-- The planner gets stuck exactly if the requirements have a cycle. -/
theorem planStages_error_iff (h : WellFormed ds) (hnamed : Named ds providers) :
    (∃ stuck, planStages ds providers = .error stuck) ↔ HasCycle ds := by
  have hplan := plan_error_iff (ready_iff h hnamed) (@before_irrefl σ ds) before_trans
    nodup_range fun i j => Requires.mem_range
  rwa [length_range] at hplan

theorem greedy_planStages (h : WellFormed ds) (hnamed : Named ds providers)
    (hplan : planStages ds providers = .ok order) :
    Greedy (List.range ds.length) (Requires ds) (fun i j => before ds i j) order ∧
      order.length = ds.length := by
  have := greedy_plan (ready_iff h hnamed) before_irrefl before_trans greedy_nil hplan
  simpa using this

end Planner

/-- The same stage, with its capabilities listed in any order. -/
structure Descriptor.Same (d d' : Descriptor σ) : Prop where
  id : d.id = d'.id
  name : d.name = d'.name
  requiredCapabilities : d.requiredCapabilities.Perm d'.requiredCapabilities
  providedCapabilities : d.providedCapabilities.Perm d'.providedCapabilities
  skippedCapabilities : d.skippedCapabilities.Perm d'.skippedCapabilities
  required : d.required = d'.required
  skipPreservesHealth : d.skipPreservesHealth = d'.skipPreservesHealth
  phase : d.phase = d'.phase
  irreversibleClass : d.irreversibleClass = d'.irreversibleClass
  execute : d.execute = d'.execute

/-- The same stages, registered in any order. -/
def SamePlan (ds ds' : List (Descriptor σ)) : Prop :=
  ∃ ds₁, ds.Perm ds₁ ∧ List.Forall₂ Descriptor.Same ds₁ ds'

section Same

variable {d d' : Descriptor σ}

theorem Descriptor.Same.provides_iff (h : d.Same d') (c : Capability) :
    d.Provides c ↔ d'.Provides c :=
  or_congr h.providedCapabilities.mem_iff h.skippedCapabilities.mem_iff

theorem Descriptor.Acceptable.of_same (h : d.Acceptable) (hsame : d.Same d') : d'.Acceptable where
  id_known := hsame.id ▸ h.id_known
  phase_known := hsame.phase ▸ h.phase_known
  class_known := hsame.irreversibleClass ▸ h.class_known
  named := hsame.name ▸ h.named
  executable := hsame.execute ▸ h.executable
  required_length := hsame.requiredCapabilities.length_eq ▸ h.required_length
  provided_length := hsame.providedCapabilities.length_eq ▸ h.provided_length
  skipped_length := hsame.skippedCapabilities.length_eq ▸ h.skipped_length
  neutral := by
    intro hskip
    obtain ⟨hoptional, hne⟩ := h.neutral (hsame.skipPreservesHealth ▸ hskip)
    refine ⟨hsame.required ▸ hoptional, fun hnil => hne ?_⟩
    exact perm_nil.mp (hnil ▸ hsame.skippedCapabilities)
  required_known := fun c hc => h.required_known c (hsame.requiredCapabilities.mem_iff.mpr hc)
  required_nodup := hsame.requiredCapabilities.nodup_iff.mp h.required_nodup
  provides_known := fun c hc => h.provides_known c ((hsame.provides_iff c).mpr hc)
  provided_nodup := hsame.providedCapabilities.nodup_iff.mp h.provided_nodup
  skipped_nodup := hsame.skippedCapabilities.nodup_iff.mp h.skipped_nodup

theorem fingerprintCapabilitySet_perm {l l' : List Capability} (h : l.Perm l')
    (fingerprint tag : UInt64) :
    fingerprintCapabilitySet fingerprint l tag = fingerprintCapabilitySet fingerprint l' tag := by
  simp only [fingerprintCapabilitySet, h.mem_iff, h.length_eq]

theorem Descriptor.Same.fingerprintStage (h : d.Same d') (fingerprint : UInt64) :
    fingerprintStage fingerprint d = BootLedger.fingerprintStage fingerprint d' := by
  simp only [BootLedger.fingerprintStage, h.id, h.required, h.skipPreservesHealth, h.phase,
    h.irreversibleClass, fingerprintCapabilitySet_perm h.requiredCapabilities,
    fingerprintCapabilitySet_perm h.providedCapabilities,
    fingerprintCapabilitySet_perm h.skippedCapabilities]

namespace SamePlan

variable (h : SamePlan ds ds')
include h

theorem ids_perm : (ds.map (·.id)).Perm (ds'.map (·.id)) := by
  obtain ⟨ds₁, hperm, hsame⟩ := h
  have hids : List.Forall₂ (· = ·) (ds₁.map (·.id)) (ds'.map (·.id)) :=
    forall₂_map_left_iff.mpr (forall₂_map_right_iff.mpr (hsame.imp fun _ _ hs => hs.id))
  rw [forall₂_eq_eq_eq] at hids
  exact hids ▸ hperm.map _

theorem length_eq : ds.length = ds'.length := by
  simpa using h.ids_perm.length_eq

theorem exists_right (hd : d ∈ ds) : ∃ d' ∈ ds', d.Same d' := by
  obtain ⟨ds₁, hperm, hsame⟩ := h
  exact Codec.exists_mem_right_of_forall₂ hsame (hperm.mem_iff.mp hd)

theorem exists_left (hd' : d' ∈ ds') : ∃ d ∈ ds, d.Same d' := by
  obtain ⟨ds₁, hperm, hsame⟩ := h
  obtain ⟨d, hd, hs⟩ := Codec.exists_mem_left_of_forall₂ hsame hd'
  exact ⟨d, hperm.mem_iff.mpr hd, hs⟩

theorem wellFormed (hds : WellFormed ds) : WellFormed ds' where
  nonempty := by
    rintro rfl
    exact hds.nonempty (length_eq_zero_iff.mp (by simpa using h.length_eq))
  length_le := h.length_eq ▸ hds.length_le
  acceptable := by
    intro d' hd'
    obtain ⟨d, hd, hsame⟩ := h.exists_left hd'
    exact (hds.acceptable d hd).of_same hsame
  ids_nodup := h.ids_perm.nodup_iff.mp hds.ids_nodup
  provider_unique := by
    intro d' hd' e' he' c hdc hec
    obtain ⟨d, hd, hsame⟩ := h.exists_left hd'
    obtain ⟨e, he, hsame'⟩ := h.exists_left he'
    rw [← hsame.id, ← hsame'.id]
    exact hds.provider_unique d hd e he c ((hsame.provides_iff c).mpr hdc)
      ((hsame'.provides_iff c).mpr hec)
  supplied := by
    intro d' hd' c hc
    obtain ⟨d, hd, hsame⟩ := h.exists_left hd'
    obtain ⟨e, he, hprovides⟩ := hds.supplied d hd c (hsame.requiredCapabilities.mem_iff.mpr hc)
    obtain ⟨e', he', hsame'⟩ := h.exists_right he
    exact ⟨e', he', (hsame'.provides_iff c).mp hprovides⟩
  irreversible := by
    intro d' hd' c hc
    obtain ⟨d, hd, hsame⟩ := h.exists_left hd'
    obtain ⟨hrequired, hphase⟩ := hds.irreversible d hd c (hsame.irreversibleClass ▸ hc)
    refine ⟨hsame.requiredCapabilities.mem_iff.mp hrequired, fun e' he' hprovides => ?_⟩
    obtain ⟨e, he, hsame'⟩ := h.exists_left he'
    rw [← hsame'.phase, ← hsame.phase]
    exact hphase e he ((hsame'.provides_iff c).mpr hprovides)

end SamePlan

end Same

def nameAt (ds : List (Descriptor σ)) (i : ℕ) : StageId := ((ds[i]?).map Descriptor.id).getD 0

/-- The stage with the identifier `a` requires a capability of the stage `b`. -/
def RequiresId (ds : List (Descriptor σ)) (a b : StageId) : Prop :=
  ∃ d ∈ ds, ∃ e ∈ ds, d.id = a ∧ e.id = b ∧ ∃ c ∈ d.requiredCapabilities, e.Provides c

/-- The stage with the identifier `a` comes before the stage `b` when both are
ready. -/
def BeforeId (ds : List (Descriptor σ)) (a b : StageId) : Prop :=
  ∃ d ∈ ds, ∃ e ∈ ds, d.id = a ∧ e.id = b ∧ (d.phase < e.phase ∨ d.phase = e.phase ∧ d.id < e.id)

section Identifiers

theorem nameAt_eq {d : Descriptor σ} (h : ds[i]? = some d) : nameAt ds i = d.id := by
  simp [nameAt, h]

theorem map_nameAt_range (ds : List (Descriptor σ)) :
    (List.range ds.length).map (nameAt ds) = ds.map (·.id) := by
  refine ext_getElem (by simp) fun i hi hi' => ?_
  have hlt : i < ds.length := by simpa using hi
  simp [nameAt, getElem?_eq_getElem hlt]

theorem plannedStages_cons {d : Descriptor σ} (hd : ds[i]? = some d) :
    plannedStages ds (i :: order) = d :: plannedStages ds order :=
  filterMap_cons_some hd

theorem plannedStages_ids (h : ∀ i ∈ order, i ∈ List.range ds.length) :
    (plannedStages ds order).map (·.id) = order.map (nameAt ds) := by
  induction order with
  | nil => rfl
  | cons i order ih =>
    obtain ⟨d, hd⟩ := exists_stage (h i mem_cons_self)
    rw [plannedStages_cons hd, map_cons, map_cons, nameAt_eq hd,
      ih fun j hj => h j (mem_cons_of_mem _ hj)]

theorem length_plannedStages (h : ∀ i ∈ order, i ∈ List.range ds.length) :
    (plannedStages ds order).length = order.length := by
  rw [← length_map (·.id), plannedStages_ids h, length_map]

theorem index_unique (hids : (ds.map (·.id)).Nodup) {d e : Descriptor σ} (hd : ds[i]? = some d)
    (he : ds[j]? = some e) (hid : d.id = e.id) : i = j := by
  have hi : (ds.map (·.id))[i]? = some d.id := by simp [hd]
  have hj : (ds.map (·.id))[j]? = some d.id := by simp [he, hid]
  exact (List.getElem?_inj (List.getElem?_eq_some_iff.mp hi).1 hids).mp (hi.trans hj.symm)

theorem greedy_ids (hids : (ds.map (·.id)).Nodup)
    (h : Greedy (List.range ds.length) (Requires ds) (fun i j => before ds i j) order) :
    Greedy (ds.map (·.id)) (RequiresId ds) (BeforeId ds)
      ((plannedStages ds order).map (·.id)) := by
  rw [plannedStages_ids fun i hi => h.mem hi, ← map_nameAt_range ds]
  refine h.map ?_ ?_ (fun i j hij => hij.mem_range.2) ?_
  · intro i hi j hj heq
    obtain ⟨d, hd⟩ := exists_stage hi
    obtain ⟨e, he⟩ := exists_stage hj
    rw [nameAt_eq hd, nameAt_eq he] at heq
    exact index_unique hids hd he heq
  · intro i hi a
    obtain ⟨d, hd⟩ := exists_stage hi
    rw [nameAt_eq hd]
    constructor
    · rintro ⟨d', hd', e, he, heq, rfl, c, hc, hprovides⟩
      obtain rfl := inj_on_of_nodup_map hids hd' (mem_of_getElem? hd) heq
      obtain ⟨j, hj⟩ := getElem?_of_mem he
      exact ⟨j, ⟨d', e, hd, hj, c, hc, hprovides⟩, nameAt_eq hj⟩
    · rintro ⟨j, ⟨d', e, hd', he, c, hc, hprovides⟩, rfl⟩
      obtain rfl : d = d' := Option.some.inj (hd.symm.trans hd')
      exact ⟨d, mem_of_getElem? hd, e, mem_of_getElem? he, rfl, (nameAt_eq he).symm,
        c, hc, hprovides⟩
  · rintro i hi j hj ⟨d, hd, e, he, hdi, hej, hbefore⟩
    obtain ⟨d', hd'⟩ := exists_stage hi
    obtain ⟨e', he'⟩ := exists_stage hj
    rw [nameAt_eq hd'] at hdi
    rw [nameAt_eq he'] at hej
    obtain rfl := inj_on_of_nodup_map hids hd (mem_of_getElem? hd') hdi
    obtain rfl := inj_on_of_nodup_map hids he (mem_of_getElem? he') hej
    exact before_iff.mpr ⟨d, e, hd', he', hbefore⟩

/-- A relation of the contents of two stages relates the same identifiers in both plans. -/
theorem SamePlan.related_iff (h : SamePlan ds ds') {R : Descriptor σ → Descriptor σ → Prop}
    (hR : ∀ d d' e e', d.Same d' → e.Same e' → (R d e ↔ R d' e')) (a b : StageId) :
    (∃ d ∈ ds, ∃ e ∈ ds, d.id = a ∧ e.id = b ∧ R d e) ↔
      ∃ d ∈ ds', ∃ e ∈ ds', d.id = a ∧ e.id = b ∧ R d e := by
  constructor
  · rintro ⟨d, hd, e, he, rfl, rfl, hde⟩
    obtain ⟨d', hd', hsame⟩ := h.exists_right hd
    obtain ⟨e', he', hsame'⟩ := h.exists_right he
    exact ⟨d', hd', e', he', hsame.id.symm, hsame'.id.symm, (hR d d' e e' hsame hsame').mp hde⟩
  · rintro ⟨d', hd', e', he', rfl, rfl, hde⟩
    obtain ⟨d, hd, hsame⟩ := h.exists_left hd'
    obtain ⟨e, he, hsame'⟩ := h.exists_left he'
    exact ⟨d, hd, e, he, hsame.id, hsame'.id, (hR d d' e e' hsame hsame').mpr hde⟩

theorem SamePlan.requiresId_eq (h : SamePlan ds ds') : RequiresId ds = RequiresId ds' := by
  funext a b
  refine propext (h.related_iff (fun d d' e e' hsame hsame' => ?_) a b)
  simp only [hsame.requiredCapabilities.mem_iff, hsame'.provides_iff]

theorem SamePlan.beforeId_eq (h : SamePlan ds ds') : BeforeId ds = BeforeId ds' := by
  funext a b
  refine propext (h.related_iff (fun d d' e e' hsame hsame' => ?_) a b)
  rw [hsame.phase, hsame'.phase, hsame.id, hsame'.id]

theorem beforeId_total {a b : StageId} (ha : a ∈ ds.map (·.id)) (hb : b ∈ ds.map (·.id))
    (hne : a ≠ b) : BeforeId ds a b ∨ BeforeId ds b a := by
  obtain ⟨d, hd, rfl⟩ := mem_map.mp ha
  obtain ⟨e, he, rfl⟩ := mem_map.mp hb
  rcases eq_or_ne d.phase e.phase with hphase | hphase
  · rcases UInt32.lt_or_lt_of_ne hne with hid | hid
    · exact .inl ⟨d, hd, e, he, rfl, rfl, .inr ⟨hphase, hid⟩⟩
    · exact .inr ⟨e, he, d, hd, rfl, rfl, .inr ⟨hphase.symm, hid⟩⟩
  · rcases UInt32.lt_or_lt_of_ne hphase with hlt | hlt
    · exact .inl ⟨d, hd, e, he, rfl, rfl, .inl hlt⟩
    · exact .inr ⟨e, he, d, hd, rfl, rfl, .inl hlt⟩

theorem hasCycle_iff (hids : (ds.map (·.id)).Nodup) :
    HasCycle ds ↔ ∃ a, TransGen (RequiresId ds) a a := by
  constructor
  · rintro ⟨i, hcycle⟩
    refine ⟨nameAt ds i, TransGen.lift (nameAt ds) (fun j k hjk => ?_) _ _ hcycle⟩
    obtain ⟨d, e, hd, he, hc⟩ := hjk
    exact ⟨d, mem_of_getElem? hd, e, mem_of_getElem? he, (nameAt_eq hd).symm,
      (nameAt_eq he).symm, hc⟩
  · rintro ⟨a, hcycle⟩
    let index : StageId → ℕ := fun a => (ds.map (·.id)).idxOf a
    refine ⟨index a, TransGen.lift index (fun b c hbc => ?_) _ _ hcycle⟩
    obtain ⟨d, hd, e, he, rfl, rfl, hcapability⟩ := hbc
    have hindex : ∀ d ∈ ds, ds[index d.id]? = some d := by
      intro d hd
      obtain ⟨i, hi, rfl⟩ := mem_iff_getElem.mp hd
      have hname : index ds[i].id = i := by
        have hat := hids.idxOf_getElem i (by simpa using hi)
        rwa [getElem_map] at hat
      rw [hname, List.getElem?_eq_getElem hi]
    exact ⟨d, e, hindex d hd, hindex e he, hcapability⟩

theorem SamePlan.forall₂_same (h : SamePlan ds ds') (hids : (ds'.map (·.id)).Nodup)
    {l l' : List (Descriptor σ)} (hl : ∀ d ∈ l, d ∈ ds) (hl' : ∀ d ∈ l', d ∈ ds')
    (heq : l.map (·.id) = l'.map (·.id)) : List.Forall₂ Descriptor.Same l l' := by
  induction l generalizing l' with
  | nil =>
    obtain rfl : l' = [] := by simpa using heq.symm
    exact .nil
  | cons d l ih =>
    rcases l' with - | ⟨d', l'⟩
    · exact absurd heq (by simp)
    · obtain ⟨hid, htail⟩ := List.cons.inj heq
      refine .cons ?_ (ih (fun e he => hl e (mem_cons_of_mem _ he))
        (fun e he => hl' e (mem_cons_of_mem _ he)) htail)
      obtain ⟨d₁, hd₁, hsame⟩ := h.exists_right (hl d mem_cons_self)
      obtain rfl := inj_on_of_nodup_map hids hd₁ (hl' d' mem_cons_self)
        (hsame.id.symm.trans hid)
      exact hsame

theorem foldl_fingerprintStage {l l' : List (Descriptor σ)}
    (h : List.Forall₂ Descriptor.Same l l') (fingerprint : UInt64) :
    l.foldl fingerprintStage fingerprint = l'.foldl fingerprintStage fingerprint := by
  induction h generalizing fingerprint with
  | nil => rfl
  | cons hsame _ ih => rw [foldl_cons, foldl_cons, hsame.fingerprintStage, ih]

theorem mem_of_mem_plannedStages {d : Descriptor σ} (h : d ∈ plannedStages ds order) : d ∈ ds := by
  obtain ⟨i, -, hi⟩ := mem_filterMap.mp h
  exact mem_of_getElem? hi

end Identifiers

section Validate

variable {l : Ledger σ}

/-- A ledger is accepted exactly if its checks, its plan and its phases are. -/
theorem validate_of_ok (h : l.validate.status = .ok) :
    ∃ providers, checkDescriptors l.descriptors = .ok providers ∧
      planStages l.descriptors providers = .ok l.validate.canonicalOrder ∧
      checkPhases l.descriptors providers = .ok () ∧
      l.validate.validatedStageIds =
        (plannedStages l.descriptors l.validate.canonicalOrder).map (·.id) ∧
      l.validate.validatedPlanFingerprint =
        fingerprintPlan l.descriptors l.validate.canonicalOrder := by
  rw [Ledger.validate] at h ⊢
  rcases hchecks : checkDescriptors l.descriptors with r | providers
  · rw [hchecks] at h
    exact absurd h (refusesWith_checkDescriptors r hchecks).1
  · rcases hplan : planStages l.descriptors providers with stuck | order
    · rw [hchecks] at h
      simp only [hplan] at h
      exact absurd h nofun
    · rcases hphases : checkPhases l.descriptors providers with r | _
      · rw [hchecks] at h
        simp only [hplan, hphases] at h
        exact absurd h (refusesWith_checkPhases r hphases).1
      · refine ⟨providers, rfl, ?_⟩
        simp only [hplan, hphases]
        exact ⟨rfl, trivial, rfl, rfl⟩

/-- The descriptors and the order of an accepted ledger. -/
theorem planned_of_validate (h : l.validate.status = .ok) :
    WellFormed l.descriptors ∧
      (∀ d ∈ l.descriptors, ∀ c ∈ d.requiredCapabilities, ∀ e ∈ l.descriptors, e.Provides c →
        e.phase ≤ d.phase) ∧
      Greedy (List.range l.descriptors.length) (Requires l.descriptors)
        (fun i j => before l.descriptors i j) l.validate.canonicalOrder ∧
      l.validate.canonicalOrder.length = l.descriptors.length := by
  obtain ⟨providers, hchecks, hplan, hphases, -⟩ := validate_of_ok h
  obtain ⟨hwell, haccepted⟩ := checkDescriptors_eq_ok hchecks
  rw [checkPhases_eq_ok haccepted] at hphases
  exact ⟨hwell, fun d hd c hc => (hphases d hd c hc).2,
    greedy_planStages hwell haccepted.named hplan⟩

theorem validate_eq_cycle_iff {providers : Providers}
    (hchecks : checkDescriptors l.descriptors = .ok providers) :
    l.validate.status = .capabilityDependencyCycle ↔ HasCycle l.descriptors := by
  obtain ⟨hwell, haccepted⟩ := checkDescriptors_eq_ok hchecks
  rw [← planStages_error_iff hwell haccepted.named, Ledger.validate, hchecks]
  rcases hplan : planStages l.descriptors providers with stuck | order
  · simp only [hplan]
    exact ⟨fun _ => ⟨stuck, rfl⟩, fun _ => rfl⟩
  · rcases hphases : checkPhases l.descriptors providers with r | _
    · simp only [hplan, hphases]
      exact ⟨fun h => absurd h (refusesWith_checkPhases r hphases).2, nofun⟩
    · simp only [hplan, hphases]
      exact ⟨nofun, nofun⟩

/-- The phases never decrease along a plan whose phases were checked. -/
theorem pairwise_phase
    (h : Greedy (List.range ds.length) (Requires ds) (fun i j => before ds i j) order)
    (hphases : ∀ d ∈ ds, ∀ c ∈ d.requiredCapabilities, ∀ e ∈ ds, e.Provides c →
      e.phase ≤ d.phase) : (plannedStages ds order).Pairwise fun d e => d.phase ≤ e.phase := by
  let rank : ℕ → ℕ := fun i => ((ds[i]?).map fun d => d.phase.toNat).getD 0
  have hrank : ∀ {i d}, ds[i]? = some d → rank i = d.phase.toNat := by
    intro i d hd
    simp [rank, hd]
  have hneeds : ∀ i j, Requires ds i j → rank j ≤ rank i := by
    rintro i j ⟨d, e, hd, he, c, hc, hprovides⟩
    rw [hrank hd, hrank he]
    exact UInt32.le_iff_toNat_le.mp (hphases d (mem_of_getElem? hd) c hc e
      (mem_of_getElem? he) hprovides)
  have hsorted := h.rank_le hneeds fun i hi j hj hlt => by
    obtain ⟨d, hd⟩ := exists_stage hi
    obtain ⟨e, he⟩ := exists_stage hj
    rw [hrank hd, hrank he] at hlt
    exact before_iff.mpr ⟨d, e, hd, he, .inl (UInt32.lt_iff_toNat_lt.mpr hlt)⟩
  refine pairwise_filterMap.mpr (hsorted.imp fun hij d hd e he => ?_)
  rw [hrank hd, hrank he] at hij
  exact UInt32.le_iff_toNat_le.mpr hij

theorem SamePlan.validate {l l' : Ledger σ} (h : SamePlan l.descriptors l'.descriptors)
    (hok : l.validate.status = .ok) :
    l'.validate.status = .ok ∧ l'.validate.validatedStageIds = l.validate.validatedStageIds ∧
      l'.validate.validatedPlanFingerprint = l.validate.validatedPlanFingerprint := by
  obtain ⟨hwell, hphases, hgreedy, hlength⟩ := planned_of_validate hok
  obtain ⟨p, hchecks, hplan, -, hids, hfingerprint⟩ := validate_of_ok hok
  have hwell' := h.wellFormed hwell
  obtain ⟨p', hchecks'⟩ := hwell'.exists_checkDescriptors
  obtain ⟨-, haccepted'⟩ := checkDescriptors_eq_ok hchecks'
  -- no cycle, so the planner does not get stuck
  have hacyclic : ¬ HasCycle l.descriptors := by
    rw [← planStages_error_iff hwell (checkDescriptors_eq_ok hchecks).2.named, hplan]
    exact nofun
  obtain ⟨order', hplan'⟩ : ∃ order', planStages l'.descriptors p' = .ok order' := by
    rcases hcase : planStages l'.descriptors p' with stuck | order'
    · have hcycle := (planStages_error_iff hwell' haccepted'.named).mp ⟨stuck, hcase⟩
      rw [hasCycle_iff hwell'.ids_nodup, ← h.requiresId_eq] at hcycle
      exact absurd ((hasCycle_iff hwell.ids_nodup).mpr hcycle) hacyclic
    · exact ⟨order', rfl⟩
  have hphases' : checkPhases l'.descriptors p' = .ok () := by
    refine (checkPhases_eq_ok haccepted').mpr fun d' hd' c hc => ?_
    refine ⟨hwell'.supplied d' hd' c hc, fun e' he' hprovides => ?_⟩
    obtain ⟨d, hd, hsame⟩ := h.exists_left hd'
    obtain ⟨e, he, hsame'⟩ := h.exists_left he'
    rw [← hsame.phase, ← hsame'.phase]
    exact hphases d hd c (hsame.requiredCapabilities.mem_iff.mpr hc) e he
      ((hsame'.provides_iff c).mpr hprovides)
  have hok' : l'.validate.status = .ok := by
    rw [Ledger.validate, hchecks']
    simp only [hplan', hphases']
  obtain ⟨-, -, hgreedy', hlength'⟩ := planned_of_validate hok'
  obtain ⟨-, -, -, -, hids', hfingerprint'⟩ := validate_of_ok hok'
  -- both sequences of identifiers are the one greedy schedule
  have hsame : (plannedStages l.descriptors l.validate.canonicalOrder).map (·.id) =
      (plannedStages l'.descriptors l'.validate.canonicalOrder).map (·.id) := by
    have hschedule := greedy_ids hwell.ids_nodup hgreedy
    have hschedule' := greedy_ids hwell'.ids_nodup hgreedy'
    rw [← h.requiresId_eq, ← h.beforeId_eq] at hschedule'
    refine hschedule.unique hschedule' (fun a => h.ids_perm.mem_iff)
      (fun a ha b hb hne => beforeId_total ha hb hne) ?_
    rw [length_map, length_map, length_plannedStages fun i hi => hgreedy.mem hi,
      length_plannedStages fun i hi => hgreedy'.mem hi, hlength, hlength', h.length_eq]
  have hforall := h.forall₂_same hwell'.ids_nodup (fun _ => mem_of_mem_plannedStages)
    (fun _ => mem_of_mem_plannedStages) hsame
  refine ⟨hok', by rw [hids, hids', hsame], ?_⟩
  rw [hfingerprint, hfingerprint', fingerprintPlan, fingerprintPlan, hlength, hlength',
    h.length_eq, foldl_fingerprintStage hforall]

/-- `boot_ledger_validate` refuses a plan that passed the earlier checks for a cycle
exactly if the requirements have one. An accepted plan has every stage once, providers
before the stages that require them, and phases that never decrease; and another
registration of the same stages is accepted with the same identifiers and the same
fingerprint. -/
theorem validate_canonical (l : Ledger σ) :
    (∀ providers, checkDescriptors l.descriptors = .ok providers →
      (l.validate.status = .capabilityDependencyCycle ↔ HasCycle l.descriptors)) ∧
    (l.validate.status = .ok → l.validate.canonicalOrder.Perm (List.range l.descriptors.length) ∧
      (∀ done i rest, l.validate.canonicalOrder = done ++ i :: rest →
        ∀ j, Requires l.descriptors i j → j ∈ done) ∧
      (plannedStages l.descriptors l.validate.canonicalOrder).Pairwise
        (fun d e => d.phase ≤ e.phase) ∧
      l.validate.validatedStageIds =
        (plannedStages l.descriptors l.validate.canonicalOrder).map (·.id) ∧
      ∀ l' : Ledger σ, SamePlan l.descriptors l'.descriptors → l'.validate.status = .ok ∧
        l'.validate.validatedStageIds = l.validate.validatedStageIds ∧
        l'.validate.validatedPlanFingerprint = l.validate.validatedPlanFingerprint) := by
  refine ⟨fun providers hchecks => validate_eq_cycle_iff hchecks, fun hok => ?_⟩
  obtain ⟨-, hphases, hgreedy, hlength⟩ := planned_of_validate hok
  obtain ⟨-, -, -, -, hids, -⟩ := validate_of_ok hok
  refine ⟨hgreedy.perm (by simp [hlength]), fun done i rest heq j hj => ?_, ?_, hids,
    fun l' hsame => hsame.validate hok⟩
  · exact (hgreedy done i rest heq).1.2.2 j hj
  · exact pairwise_phase hgreedy hphases

def Ledger.register (ds : List (Descriptor σ)) : Ledger σ where
  descriptors := ds
  canonicalOrder := []
  validatedStageIds := []
  receipts := []
  establishedCapabilities := []
  status := .notValidated
  refusalStage := 0
  refusalCapability := 0
  validatedPlanFingerprint := 0
  fingerprint := 0
  executedCount := 0
  optionalSkipCount := 0
  validated := false
  executed := false
  degraded := false

abbrev plainStage (id : StageId) (requires provides : List Capability) : Descriptor Unit where
  id := id
  name := some []
  requiredCapabilities := requires
  providedCapabilities := provides
  skippedCapabilities := []
  required := true
  skipPreservesHealth := false
  phase := 0
  irreversibleClass := 0
  execute := some fun context result => (result, context)

/-- Two stages that are registered the wrong way round, and two that wait for each
other. -/
theorem validate_canonical_pair :
    (Ledger.register [plainStage 1 [2] [1], plainStage 2 [] [2]]).validate.canonicalOrder.Perm
      (List.range 2) ∧
    (Ledger.register [plainStage 1 [2] [1], plainStage 2 [1] [2]]).validate.status =
      .capabilityDependencyCycle ∧
    HasCycle [plainStage 1 [2] [1], plainStage 2 [1] [2]] := by
  have hcycle : (Ledger.register [plainStage 1 [2] [1], plainStage 2 [1] [2]]).validate.status =
      .capabilityDependencyCycle := by decide
  refine ⟨((validate_canonical _).2 (by decide)).1, hcycle, ?_⟩
  have haccepted : (checkDescriptors [plainStage 1 [2] [1], plainStage 2 [1] [2]]).isOk = true := by
    decide
  rcases hchecks : checkDescriptors [plainStage 1 [2] [1], plainStage 2 [1] [2]] with r | p
  · rw [hchecks] at haccepted
    cases haccepted
  · exact ((validate_canonical (Ledger.register _)).1 p hchecks).mp hcycle

/-- The validation accepts exactly the well-formed plans whose stages can be put in order. -/
theorem validate_ok_iff (l : Ledger σ) : l.validate.status = .ok ↔
    WellFormed l.descriptors ∧ ¬ HasCycle l.descriptors ∧ ∀ d ∈ l.descriptors,
      ∀ c ∈ d.requiredCapabilities, ∀ e ∈ l.descriptors, e.Provides c → e.phase ≤ d.phase := by
  constructor
  · intro hok
    obtain ⟨hwell, hphases, -⟩ := planned_of_validate hok
    obtain ⟨providers, hchecks, -⟩ := validate_of_ok hok
    refine ⟨hwell, fun hcycle => ?_, hphases⟩
    cases hok.symm.trans ((validate_eq_cycle_iff hchecks).mpr hcycle)
  · rintro ⟨hwell, hacyclic, hphases⟩
    obtain ⟨providers, hchecks⟩ := hwell.exists_checkDescriptors
    obtain ⟨-, haccepted⟩ := checkDescriptors_eq_ok hchecks
    have hordered := (checkPhases_eq_ok haccepted).mpr fun d hd c hc =>
      ⟨hwell.supplied d hd c hc, hphases d hd c hc⟩
    rcases hplan : planStages l.descriptors providers with stuck | order
    · exact absurd ((planStages_error_iff hwell haccepted.named).mp ⟨stuck, hplan⟩) hacyclic
    · rw [Ledger.validate, hchecks]
      simp only [hplan, hordered]

end Validate

end OpenRFS.BootLedger
