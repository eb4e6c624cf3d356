import OpenRFS.Codec.LittleEndian
import OpenRFS.Codec.Checked
import OpenRFS.Schedule.Greedy

/-!
# The boot ledger: validating a plan

A stage of the boot requires capabilities, provides some when it runs, and may
provide others when it is skipped. `validate` checks the registered stages, finds the
one provider of each capability, and plans the stages: again and again the least
stage by phase and identifier whose requirements are planned.

The values of the enumerations come from outside, so a stage or a capability is its
number here, and `validate` checks that it is one of the enumeration.
-/

namespace OpenRFS.BootLedger

abbrev StageId := UInt32

abbrev Capability := UInt32

def stageCapacity : ℕ := 59

def capabilityCapacity : ℕ := 23

def proofCounterCapacity : ℕ := 2

def stageCount : UInt32 := 60

def capabilityCount : UInt32 := 84

def phaseCount : UInt32 := 8

def irreversibleCount : UInt32 := 6

inductive LedgerStatus where
  | ok
  | emptyPlan
  | notValidated
  | alreadyExecuted
  | unknownStageIdentifier
  | unknownCapability
  | tooManyStages
  | tooManyReceipts
  | tooManyStageCapabilities
  | invalidNeutralSkip
  | duplicateStage
  | duplicateCapabilityRequirement
  | duplicateCapabilityProvider
  | missingCapabilityProvider
  | capabilityDependencyCycle
  | invalidPhaseTransition
  | irreversibleStageOrderedTooEarly
  | requiredStageSkipped
  | undeclaredCapabilityProvided
  | stageExecutedBeforeRequirements
  | requiredStageFailed
  | optionalStageFailed
  | optionalStageSkipped
  | receiptMismatch
  | planFingerprintMismatch
  | installedPlanDiffersValidatedPlan
  deriving DecidableEq, Repr

/-- `enum boot_receipt_result`, and any other value that a callback may leave. -/
inductive ReceiptResult where
  | ran
  | skipped
  | failed
  | unknown (value : UInt32)
  deriving DecidableEq, Repr

structure StageResult where
  result : ReceiptResult
  provided : List Capability
  proofCounters : List UInt64
  deriving DecidableEq, Repr

/-- A stage with its callback, which works on the boot context `σ`. A name or a
callback may be missing. -/
structure Descriptor (σ : Type) where
  id : StageId
  name : Option Bytes
  requiredCapabilities : List Capability
  providedCapabilities : List Capability
  skippedCapabilities : List Capability
  required : Bool
  skipPreservesHealth : Bool
  phase : UInt32
  irreversibleClass : UInt32
  execute : Option (σ → StageResult → StageResult × σ)

structure Receipt where
  stageId : StageId
  sequence : ℕ
  provided : List Capability
  status : LedgerStatus
  result : ReceiptResult
  proofCounters : List UInt64
  deriving DecidableEq, Repr

structure Refusal where
  status : LedgerStatus
  stage : StageId
  capability : Capability
  deriving DecidableEq, Repr

structure Ledger (σ : Type) where
  descriptors : List (Descriptor σ)
  canonicalOrder : List ℕ
  validatedStageIds : List StageId
  receipts : List Receipt
  establishedCapabilities : List Capability
  status : LedgerStatus
  refusalStage : StageId
  refusalCapability : Capability
  validatedPlanFingerprint : UInt64
  fingerprint : UInt64
  executedCount : ℕ
  optionalSkipCount : ℕ
  validated : Bool
  executed : Bool
  degraded : Bool

def stageIsKnown (stage : StageId) : Bool := decide (0 < stage ∧ stage < stageCount)

def capabilityIsKnown (capability : Capability) : Bool :=
  decide (0 < capability ∧ capability < capabilityCount)

section Fingerprint

def fingerprintOffset : UInt64 := 14695981039346656037

def fingerprintPrime : UInt64 := 1099511628211

def fingerprintBytes : ℕ → UInt64 → UInt64 → UInt64
  | 0, fingerprint, _ => fingerprint
  | n + 1, fingerprint, value =>
    fingerprintBytes n ((fingerprint ^^^ (value &&& 0xff)) * fingerprintPrime) (value >>> 8)

def fingerprintU64 (fingerprint value : UInt64) : UInt64 := fingerprintBytes 8 fingerprint value

def knownCapabilities : List Capability := (List.range' 1 83).map UInt32.ofNat

def fingerprintCapabilitySet (fingerprint : UInt64) (capabilities : List Capability)
    (tag : UInt64) : UInt64 :=
  (knownCapabilities.filter (· ∈ capabilities)).foldl
    (fun fingerprint capability => fingerprintU64 fingerprint capability.toUInt64)
    (fingerprintU64 (fingerprintU64 fingerprint tag) (UInt64.ofNat capabilities.length))

variable {σ : Type}

def fingerprintStage (fingerprint : UInt64) (d : Descriptor σ) : UInt64 :=
  let fingerprint := fingerprintU64 fingerprint d.id.toUInt64
  let fingerprint := fingerprintU64 fingerprint d.required.toUInt64
  let fingerprint := fingerprintU64 fingerprint d.skipPreservesHealth.toUInt64
  let fingerprint := fingerprintU64 fingerprint d.phase.toUInt64
  let fingerprint := fingerprintU64 fingerprint d.irreversibleClass.toUInt64
  let fingerprint := fingerprintCapabilitySet fingerprint d.requiredCapabilities 0xa1
  let fingerprint := fingerprintCapabilitySet fingerprint d.providedCapabilities 0xa2
  fingerprintCapabilitySet fingerprint d.skippedCapabilities 0xa3

def plannedStages (ds : List (Descriptor σ)) (order : List ℕ) : List (Descriptor σ) :=
  order.filterMap fun index => ds[index]?

def fingerprintPlan (ds : List (Descriptor σ)) (order : List ℕ) : UInt64 :=
  (plannedStages ds order).foldl fingerprintStage
    (fingerprintU64 (fingerprintU64 fingerprintOffset 1) (UInt64.ofNat order.length))

end Fingerprint

/-- `irreversible_requirement_at`: what a class of irreversible stages must require. -/
def irreversibleRequirements (irreversibleClass : UInt32) : List Capability :=
  match irreversibleClass with
  -- `PAT_CR3`: device windows, frame allocator
  | 1 => [8, 4]
  -- `INTERRUPT_ENABLE`: IDT, interrupt controllers
  | 2 => [13, 14]
  -- `FRAMEBUFFER_OUTPUT`: write combining proved
  | 3 => [20]
  -- `APIC_TIMER`: IDT, interrupt controllers, interrupts enabled, clocks
  | 4 => [13, 14, 15, 7]
  -- `SCHEDULER`: heap, threading, timer calibration, interrupts enabled
  | 5 => [12, 23, 17, 15]
  | _ => []

abbrev Providers := Capability → Option ℕ

section Checks

variable {σ : Type}

def checkRequirements (d : Descriptor σ) (earlier : List Capability) :
    List Capability → Except Refusal Unit
  | [] => .ok ()
  | capability :: rest =>
    if !capabilityIsKnown capability then .error ⟨.unknownCapability, d.id, capability⟩
    else if capability ∈ earlier then .error ⟨.duplicateCapabilityRequirement, d.id, capability⟩
    else checkRequirements d (earlier ++ [capability]) rest

/-- Make the stage `index` the provider. A capability that has a provider may only be
claimed again as a common outcome. -/
def claim (d : Descriptor σ) (index : ℕ) (commonOutcome : Bool) (capability : Capability)
    (providers : Providers) : Except Refusal Providers :=
  if !capabilityIsKnown capability then .error ⟨.unknownCapability, d.id, capability⟩
  else
    match providers capability with
    | none => .ok (Function.update providers capability (some index))
    | some _ =>
      if commonOutcome then .ok providers
      else .error ⟨.duplicateCapabilityProvider, d.id, capability⟩

def claimProvided (d : Descriptor σ) (index : ℕ) :
    List Capability → Providers → Except Refusal Providers
  | [], providers => .ok providers
  | capability :: rest, providers => do
    let providers ← claim d index false capability providers
    claimProvided d index rest providers

/-- A stage may provide a capability both when it runs and when it is skipped. -/
def claimSkipped (d : Descriptor σ) (index : ℕ) (earlier : List Capability) :
    List Capability → Providers → Except Refusal Providers
  | [], providers => .ok providers
  | capability :: rest, providers => do
    let commonOutcome := decide (providers capability = some index ∧
      capability ∈ d.providedCapabilities ∧ capability ∉ earlier)
    let providers ← claim d index commonOutcome capability providers
    claimSkipped d index (earlier ++ [capability]) rest providers

def checkStage (earlier : List (Descriptor σ)) (d : Descriptor σ) (providers : Providers) :
    Except Refusal Providers := do
  if !stageIsKnown d.id then .error ⟨.unknownStageIdentifier, d.id, 0⟩
  else if phaseCount ≤ d.phase ∨ irreversibleCount ≤ d.irreversibleClass ∨ d.name.isNone ∨
      d.execute.isNone then .error ⟨.invalidPhaseTransition, d.id, 0⟩
  else if capabilityCapacity < d.requiredCapabilities.length ∨
      capabilityCapacity < d.providedCapabilities.length ∨
      capabilityCapacity < d.skippedCapabilities.length then
    .error ⟨.tooManyStageCapabilities, d.id, 0⟩
  else if d.skipPreservesHealth ∧ (d.required ∨ d.skippedCapabilities = []) then
    .error ⟨.invalidNeutralSkip, d.id, 0⟩
  else if d.id ∈ earlier.map (·.id) then .error ⟨.duplicateStage, d.id, 0⟩
  else
    checkRequirements d [] d.requiredCapabilities
    let providers ← claimProvided d earlier.length d.providedCapabilities providers
    claimSkipped d earlier.length [] d.skippedCapabilities providers

def checkStages (earlier : List (Descriptor σ)) :
    List (Descriptor σ) → Providers → Except Refusal Providers
  | [], providers => .ok providers
  | d :: rest, providers => do
    let providers ← checkStage earlier d providers
    checkStages (earlier ++ [d]) rest providers

def providerPhase (ds : List (Descriptor σ)) (providers : Providers) (capability : Capability) :
    Option UInt32 :=
  match providers capability with
  | none => none
  | some index => (ds[index]?).map Descriptor.phase

def checkSupplied (ds : List (Descriptor σ)) (providers : Providers) : Except Refusal Unit :=
  ds.forM fun d => d.requiredCapabilities.forM fun capability =>
    if (providers capability).isNone then .error ⟨.missingCapabilityProvider, d.id, capability⟩
    else .ok ()

/-- The phase of the provider of a capability is not after that of the stage. -/
def providedInTime (ds : List (Descriptor σ)) (providers : Providers) (d : Descriptor σ)
    (capability : Capability) : Bool :=
  match providerPhase ds providers capability with
  | some phase => decide (phase ≤ d.phase)
  | none => false

def checkIrreversible (ds : List (Descriptor σ)) (providers : Providers) : Except Refusal Unit :=
  ds.forM fun d => (irreversibleRequirements d.irreversibleClass).forM fun capability =>
    if capability ∈ d.requiredCapabilities ∧ providedInTime ds providers d capability then .ok ()
    else .error ⟨.irreversibleStageOrderedTooEarly, d.id, capability⟩

def checkPhases (ds : List (Descriptor σ)) (providers : Providers) : Except Refusal Unit :=
  ds.forM fun d => d.requiredCapabilities.forM fun capability =>
    if providedInTime ds providers d capability then .ok ()
    else .error ⟨.invalidPhaseTransition, d.id, capability⟩

def checkDescriptors (ds : List (Descriptor σ)) : Except Refusal Providers := do
  if ds = [] then .error ⟨.emptyPlan, 0, 0⟩
  else if stageCapacity < ds.length then .error ⟨.tooManyStages, 0, 0⟩
  else
    let providers ← checkStages [] ds fun _ => none
    checkSupplied ds providers
    checkIrreversible ds providers
    .ok providers

def before (ds : List (Descriptor σ)) (i j : ℕ) : Bool :=
  match ds[i]?, ds[j]? with
  | some d, some e => decide (d.phase < e.phase ∨ d.phase = e.phase ∧ d.id < e.id)
  | _, _ => false

def ready (ds : List (Descriptor σ)) (providers : Providers) (planned : List ℕ) (i : ℕ) : Bool :=
  decide (i ∉ planned) &&
    match ds[i]? with
    | none => false
    | some d => d.requiredCapabilities.all fun capability =>
      match providers capability with
      | none => false
      | some provider => decide (provider ∈ planned)

/-- The least identifier of a stage that is not planned. -/
def cycleStage (ds : List (Descriptor σ)) (planned : List ℕ) : StageId :=
  ds.zipIdx.foldl (fun stage entry =>
    if entry.2 ∉ planned ∧ (stage = 0 ∨ entry.1.id < stage) then entry.1.id else stage) 0

/-- The loop that plans the stages. The error is what was planned before no stage was
ready. -/
def planStages (ds : List (Descriptor σ)) (providers : Providers) :
    Except (List ℕ) (List ℕ) :=
  Schedule.plan (fun i j => before ds i j = true) (ready ds providers) (List.range ds.length) ds.length []

end Checks

namespace Ledger

variable {σ : Type} (l : Ledger σ)

def setRefusal (refusal : Refusal) : Ledger σ :=
  { l with
    status := refusal.status
    refusalStage := refusal.stage
    refusalCapability := refusal.capability }

def setPlan (order : List ℕ) : Ledger σ :=
  { l with
    canonicalOrder := order
    validatedStageIds := (plannedStages l.descriptors order).map (·.id) }

def forget : Ledger σ :=
  { l with
    validated := false
    executed := false
    canonicalOrder := []
    validatedStageIds := []
    receipts := []
    refusalStage := 0
    refusalCapability := 0 }

/-- `boot_ledger_validate`. The status that it returns is the one of the ledger. -/
def validate : Ledger σ :=
  match checkDescriptors l.descriptors with
  | .error refusal => l.forget.setRefusal refusal
  | .ok providers =>
    match planStages l.descriptors providers with
    | .error planned =>
      (l.forget.setPlan planned).setRefusal
        ⟨.capabilityDependencyCycle, cycleStage l.descriptors planned, 0⟩
    | .ok order =>
      match checkPhases l.descriptors providers with
      -- cycles win over phase errors
      | .error refusal => (l.forget.setPlan order).setRefusal refusal
      | .ok () =>
        { l.forget.setPlan order with
          validatedPlanFingerprint := fingerprintPlan l.descriptors order
          fingerprint := 0
          validated := true
          status := .ok }

end Ledger

end OpenRFS.BootLedger
