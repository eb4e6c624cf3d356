import OpenRFS.BootLedger.Plan

/-!
# The boot ledger: executing a plan and verifying its receipts

`execute` runs the stages of a validated plan in order. The callback of a stage may
leave any result; the result has to claim exactly what the stage declares. Each stage
leaves a receipt, and the capabilities on the receipts are established.
`verifyReceiptSet` starts from the receipts alone and works the capabilities out
again.
-/

namespace OpenRFS.BootLedger

variable {σ : Type}

def fingerprintReceipts (l : Ledger σ) : UInt64 :=
  l.receipts.foldl (fun fingerprint receipt =>
    let fingerprint := fingerprintU64 fingerprint receipt.stageId.toUInt64
    let fingerprint := fingerprintU64 fingerprint (UInt64.ofNat receipt.sequence)
    let fingerprint := fingerprintU64 fingerprint (resultCode receipt.result)
    let fingerprint := fingerprintU64 fingerprint (statusCode receipt.status)
    fingerprintCapabilitySet fingerprint receipt.provided 0xb1)
    (fingerprintU64 (fingerprintU64 l.validatedPlanFingerprint 0xb001ed6e)
      (UInt64.ofNat l.receipts.length))
where
  resultCode : ReceiptResult → UInt64
    | .ran => 0
    | .skipped => 1
    | .failed => 2
    | .unknown value => value.toUInt64
  statusCode (status : LedgerStatus) : UInt64 :=
    -- `NULL_ARGUMENT` has the code 1 and is no status of the model
    if status = .ok then 0 else UInt64.ofNat (status.ctorIdx + 1)

def Ledger.hasCapability (l : Ledger σ) (capability : Capability) : Bool :=
  capabilityIsKnown capability && decide (capability ∈ l.establishedCapabilities)

def missingRequirement (l : Ledger σ) (d : Descriptor σ) : Option Capability :=
  d.requiredCapabilities.find? fun capability => !l.hasCapability capability

def Descriptor.declared (d : Descriptor σ) : ReceiptResult → List Capability
  | .ran => d.providedCapabilities
  | .skipped => d.skippedCapabilities
  | .failed | .unknown _ => []

def skipResult (d : Descriptor σ) : StageResult := ⟨.skipped, d.skippedCapabilities, []⟩

def failResult : StageResult := ⟨.failed, [], []⟩

def ReceiptResult.isUnknown : ReceiptResult → Bool
  | .unknown _ => true
  | _ => false

def validateResult (d : Descriptor σ) (r : StageResult) : Except (LedgerStatus × Capability) Unit :=
  if r.result.isUnknown then .error (.receiptMismatch, 0)
  else if capabilityCapacity < r.provided.length ∨
      proofCounterCapacity < r.proofCounters.length then .error (.receiptMismatch, 0)
  else
    match r.provided.find? (· ∉ d.declared r.result) with
    | some capability => .error (.undeclaredCapabilityProvided, capability)
    | none =>
      if r.provided.length ≠ (d.declared r.result).length then .error (.receiptMismatch, 0)
      else
        match (d.declared r.result).find? (· ∉ r.provided) with
        | some capability => .error (.receiptMismatch, capability)
        | none => .ok ()

/-- Establish the capabilities of a result. The error is a ledger without room. -/
def establish (d : Descriptor σ) : List Capability → Ledger σ → Except (Ledger σ) (Ledger σ)
  | [], l => .ok l
  | capability :: rest, l =>
    if l.hasCapability capability then establish d rest l
    else if capabilityCount.toNat ≤ l.establishedCapabilities.length then
      .error (l.setRefusal ⟨.receiptMismatch, d.id, capability⟩)
    else establish d rest
      { l with establishedCapabilities := l.establishedCapabilities ++ [capability] }

def appendReceipt (l : Ledger σ) (d : Descriptor σ) (r : StageResult) (status : LedgerStatus) :
    LedgerStatus × Ledger σ :=
  if stageCapacity ≤ l.receipts.length then
    (.tooManyReceipts, l.setRefusal ⟨.tooManyReceipts, d.id, 0⟩)
  else
    match establish d r.provided l with
    | .error l' => (.receiptMismatch, l')
    | .ok l' =>
      (.ok, { l' with
        receipts := l'.receipts ++
          [⟨d.id, l.receipts.length + 1, r.provided, status, r.result, r.proofCounters⟩]
        executedCount := if r.result ≠ .skipped then l'.executedCount + 1 else l'.executedCount
        degraded := l'.degraded ||
          (decide (r.result ≠ .ran) && !(decide (r.result = .skipped) && d.skipPreservesHealth))
        optionalSkipCount :=
          if r.result = .skipped then l'.optionalSkipCount + 1 else l'.optionalSkipCount })

/-- A ledger that is executed, with the boot context and the stages whose callbacks
were invoked. -/
structure Boot (σ : Type) where
  ledger : Ledger σ
  context : σ
  invoked : List StageId

/-- Call the callback of a stage with a result that says it failed. A validated stage
has a callback. -/
def Boot.invoke (b : Boot σ) (d : Descriptor σ) : StageResult × Boot σ :=
  match d.execute with
  | none => (failResult, b)
  | some execute =>
    let answer := execute b.context failResult
    (answer.1, { b with context := answer.2, invoked := b.invoked ++ [d.id] })

def Boot.refuse (b : Boot σ) (r : Refusal) : LedgerStatus × Boot σ :=
  (r.status, { b with ledger := b.ledger.setRefusal r })

def Boot.append (b : Boot σ) (d : Descriptor σ) (r : StageResult) (status : LedgerStatus) :
    LedgerStatus × Boot σ :=
  let appended := appendReceipt b.ledger d r status
  (appended.1, { b with ledger := appended.2 })

def settleStage (b : Boot σ) (d : Descriptor σ) (r : StageResult) : LedgerStatus × Boot σ :=
  if r.result = .skipped ∧ d.required then
    (b.append d r .requiredStageSkipped).2.refuse ⟨.requiredStageSkipped, d.id, 0⟩
  else if r.result = .failed then
    if d.required then
      (b.append d r .requiredStageFailed).2.refuse ⟨.requiredStageFailed, d.id, 0⟩
    else
      let b' := (b.append d r .optionalStageFailed).2
      (.ok, { b' with ledger := { b'.ledger with degraded := true } })
  else b.append d r (if r.result = .skipped then .optionalStageSkipped else .ok)

/-- `execute_stage`. A stage that may be left out is skipped without its callback when
a requirement is missing. -/
def executeStage (b : Boot σ) (d : Descriptor σ) : LedgerStatus × Boot σ :=
  match missingRequirement b.ledger d with
  | some missing =>
    if d.required then b.refuse ⟨.stageExecutedBeforeRequirements, d.id, missing⟩
    else b.append d (skipResult d) .optionalStageSkipped
  | none =>
    let invoked := b.invoke d
    match validateResult d invoked.1 with
    | .error (status, bad) => invoked.2.refuse ⟨status, d.id, bad⟩
    | .ok () => settleStage invoked.2 d invoked.1

/-- The loop over the plan: the index of each stage and the identifier that was
validated for it. -/
def executeStages : List (ℕ × StageId) → Boot σ → LedgerStatus × Boot σ
  | [], b => (.ok, b)
  | (index, id) :: rest, b =>
    match b.ledger.descriptors[index]? with
    -- a plan has no index outside the list
    | none => b.refuse ⟨.installedPlanDiffersValidatedPlan, id, 0⟩
    | some d =>
      if d.id ≠ id then b.refuse ⟨.installedPlanDiffersValidatedPlan, d.id, 0⟩
      else
        match executeStage b d with
        | (.ok, b') => executeStages rest b'
        | (status, b') => (status, b')

def Ledger.begin (l : Ledger σ) : Ledger σ :=
  { l with
    receipts := []
    establishedCapabilities := []
    executedCount := 0
    optionalSkipCount := 0
    degraded := false }

def execute (b : Boot σ) : LedgerStatus × Boot σ :=
  let l := b.ledger
  if !l.validated then b.refuse ⟨.notValidated, 0, 0⟩
  else if l.executed then b.refuse ⟨.alreadyExecuted, 0, 0⟩
  else if fingerprintPlan l.descriptors l.canonicalOrder ≠ l.validatedPlanFingerprint then
    b.refuse ⟨.planFingerprintMismatch, 0, 0⟩
  else
    match executeStages (l.canonicalOrder.zip l.validatedStageIds) { b with ledger := l.begin } with
    | (.ok, b') =>
      (.ok, { b' with ledger := { b'.ledger with
        fingerprint := fingerprintReceipts b'.ledger, executed := true, status := .ok } })
    | (status, b') => (status, b')

section Verify

def plannedStageAt (l : Ledger σ) (index : ℕ) : Option (Descriptor σ) := do
  let i ← l.canonicalOrder[index]?
  l.descriptors[i]?

def Receipt.consistent (r : Receipt) : Bool :=
  match r.result with
  | .ran => decide (r.status = .ok)
  | .skipped => decide (r.status = .optionalStageSkipped)
  | .failed => decide (r.status = .optionalStageFailed)
  | .unknown _ => false

/-- The capabilities of one receipt, each checked and added to those before. -/
def verifyProvided (d : Descriptor σ) (declared earlier : List Capability) :
    List Capability → List Capability → Except Refusal (List Capability)
  | [], capabilities => .ok capabilities
  | c :: rest, capabilities =>
    if !capabilityIsKnown c then .error ⟨.unknownCapability, d.id, c⟩
    else if c ∉ declared then .error ⟨.undeclaredCapabilityProvided, d.id, c⟩
    else if c ∈ earlier then .error ⟨.receiptMismatch, d.id, c⟩
    else if c ∈ capabilities then .error ⟨.duplicateCapabilityProvider, d.id, c⟩
    else if capabilityCount.toNat ≤ capabilities.length then .error ⟨.receiptMismatch, d.id, c⟩
    else verifyProvided d declared (earlier ++ [c]) rest (capabilities ++ [c])

def earlyRequirement (d : Descriptor σ) (r : Receipt) (capabilities : List Capability) :
    Option Capability :=
  if r.result ≠ .skipped then d.requiredCapabilities.find? (· ∉ capabilities) else none

def verifyReceipt (d : Descriptor σ) (r : Receipt) (capabilities : List Capability) :
    Except Refusal (List Capability) :=
  if capabilityCapacity < r.provided.length ∨ proofCounterCapacity < r.proofCounters.length ∨
      r.consistent = false then .error ⟨.receiptMismatch, d.id, 0⟩
  else if d.required ∧ (r.result ≠ .ran ∨ r.status ≠ .ok) then
    .error ⟨.receiptMismatch, d.id, 0⟩
  else
    match earlyRequirement d r capabilities with
    | some capability => .error ⟨.stageExecutedBeforeRequirements, d.id, capability⟩
    | none =>
      if r.provided.length ≠ (d.declared r.result).length then
        .error ⟨.receiptMismatch, d.id, 0⟩
      else do
        let capabilities ← verifyProvided d (d.declared r.result) [] r.provided capabilities
        match (d.declared r.result).find? (· ∉ r.provided) with
        | some capability => .error ⟨.receiptMismatch, d.id, capability⟩
        | none => .ok capabilities

def verifyReceipts (l : Ledger σ) :
    ℕ → List Receipt → List Capability → List StageId → Except Refusal (List Capability)
  | _, [], capabilities, _ => .ok capabilities
  | index, r :: rest, capabilities, seen =>
    if !stageIsKnown r.stageId then .error ⟨.unknownStageIdentifier, r.stageId, 0⟩
    else
      match plannedStageAt l index with
      | none => .error ⟨.installedPlanDiffersValidatedPlan, r.stageId, 0⟩
      | some d =>
        if r.stageId ≠ d.id ∨ r.sequence ≠ index + 1 ∨ r.stageId ∈ seen then
          .error ⟨.installedPlanDiffersValidatedPlan, r.stageId, 0⟩
        else do
          let capabilities ← verifyReceipt d r capabilities
          verifyReceipts l (index + 1) rest capabilities (seen ++ [r.stageId])

def verifyReceiptSet (l : Ledger σ) : Except Refusal Unit := do
  if l.receipts.length ≠ l.canonicalOrder.length then .error ⟨.receiptMismatch, 0, 0⟩
  else
    let capabilities ← verifyReceipts l 0 l.receipts [] []
    if capabilities.length ≠ l.establishedCapabilities.length then
      .error ⟨.receiptMismatch, 0, 0⟩
    else
      match capabilities.find? fun capability => !l.hasCapability capability with
      | some capability => .error ⟨.receiptMismatch, 0, capability⟩
      | none => .ok ()

end Verify

end OpenRFS.BootLedger
