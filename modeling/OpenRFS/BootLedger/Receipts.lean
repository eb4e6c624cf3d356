import OpenRFS.BootLedger.Execute
import OpenRFS.BootLedger.Canonical

/-!
# The receipts of an executed plan

`Evidence` says what the receipts of a plan record, stage by stage, together with the
capabilities that were established before each stage. An execution that succeeds
leaves such receipts, whatever the callbacks did, and the receipts with evidence are
verified.
-/

namespace OpenRFS.BootLedger

open List Ledger

variable {σ : Type}

/-- What the receipt of a stage records, when `established` was there before it. -/
structure Recorded (established : List Capability) (d : Descriptor σ) (r : Receipt) : Prop where
  stage : r.stageId = d.id
  outcome : r.provided.Perm (d.declared r.result)
  consistent : r.consistent = true
  counters : r.proofCounters.length ≤ proofCounterCapacity
  required : d.required = true → r.result = .ran
  requirements : r.result ≠ .skipped → ∀ c ∈ d.requiredCapabilities, c ∈ established

/-- The receipts of the stages of a plan, from the one after `n` others on. -/
inductive Evidence : List Capability → ℕ → List (Descriptor σ) → List Receipt → Prop
  | nil (established : List Capability) (n : ℕ) : Evidence established n [] []
  | cons {established : List Capability} {n : ℕ} {d : Descriptor σ} {r : Receipt}
      {stages : List (Descriptor σ)} {receipts : List Receipt} (hr : Recorded established d r)
      (hsequence : r.sequence = n + 1)
      (hrest : Evidence (established ++ r.provided) (n + 1) stages receipts) :
      Evidence established n (d :: stages) (r :: receipts)

/-- How the receipt of a stage comes about, with the contexts around the stage and the
callbacks it invokes: the callback answers what the receipt says, or a stage that is not
required is skipped without it. -/
inductive Reported (context : σ) (d : Descriptor σ) (r : Receipt) : σ → List StageId → Prop
  | answered {execute : σ → StageResult → StageResult × σ} {context' : σ}
      (hexecute : d.execute = some execute)
      (hanswer : execute context failResult = (⟨r.result, r.provided, r.proofCounters⟩, context')) :
      Reported context d r context' [d.id]
  | leftOut (hrequired : d.required = false) (hskipped : r.result = .skipped) :
      Reported context d r context []

/-- The receipts of a plan as the callbacks make them, each in the context that those before
it have left. -/
inductive Answered : σ → List (Descriptor σ) → List Receipt → σ → List StageId → Prop
  | nil (context : σ) : Answered context [] [] context []
  | cons {context context' last : σ} {d : Descriptor σ} {r : Receipt} {called invoked : List StageId}
      {stages : List (Descriptor σ)} {receipts : List Receipt}
      (hr : Reported context d r context' called)
      (hrest : Answered context' stages receipts last invoked) :
      Answered context (d :: stages) (r :: receipts) last (called ++ invoked)

theorem Reported.eq_id {context context' : σ} {d : Descriptor σ} {r : Receipt}
    {called : List StageId} (h : Reported context d r context' called) : ∀ s ∈ called, s = d.id := by
  cases h with
  | answered => simp
  | leftOut => simp

/-- The stages still to come can provide what they declare: none of it is established,
and no two of them provide the same capability. -/
structure Room (established : List Capability) (stages : List (Descriptor σ)) : Prop where
  nodup : established.Nodup
  known : ∀ c ∈ established, capabilityIsKnown c = true
  apart : ∀ d ∈ stages, ∀ c, d.Provides c → c ∉ established
  pairwise : stages.Pairwise fun d e => ∀ c, d.Provides c → ¬ e.Provides c
  acceptable : ∀ d ∈ stages, d.Acceptable

section Room

variable {established : List Capability} {d : Descriptor σ} {stages : List (Descriptor σ)}

theorem provides_of_mem_declared {c : Capability} {result : ReceiptResult}
    (h : c ∈ d.declared result) : d.Provides c := by
  cases result with
  | ran => exact .inl h
  | skipped => exact .inr h
  | failed | unknown value => exact absurd h nofun

theorem Descriptor.Acceptable.declared (h : d.Acceptable) (result : ReceiptResult) :
    (d.declared result).Nodup ∧ (d.declared result).length ≤ capabilityCapacity := by
  cases result with
  | ran => exact ⟨h.provided_nodup, h.provided_length⟩
  | skipped => exact ⟨h.skipped_nodup, h.skipped_length⟩
  | failed | unknown value => exact ⟨nodup_nil, Nat.zero_le _⟩

theorem mem_knownCapabilities {c : Capability} (h : capabilityIsKnown c) :
    c ∈ knownCapabilities := by
  simp only [capabilityIsKnown, decide_eq_true_eq] at h
  have hpos : 0 < c.toNat := UInt32.lt_iff_toNat_lt.mp h.1
  have hlt : c.toNat < 84 := UInt32.lt_iff_toNat_lt.mp h.2
  refine mem_map.mpr ⟨c.toNat, ?_, UInt32.ofNat_toNat⟩
  rw [mem_range'_1]
  omega

theorem length_lt_of_known {l : List Capability} (hnodup : l.Nodup)
    (hknown : ∀ c ∈ l, capabilityIsKnown c) : l.length < capabilityCount.toNat := by
  have hle := (hnodup.subperm fun c hc => mem_knownCapabilities (hknown c hc)).length_le
  have hlength : knownCapabilities.length = 83 := by decide
  have hcount : capabilityCount.toNat = 84 := by decide
  omega

theorem Room.append {provided : List Capability} {result : ReceiptResult}
    (h : Room established (d :: stages)) (hprovided : provided.Perm (d.declared result)) :
    Room (established ++ provided) stages := by
  have hd := h.acceptable d mem_cons_self
  have hprovides : ∀ c ∈ provided, d.Provides c :=
    fun c hc => provides_of_mem_declared (hprovided.mem_iff.mp hc)
  obtain ⟨hothers, hpairwise⟩ := pairwise_cons.mp h.pairwise
  refine ⟨?_, forall_mem_append.mpr ⟨h.known, fun c hc => hd.provides_known c (hprovides c hc)⟩,
    fun e he c hc hmem => ?_, hpairwise, fun e he => h.acceptable e (mem_cons_of_mem _ he)⟩
  · refine List.Nodup.append h.nodup (hprovided.nodup_iff.mpr (hd.declared result).1) ?_
    exact fun c hc hc' => h.apart d mem_cons_self c (hprovides c hc') hc
  · rcases mem_append.mp hmem with hmem | hmem
    · exact h.apart e (mem_cons_of_mem _ he) c hc hmem
    · exact hothers e he c (hprovides c hmem) hc

end Room

/-- The fields of a ledger that its execution does not change. -/
structure Ledger.Keeps (l l' : Ledger σ) : Prop where
  descriptors : l'.descriptors = l.descriptors
  canonicalOrder : l'.canonicalOrder = l.canonicalOrder

theorem Ledger.Keeps.refl (l : Ledger σ) : l.Keeps l := ⟨rfl, rfl⟩

theorem Ledger.Keeps.trans {l₁ l₂ l₃ : Ledger σ} (h : l₁.Keeps l₂) (h' : l₂.Keeps l₃) :
    l₁.Keeps l₃ :=
  ⟨h'.descriptors.trans h.descriptors, h'.canonicalOrder.trans h.canonicalOrder⟩

section Stage

variable {d : Descriptor σ} {stages : List (Descriptor σ)}

theorem establish_eq {l : Ledger σ} {provided : List Capability}
    (hnodup : (l.establishedCapabilities ++ provided).Nodup)
    (hknown : ∀ c ∈ l.establishedCapabilities ++ provided, capabilityIsKnown c) :
    establish d provided l =
      .ok { l with establishedCapabilities := l.establishedCapabilities ++ provided } := by
  induction provided generalizing l with
  | nil => simp [establish]
  | cons c provided ih =>
    have hfresh : c ∉ l.establishedCapabilities := fun hc =>
      (disjoint_of_nodup_append hnodup) hc mem_cons_self
    have hroom : ¬ capabilityCount.toNat ≤ l.establishedCapabilities.length :=
      not_le.mpr (length_lt_of_known hnodup.of_append_left
        fun x hx => hknown x (mem_append_left _ hx))
    have hnot : ¬ l.hasCapability c := by simp [hasCapability, hfresh]
    rw [establish, if_neg hnot, if_neg hroom, ih]
    · simp
    · simpa using hnodup
    · simpa using hknown

theorem appendReceipt_eq {l : Ledger σ} {r : StageResult} (status : LedgerStatus)
    (hroom : Room l.establishedCapabilities (d :: stages))
    (hlength : l.receipts.length < stageCapacity)
    (hprovided : r.provided.Perm (d.declared r.result)) :
    ∃ l', appendReceipt l d r status = (.ok, l') ∧ l.Keeps l' ∧ l'.receipts = l.receipts ++
        [⟨d.id, l.receipts.length + 1, r.provided, status, r.result, r.proofCounters⟩] ∧
      l'.establishedCapabilities = l.establishedCapabilities ++ r.provided := by
  have hafter := hroom.append hprovided
  rw [appendReceipt, if_neg (not_le.mpr hlength), establish_eq hafter.nodup hafter.known]
  exact ⟨_, rfl, ⟨rfl, rfl⟩, rfl, rfl⟩

theorem validateResult_eq_ok {r : StageResult} (hd : d.Acceptable)
    (h : validateResult d r = .ok ()) :
    r.result.isUnknown = false ∧ r.provided.Perm (d.declared r.result) ∧
      r.proofCounters.length ≤ proofCounterCapacity := by
  rw [validateResult] at h
  split_ifs at h with hunknown hlong hlength
  · split at h <;> cases h
  · split at h
    · cases h
    · split at h
      · cases h
      · rename_i hmissing
        have hsub : d.declared r.result ⊆ r.provided := by
          intro c hc
          have := find?_eq_none.mp hmissing c hc
          simpa using this
        have hperm := ((hd.declared r.result).1.subperm hsub).perm_of_length_le
          (not_not.mp hlength).le
        exact ⟨by simpa using hunknown, hperm.symm, by omega⟩

theorem validateResult_ne_ok {r : StageResult} {status : LedgerStatus} {bad : Capability}
    (h : validateResult d r = .error (status, bad)) : status ≠ .ok := by
  rw [validateResult] at h
  rintro rfl
  split_ifs at h
  · cases h
  · cases h
  · split at h <;> cases h
  · split at h
    · cases h
    · split at h <;> cases h

theorem missingRequirement_eq_none {l : Ledger σ} (h : missingRequirement l d = none) :
    ∀ c ∈ d.requiredCapabilities, c ∈ l.establishedCapabilities := by
  intro c hc
  have := find?_eq_none.mp h c hc
  simp only [Bool.not_eq_true', Bool.not_eq_false, hasCapability, Bool.and_eq_true,
    decide_eq_true_eq] at this
  exact this.2

inductive StageOutcome (b : Boot σ) (d : Descriptor σ) : LedgerStatus × Boot σ → Prop
  | recorded {b' : Boot σ} {called : List StageId} (r : Receipt) (hkeeps : b.ledger.Keeps b'.ledger)
      (hreceipts : b'.ledger.receipts = b.ledger.receipts ++ [r])
      (hestablished : b'.ledger.establishedCapabilities =
        b.ledger.establishedCapabilities ++ r.provided)
      (hrecorded : Recorded b.ledger.establishedCapabilities d r)
      (hsequence : r.sequence = b.ledger.receipts.length + 1)
      (hreported : Reported b.context d r b'.context called)
      (hcalled : b'.invoked = b.invoked ++ called) : StageOutcome b d (.ok, b')
  | refused {status : LedgerStatus} {b' : Boot σ} (hstatus : status ≠ .ok)
      (hrefusal : b'.ledger.refusalStage = d.id)
      (hinvoked : ∀ s ∈ b'.invoked, s ∈ b.invoked ∨ s = d.id) : StageOutcome b d (status, b')

section Append

variable {b b' : Boot σ} {r : StageResult} {status : LedgerStatus} (hledger : b'.ledger = b.ledger)
  (hroom : Room b.ledger.establishedCapabilities (d :: stages))
  (hlength : b.ledger.receipts.length < stageCapacity)
include hledger hroom hlength

theorem stageOutcome_append {receipt : Receipt} {called : List StageId} (hreceipt : receipt =
      ⟨d.id, b.ledger.receipts.length + 1, r.provided, status, r.result, r.proofCounters⟩)
    (hrecorded : Recorded b.ledger.establishedCapabilities d receipt)
    (hreported : Reported b.context d receipt b'.context called)
    (hcalled : b'.invoked = b.invoked ++ called) : StageOutcome b d (b'.append d r status) := by
  subst hreceipt
  obtain ⟨l', happend, hkeeps, hreceipts, hestablished⟩ :=
    appendReceipt_eq status hroom hlength hrecorded.outcome
  rw [Boot.append, hledger, happend]
  exact .recorded _ hkeeps hreceipts hestablished hrecorded rfl hreported hcalled

theorem stageOutcome_settle {execute : σ → StageResult → StageResult × σ}
    (hexecute : d.execute = some execute)
    (hanswer : execute b.context failResult = (r, b'.context))
    (hcalled : b'.invoked = b.invoked ++ [d.id]) (hresult : validateResult d r = .ok ())
    (hrequirements : ∀ c ∈ d.requiredCapabilities, c ∈ b.ledger.establishedCapabilities) :
    StageOutcome b d (settleStage b' d r) := by
  obtain ⟨hunknown, hprovided, hcounters⟩ :=
    validateResult_eq_ok (hroom.acceptable d mem_cons_self) hresult
  have hrecorded : ∀ receipt : Receipt, receipt = ⟨d.id, b.ledger.receipts.length + 1, r.provided,
        receipt.status, r.result, r.proofCounters⟩ → receipt.consistent →
      (d.required → r.result = .ran) → Recorded b.ledger.establishedCapabilities d receipt := by
    intro receipt heq hconsistent hrequired
    rw [heq] at hconsistent ⊢
    exact ⟨rfl, hprovided, hconsistent, hcounters, hrequired, fun _ => hrequirements⟩
  have hinvoked : ∀ s ∈ b'.invoked, s ∈ b.invoked ∨ s = d.id := by simp [hcalled]
  rw [settleStage]
  split_ifs with hskip hfailed hrequired hskipped
  · exact .refused nofun rfl hinvoked
  · exact .refused nofun rfl hinvoked
  · -- the stage reports success even if there was no room for the receipt, but there is
    obtain ⟨l', happend, hkeeps, hreceipts, hestablished⟩ :=
      appendReceipt_eq .optionalStageFailed hroom hlength hprovided
    simp only [Boot.append, hledger, happend]
    exact .recorded _ ⟨hkeeps.descriptors, hkeeps.canonicalOrder⟩ hreceipts hestablished
      (hrecorded _ rfl (by simp [Receipt.consistent, hfailed]) fun h => absurd h hrequired) rfl
      (.answered hexecute hanswer) hcalled
  · exact stageOutcome_append hledger hroom hlength rfl (hrecorded _ rfl
      (by simp [Receipt.consistent, hskipped]) fun h => absurd ⟨hskipped, h⟩ hskip)
      (.answered hexecute hanswer) hcalled
  · have hran : r.result = .ran := by
      cases hcase : r.result with
      | ran => rfl
      | skipped => exact absurd hcase hskipped
      | failed => exact absurd hcase hfailed
      | unknown value => simp [hcase, ReceiptResult.isUnknown] at hunknown
    exact stageOutcome_append hledger hroom hlength rfl
      (hrecorded _ rfl (by simp [Receipt.consistent, hran]) fun _ => hran)
      (.answered hexecute hanswer) hcalled

end Append

theorem stageOutcome_executeStage {b : Boot σ}
    (hroom : Room b.ledger.establishedCapabilities (d :: stages))
    (hlength : b.ledger.receipts.length < stageCapacity) : StageOutcome b d (executeStage b d) := by
  rw [executeStage]
  rcases hmissing : missingRequirement b.ledger d with - | missing
  · obtain ⟨execute, hexecute⟩ :=
      Option.isSome_iff_exists.mp (hroom.acceptable d mem_cons_self).executable
    simp only [Boot.invoke, hexecute]
    rcases hresult : validateResult d (execute b.context failResult).1 with ⟨status, bad⟩ | _
    · exact .refused (validateResult_ne_ok hresult) rfl (by simp)
    · exact stageOutcome_settle rfl hroom hlength hexecute rfl rfl hresult
        (missingRequirement_eq_none hmissing)
  · split_ifs with hrequired
    · exact .refused nofun rfl fun s hs => .inl hs
    · exact stageOutcome_append rfl hroom hlength rfl
        ⟨rfl, List.Perm.refl _, rfl, Nat.zero_le _, fun h => absurd h hrequired, absurd rfl⟩
        (.leftOut (by simpa using hrequired) rfl) (append_nil _).symm

end Stage

section Run

/-- The plan of a ledger, index by index, with the stages that it names. -/
def Names (l : Ledger σ) (plan : List (ℕ × StageId)) (stages : List (Descriptor σ)) : Prop :=
  List.Forall₂ (fun p d => l.descriptors[p.1]? = some d ∧ d.id = p.2) plan stages

/-- A status other than success ends a run. -/
theorem match_of_ne_ok (next : Boot σ → LedgerStatus × Boot σ) {status : LedgerStatus}
    {b : Boot σ} (h : status ≠ .ok) :
    (match (status, b) with
      | (.ok, b') => next b'
      | (status, b') => (status, b')) = (status, b) := by
  cases status <;> first | rfl | exact absurd rfl h

section Cons

variable {plan : List (ℕ × StageId)} {index : ℕ} {d : Descriptor σ} {b b' : Boot σ}
  (hd : b.ledger.descriptors[index]? = some d)

include hd

theorem executeStages_of_ok (h : executeStage b d = (.ok, b')) :
    executeStages ((index, d.id) :: plan) b = executeStages plan b' := by
  simp only [executeStages, hd, ne_eq, not_true_eq_false, if_false, h]

theorem executeStages_of_refused {status : LedgerStatus} (h : executeStage b d = (status, b'))
    (hne : status ≠ .ok) : executeStages ((index, d.id) :: plan) b = (status, b') := by
  rw [executeStages, hd]
  dsimp only
  rw [if_neg (not_not.mpr rfl), h]
  exact match_of_ne_ok _ hne

end Cons

/-- A run over the rest of a plan leaves the receipts of all its stages, or stops at a
stage and invokes no callback after it. -/
theorem executeStages_outcome {plan : List (ℕ × StageId)} {stages : List (Descriptor σ)}
    {b : Boot σ} (hplan : Names b.ledger plan stages)
    (hroom : Room b.ledger.establishedCapabilities stages)
    (hlength : b.ledger.receipts.length + stages.length ≤ stageCapacity) :
    ((executeStages plan b).1 = .ok ∧ b.ledger.Keeps (executeStages plan b).2.ledger ∧
      ∃ receipts invoked,
        (executeStages plan b).2.ledger.receipts = b.ledger.receipts ++ receipts ∧
        (executeStages plan b).2.ledger.establishedCapabilities =
          b.ledger.establishedCapabilities ++ receipts.flatMap (·.provided) ∧
        Evidence b.ledger.establishedCapabilities b.ledger.receipts.length stages receipts ∧
        (executeStages plan b).2.invoked = b.invoked ++ invoked ∧
        Answered b.context stages receipts (executeStages plan b).2.context invoked) ∨
    ((executeStages plan b).1 ≠ .ok ∧ ∃ done d rest, stages = done ++ d :: rest ∧
      (executeStages plan b).2.ledger.refusalStage = d.id ∧
      ∀ s ∈ (executeStages plan b).2.invoked, s ∈ b.invoked ∨ s ∈ (done ++ [d]).map (·.id)) := by
  induction plan generalizing stages b with
  | nil =>
    obtain rfl := forall₂_nil_left_iff.mp hplan
    exact .inl ⟨rfl, .refl _, [], [], by simp [executeStages], by simp [executeStages], .nil _ _,
      by simp [executeStages], .nil _⟩
  | cons p plan ih =>
    obtain ⟨index, id⟩ := p
    obtain ⟨d, stages, ⟨hd, rfl⟩, hrest, rfl⟩ := forall₂_cons_left_iff.mp hplan
    rw [length_cons] at hlength
    have hstage := stageOutcome_executeStage hroom (by omega)
    rcases hcase : executeStage b d with ⟨status, b'⟩
    rw [hcase] at hstage
    cases hstage with
    | @recorded _ called r hkeeps hreceipts hestablished hrecorded hsequence hreported hcalled =>
      rw [executeStages_of_ok hd hcase]
      have hplan' : Names b'.ledger plan stages := by
        rw [Names, hkeeps.descriptors]
        exact hrest
      have hcount : b'.ledger.receipts.length = b.ledger.receipts.length + 1 := by
        simp [hreceipts]
      have hroom' : Room b'.ledger.establishedCapabilities stages :=
        hestablished ▸ hroom.append hrecorded.outcome
      rcases ih hplan' hroom' (by omega) with
        ⟨hok, hkeeps', receipts, invoked, hr, he, hevidence, hinv, hanswered⟩ |
        ⟨hne, done, e, rest, rfl, hrefusal, hinv⟩
      · refine .inl ⟨hok, hkeeps.trans hkeeps', r :: receipts, called ++ invoked, ?_, ?_, ?_, ?_,
          .cons hreported hanswered⟩
        · simp [hr, hreceipts]
        · simp [he, hestablished]
        · rw [hcount, hestablished] at hevidence
          exact .cons hrecorded hsequence hevidence
        · simp [hinv, hcalled]
      · refine .inr ⟨hne, d :: done, e, rest, rfl, hrefusal, fun s hs => ?_⟩
        rcases hinv s hs with hs | hs
        · rw [hcalled] at hs
          rcases mem_append.mp hs with hs | hs
          · exact .inl hs
          · exact .inr (by simp [hreported.eq_id s hs])
        · exact .inr (mem_cons_of_mem _ hs)
    | refused hstatus hrefusal hinvoked =>
      rw [executeStages_of_refused hd hcase hstatus]
      refine .inr ⟨hstatus, [], d, stages, rfl, hrefusal, fun s hs => ?_⟩
      rcases hinvoked s hs with hs | rfl
      · exact .inl hs
      · exact .inr (by simp)

end Run

section Verify

variable {d : Descriptor σ} {stages : List (Descriptor σ)}

theorem verifyProvided_eq {declared earlier l capabilities : List Capability}
    (hnodup : (capabilities ++ l).Nodup)
    (hknown : ∀ c ∈ capabilities ++ l, capabilityIsKnown c)
    (hdeclared : ∀ c ∈ l, c ∈ declared) (hearlier : ∀ c ∈ l, c ∉ earlier) :
    verifyProvided d declared earlier l capabilities = .ok (capabilities ++ l) := by
  induction l generalizing earlier capabilities with
  | nil => simp [verifyProvided]
  | cons c l ih =>
    have hc : c ∉ capabilities := fun hmem =>
      (disjoint_of_nodup_append hnodup) hmem mem_cons_self
    have hcl : c ∉ l := (nodup_cons.mp hnodup.of_append_right).1
    have hroom : ¬ capabilityCount.toNat ≤ capabilities.length :=
      not_le.mpr (length_lt_of_known hnodup.of_append_left
        fun x hx => hknown x (mem_append_left _ hx))
    rw [verifyProvided, if_neg (by simp [hknown c (by simp)]),
      if_neg (not_not.mpr (hdeclared c mem_cons_self)),
      if_neg (hearlier c mem_cons_self), if_neg hc, if_neg hroom, ih]
    · simp
    · simpa using hnodup
    · simpa using hknown
    · exact fun x hx => hdeclared x (mem_cons_of_mem _ hx)
    · intro x hx
      simp only [mem_append, mem_singleton, not_or]
      exact ⟨hearlier x (mem_cons_of_mem _ hx), fun heq => hcl (heq ▸ hx)⟩

theorem verifyReceipt_eq {established : List Capability} {r : Receipt}
    (hroom : Room established (d :: stages)) (h : Recorded established d r) :
    verifyReceipt d r established = .ok (established ++ r.provided) := by
  have hd := hroom.acceptable d mem_cons_self
  have hafter := hroom.append h.outcome
  have hlength := h.outcome.length_eq
  have hcapacity := (hd.declared r.result).2
  have hearly : earlyRequirement d r established = none := by
    rw [earlyRequirement]
    split_ifs with hskipped
    · exact find?_eq_none.mpr fun c hc => by simpa using h.requirements hskipped c hc
    · rfl
  have hmissing : (d.declared r.result).find? (· ∉ r.provided) = none :=
    find?_eq_none.mpr fun c hc => by simpa using h.outcome.mem_iff.mpr hc
  have hstatus : d.required → r.status = .ok := by
    intro hrequired
    have hconsistent := h.consistent
    rw [Receipt.consistent, h.required hrequired] at hconsistent
    simpa using hconsistent
  have hcounters := h.counters
  rw [verifyReceipt, if_neg, if_neg, hearly]
  · rw [if_neg (not_not.mpr hlength), verifyProvided_eq hafter.nodup hafter.known
      (fun c hc => h.outcome.mem_iff.mp hc) fun _ _ => not_mem_nil]
    simp only [hmissing]
    rfl
  · rintro ⟨hrequired, hran | hbad⟩
    · exact hran (h.required hrequired)
    · exact hbad (hstatus hrequired)
  · rw [h.consistent]
    simp only [Bool.true_eq_false, or_false, not_or, not_lt]
    exact ⟨by omega, hcounters⟩

theorem verifyReceipts_eq {l : Ledger σ} {established : List Capability} {n : ℕ}
    {receipts : List Receipt} {seen : List StageId} (h : Evidence established n stages receipts)
    (hroom : Room established stages) (hplan : ∀ k, k < stages.length →
      plannedStageAt l (n + k) = stages[k]?)
    (hids : (stages.map (·.id)).Nodup) (hseen : ∀ s ∈ seen, s ∉ stages.map (·.id)) :
    verifyReceipts l n receipts established seen =
      .ok (established ++ receipts.flatMap (·.provided)) := by
  induction h generalizing seen with
  | nil => simp [verifyReceipts]
  | @cons established n d r stages receipts hr hsequence hrest ih =>
    have hd := hroom.acceptable d mem_cons_self
    have hstage : plannedStageAt l n = some d := by simpa using hplan 0 (by simp)
    rw [map_cons, nodup_cons] at hids
    have hfresh : ¬ (r.stageId ≠ d.id ∨ r.sequence ≠ n + 1 ∨ r.stageId ∈ seen) := by
      rw [hr.stage]
      simp only [ne_eq, not_true_eq_false, hsequence, false_or]
      exact fun hmem => hseen _ hmem mem_cons_self
    rw [verifyReceipts, if_neg (by simp [hr.stage, hd.id_known]), hstage]
    dsimp only
    rw [if_neg hfresh, verifyReceipt_eq hroom hr]
    refine (ih (hroom.append hr.outcome) (fun k hk => ?_) hids.2 fun s hs => ?_).trans ?_
    · have := hplan (k + 1) (by simpa using hk)
      rw [getElem?_cons_succ] at this
      rw [← this, add_right_comm, add_assoc]
    · rcases mem_append.mp hs with hs | hs
      · exact fun hmem => hseen s hs (mem_cons_of_mem _ hmem)
      · rw [mem_singleton.mp hs, hr.stage]
        exact hids.1
    · simp

end Verify

section Truthful

variable {established : List Capability} {n : ℕ} {stages : List (Descriptor σ)}
  {receipts : List Receipt}

variable {l : Ledger σ}

theorem room_of_validate (hok : l.validate.status = .ok) :
    Room [] (plannedStages l.descriptors l.validate.canonicalOrder) ∧
      ((plannedStages l.descriptors l.validate.canonicalOrder).map (·.id)).Nodup ∧
      (plannedStages l.descriptors l.validate.canonicalOrder).length ≤ stageCapacity := by
  obtain ⟨hwell, -, hgreedy, hlength⟩ := planned_of_validate hok
  have hids := (greedy_ids hwell.ids_nodup hgreedy).nodup
  refine ⟨⟨nodup_nil, nofun, fun _ _ _ _ => nofun, ?_,
    fun d hd => hwell.acceptable d (mem_of_mem_plannedStages hd)⟩, hids, ?_⟩
  · -- two stages that provide the same capability would have the same identifier
    refine (pairwise_map.mp hids).imp_of_mem fun hd he hid c hdc hec => hid ?_
    exact hwell.provider_unique _ (mem_of_mem_plannedStages hd) _ (mem_of_mem_plannedStages he)
      c hdc hec
  · rw [length_plannedStages fun i hi => hgreedy.mem hi, hlength]
    exact hwell.length_le

/-- The plan that `execute` goes over names the planned stages. -/
theorem names_plannedStages (l : Ledger σ) {order : List ℕ}
    (h : ∀ i ∈ order, i ∈ List.range l.descriptors.length) :
    Names l (order.zip ((plannedStages l.descriptors order).map (·.id)))
      (plannedStages l.descriptors order) := by
  induction order with
  | nil => exact .nil
  | cons i order ih =>
    have hd := getElem?_eq_getElem (mem_range.mp (h i mem_cons_self))
    rw [plannedStages_cons hd]
    exact .cons ⟨hd, rfl⟩ (ih fun j hj => h j (mem_cons_of_mem _ hj))

theorem getElem?_plannedStages {ds : List (Descriptor σ)} {order : List ℕ}
    (h : ∀ i ∈ order, i ∈ List.range ds.length) (k : ℕ) :
    (order[k]? >>= fun i => ds[i]?) = (plannedStages ds order)[k]? := by
  induction order generalizing k with
  | nil => rfl
  | cons i order ih =>
    have hd := getElem?_eq_getElem (mem_range.mp (h i mem_cons_self))
    rw [plannedStages_cons hd]
    rcases k with - | k
    · exact hd
    · exact ih (fun j hj => h j (mem_cons_of_mem _ hj)) k

theorem validate_descriptors (l : Ledger σ) : l.validate.descriptors = l.descriptors := by
  rw [validate]
  split
  · rfl
  · split
    · rfl
    · split <;> rfl

variable (hok : l.validate.status = .ok)
include hok

theorem validate_flags :
    l.validate.validated ∧ l.validate.executed = false := by
  obtain ⟨p, hchecks, hplan, hphases, -⟩ := validate_of_ok hok
  rw [validate, hchecks]
  simp only [hplan, hphases]
  exact ⟨trivial, rfl⟩

theorem range_of_validate :
    ∀ i ∈ l.validate.canonicalOrder, i ∈ List.range l.validate.descriptors.length := by
  rw [validate_descriptors]
  exact fun i hi => (planned_of_validate hok).2.2.1.mem hi

theorem execute_validated (context : σ) :
    execute ⟨l.validate, context, []⟩ =
      match executeStages (l.validate.canonicalOrder.zip l.validate.validatedStageIds)
        ⟨l.validate.begin, context, []⟩ with
      | (.ok, b') =>
        (.ok, { b' with ledger := { b'.ledger with
          fingerprint := fingerprintReceipts b'.ledger, executed := true, status := .ok } })
      | (status, b') => (status, b') := by
  obtain ⟨hvalidated, hexecuted⟩ := validate_flags hok
  obtain ⟨-, -, -, -, -, hfingerprint⟩ := validate_of_ok hok
  have hsame : fingerprintPlan l.validate.descriptors l.validate.canonicalOrder =
      l.validate.validatedPlanFingerprint := by
    rw [hfingerprint, validate_descriptors]
  rw [execute]
  simp only [hvalidated, hexecuted, Bool.not_true, Bool.false_eq_true, if_false]
  exact if_neg (not_not.mpr hsame)

omit hok

/-- The capabilities that the stages of a plan declare for the results on their
receipts. -/
def declaredOutcomes (stages : List (Descriptor σ)) (receipts : List Receipt) :
    List Capability :=
  (List.zipWith (fun d r => d.declared r.result) stages receipts).flatten

variable (h : Evidence established n stages receipts)
include h

theorem Evidence.required :
    List.Forall₂ (fun d r => d.required → r.result = .ran) stages receipts := by
  induction h with
  | nil => exact .nil
  | cons hr _ _ ih => exact .cons hr.required ih

/-- A stage that was not skipped has its requirements on the receipts before its own. -/
theorem Evidence.requirements {k : ℕ}
    {d : Descriptor σ} {r : Receipt} (hd : stages[k]? = some d) (hr : receipts[k]? = some r)
    (hresult : r.result ≠ .skipped) :
    ∀ c ∈ d.requiredCapabilities, c ∈ established ∨ ∃ r' ∈ receipts.take k, c ∈ r'.provided := by
  induction h generalizing k with
  | nil => exact absurd hd (by simp)
  | @cons established n d₀ r₀ stages receipts hr₀ _ _ ih =>
    intro c hc
    rcases k with - | k
    · obtain rfl : d₀ = d := by simpa using hd
      obtain rfl : r₀ = r := by simpa using hr
      exact .inl (hr₀.requirements hresult c hc)
    · rcases ih hd hr c hc with hold | ⟨r', hr', hmem⟩
      · rcases mem_append.mp hold with hold | hnew
        · exact .inl hold
        · exact .inr ⟨r₀, by simp, hnew⟩
      · exact .inr ⟨r', by simp [hr'], hmem⟩

theorem Evidence.perm_declaredOutcomes :
    (receipts.flatMap (·.provided)).Perm (declaredOutcomes stages receipts) := by
  induction h with
  | nil => exact .refl _
  | cons hr _ _ ih => exact hr.outcome.append ih

theorem Evidence.nodup (hroom : Room established stages) :
    (established ++ receipts.flatMap (·.provided)).Nodup ∧
      ∀ c ∈ established ++ receipts.flatMap (·.provided), capabilityIsKnown c := by
  induction h with
  | nil => simpa using ⟨hroom.nodup, hroom.known⟩
  | cons hr _ _ ih => simpa using ih (hroom.append hr.outcome)

theorem Evidence.length_eq : stages.length = receipts.length :=
  h.required.length_eq

theorem Evidence.stageIds : receipts.map (·.stageId) = stages.map (·.id) := by
  induction h with
  | nil => rfl
  | cons hr _ _ ih => rw [map_cons, map_cons, hr.stage, ih]

omit h

theorem verifyReceiptSet_eq (h : Evidence [] 0 stages l.receipts)
    (hestablished : l.establishedCapabilities = l.receipts.flatMap (·.provided))
    (hroom : Room [] stages) (hids : (stages.map (·.id)).Nodup)
    (hcount : l.canonicalOrder.length = stages.length)
    (hplan : ∀ k, plannedStageAt l k = stages[k]?) : verifyReceiptSet l = .ok () := by
  have hknown := (h.nodup hroom).2
  have hall : (l.receipts.flatMap (·.provided)).find?
      (fun capability => !l.hasCapability capability) = none := by
    refine find?_eq_none.mpr fun c hc => ?_
    simp [hasCapability, hknown c hc, hestablished, hc]
  rw [verifyReceiptSet, if_neg (not_not.mpr (h.length_eq ▸ hcount.symm)),
    verifyReceipts_eq h hroom (fun k _ => by rw [zero_add, hplan]) hids
      fun _ hs => absurd hs not_mem_nil]
  simp only [nil_append, bind, Except.bind, hestablished, ne_eq, not_true_eq_false, if_false]
  rw [hall]

theorem execute_outcome (hok : l.validate.status = .ok) (context : σ) :
    let stages := plannedStages l.descriptors l.validate.canonicalOrder
    let status := (execute ⟨l.validate, context, []⟩).1
    let b := (execute ⟨l.validate, context, []⟩).2
    (status = .ok ∧ l.validate.Keeps b.ledger ∧ Evidence [] 0 stages b.ledger.receipts ∧
      b.ledger.establishedCapabilities = b.ledger.receipts.flatMap (·.provided) ∧
      Answered context stages b.ledger.receipts b.context b.invoked) ∨
    (status ≠ .ok ∧ ∃ done d rest, stages = done ++ d :: rest ∧
      b.ledger.refusalStage = d.id ∧ ∀ s ∈ b.invoked, s ∈ (done ++ [d]).map (·.id)) := by
  intro stages
  obtain ⟨hroom, hids, hcapacity⟩ := room_of_validate hok
  obtain ⟨-, -, -, -, hvalidatedIds, -⟩ := validate_of_ok hok
  have hnames : Names l.validate.begin
      (l.validate.canonicalOrder.zip l.validate.validatedStageIds) stages := by
    have := names_plannedStages l.validate (range_of_validate hok)
    rwa [validate_descriptors, ← hvalidatedIds] at this
  rw [execute_validated hok context]
  rcases executeStages_outcome (b := ⟨l.validate.begin, context, []⟩) hnames hroom
      (by simpa [begin] using hcapacity) with
    ⟨hran, hkeeps, receipts, invoked, hreceipts, hestablished, hevidence, hinvoked, hanswered⟩ |
    ⟨hne, done, d, rest, hstages, hrefusal, hinvoked⟩
  all_goals
    rcases hcase : executeStages (l.validate.canonicalOrder.zip l.validate.validatedStageIds)
      ⟨l.validate.begin, context, []⟩ with ⟨status, b⟩
  · rw [hcase] at hran hkeeps hreceipts hestablished hinvoked hanswered
    obtain rfl : status = .ok := hran
    have hreceipts : b.ledger.receipts = receipts := hreceipts
    have hestablished : b.ledger.establishedCapabilities = receipts.flatMap (·.provided) :=
      hestablished
    have hinvoked : b.invoked = invoked := hinvoked
    refine .inl ⟨rfl, ⟨hkeeps.descriptors, hkeeps.canonicalOrder⟩, ?_, ?_, ?_⟩
    · exact hreceipts ▸ hevidence
    · exact hreceipts ▸ hestablished
    · exact hreceipts ▸ hinvoked ▸ hanswered
  · rw [hcase] at hne hrefusal hinvoked
    rw [match_of_ne_ok _ hne]
    refine .inr ⟨hne, done, d, rest, hstages, hrefusal, fun s hs => ?_⟩
    exact (hinvoked s hs).resolve_left nofun

/-- For every accepted plan and all callbacks: if the execution succeeds, then the
receipts are verified, there is one for each planned stage in order, each of them says
what the callback of its stage answered unless it is a skip without one, every required
stage ran, a stage that was not skipped had its requirements on earlier receipts, and
the established capabilities are those that the stages declare for their results, each
once. Otherwise the execution stopped at a stage, and no callback of a later one was
invoked. -/
theorem execute_truthful (hok : l.validate.status = .ok) (context : σ) :
    let stages := plannedStages l.descriptors l.validate.canonicalOrder
    let status := (execute ⟨l.validate, context, []⟩).1
    let b := (execute ⟨l.validate, context, []⟩).2
    (status = .ok → verifyReceiptSet b.ledger = .ok () ∧
      b.ledger.receipts.map (·.stageId) = l.validate.validatedStageIds ∧
      l.validate.validatedStageIds.Nodup ∧
      Answered context stages b.ledger.receipts b.context b.invoked ∧
      List.Forall₂ (fun d r => d.required = true → r.result = .ran) stages b.ledger.receipts ∧
      (∀ k d r, stages[k]? = some d → b.ledger.receipts[k]? = some r → r.result ≠ .skipped →
        ∀ c ∈ d.requiredCapabilities, ∃ r' ∈ b.ledger.receipts.take k, c ∈ r'.provided) ∧
      b.ledger.establishedCapabilities.Nodup ∧
      b.ledger.establishedCapabilities.Perm (declaredOutcomes stages b.ledger.receipts)) ∧
    (status ≠ .ok → ∃ done d rest, stages = done ++ d :: rest ∧
      b.ledger.refusalStage = d.id ∧ ∀ s ∈ b.invoked, s ∉ rest.map (·.id)) := by
  intro stages status b
  obtain ⟨hroom, hids, -⟩ := room_of_validate hok
  obtain ⟨-, -, -, -, hvalidated, -⟩ := validate_of_ok hok
  rcases execute_outcome hok context with ⟨hran, hkeeps, hevidence, hestablished, hanswered⟩ |
    ⟨hne, done, d, rest, hstages, hrefusal, hinvoked⟩
  · refine ⟨fun _ => ⟨?_, ?_, hvalidated ▸ hids, hanswered, ?_, ?_, ?_, ?_⟩, absurd hran⟩
    · refine verifyReceiptSet_eq hevidence hestablished hroom hids ?_ fun k => ?_
      · rw [hkeeps.canonicalOrder, ← length_plannedStages (range_of_validate hok),
          validate_descriptors]
      · rw [plannedStageAt, hkeeps.canonicalOrder, hkeeps.descriptors,
          getElem?_plannedStages (range_of_validate hok), validate_descriptors]
    · rw [hvalidated, hevidence.stageIds]
    · exact hevidence.required
    · intro k d r hd hr hresult c hc
      exact (hevidence.requirements hd hr hresult c hc).resolve_left nofun
    · rw [hestablished]
      simpa using (hevidence.nodup hroom).1
    · rw [hestablished]
      exact hevidence.perm_declaredOutcomes
  · refine ⟨fun hran => absurd hran hne, fun _ => ⟨done, d, rest, hstages, hrefusal, ?_⟩⟩
    intro s hs hrest
    rw [hstages, map_append, map_cons, ← singleton_append, ← append_assoc] at hids
    exact (disjoint_of_nodup_append hids) (by simpa using hinvoked s hs) hrest

abbrev runningStage (id : StageId) (requires provides : List Capability) : Descriptor Unit :=
  { plainStage id requires provides with
    execute := some fun context _ => (⟨.ran, provides, []⟩, context) }

abbrev runningLedger : Ledger Unit :=
  Ledger.register [runningStage 1 [2] [1], runningStage 2 [] [2]]

theorem execute_truthful_pair :
    runningLedger.validate.status = .ok ∧
    (execute ⟨runningLedger.validate, (), []⟩).1 = .ok ∧
    verifyReceiptSet (execute ⟨runningLedger.validate, (), []⟩).2.ledger = .ok () ∧
    (execute ⟨runningLedger.validate, (), []⟩).2.ledger.receipts.map (·.stageId) =
      runningLedger.validate.validatedStageIds := by
  have hok : runningLedger.validate.status = .ok := by decide
  have hran : (execute ⟨runningLedger.validate, (), []⟩).1 = .ok := by decide +kernel
  have htruthful := (execute_truthful hok ()).1 hran
  exact ⟨hok, hran, htruthful.1, htruthful.2.1⟩

end Truthful

end OpenRFS.BootLedger
