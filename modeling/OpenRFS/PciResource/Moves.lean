import OpenRFS.PciResource.Claims
import OpenRFS.Region.Count

/-!
# What the calls on claims do

Every call is a chain of a few elementary moves: the command of a claimed function
changes, bus mastering is switched, a mapping comes or goes, and a claim is admitted or
retired. A call that is refused moves nothing.
-/

namespace OpenRFS.PciResource

open List Function Relation.ReflTransGen State

variable {claim : Claim} {s : State}

section Moves

def Region.Covers (region : Region) (page : ℕ) : Prop :=
  OpenRFS.Region.Covers Region.firstPage Region.pageCount region page

/-- The parts of a claim that only its admission and its retirement decide. -/
structure SameClaim (c c' : Claim) : Prop where
  device : c'.device = c.device
  originalCommand : c'.originalCommand = c.originalCommand
  identifier : c'.identifier = c.identifier
  active : c'.active = c.active

/-- The moves. The label is the claim that is retired, if one is. -/
inductive Move : Option ℕ → State → State → Prop
  | command {s : State} {k : ℕ} {c : Claim} (c' : Claim) (value : UInt16) :
      s.claims[k]? = some c → c.active → SameClaim c c' → c'.mappings = c.mappings →
      c'.busMasterEnabled = c.busMasterEnabled →
      isClear value commandBusMaster = isClear c.currentCommand commandBusMaster →
      Move none s (s.command k c' value)
  | enable {s : State} {k : ℕ} {c : Claim} :
      s.claims[k]? = some c → c.active → c.busMasterEnabled = false →
      Move none s { s.command k { c with busMasterEnabled := true }
        (c.currentCommand ||| commandBusMaster) with busMasters := s.busMasters + 1 }
  | disable {s : State} {k : ℕ} {c : Claim} :
      s.claims[k]? = some c → c.active → c.busMasterEnabled = true →
      Move none s (s.disableBusMaster k c)
  | addMapping {s : State} {k : ℕ} {c : Claim} (region : Region) :
      s.claims[k]? = some c → c.active → c.mappings.length < mappingCapacity →
      region.firstPage + region.pageCount ≤ arenaPageCount →
      (∀ page, region.Covers page → s.arena page = false) →
      Move none s (s.addMapping k c region)
  | dropMapping {s : State} {k : ℕ} {c : Claim} (region : Region) :
      s.claims[k]? = some c → c.active → c.mappings.getLast? = some region →
      Move none s (s.dropMapping k c region)
  | enrol {s : State} (slot : Fin claimCapacity) (address : Address) (probed : Probed) :
      s.records slot = none → (∀ slot record, s.records slot = some record → record.device ≠ address) →
      probed.originalCommand = (s.config address).command →
      probed.currentCommand = (s.config address).command &&& ~~~commandBusMaster →
      Move none s ((s.writeCommand address probed.currentCommand).enrol slot address probed)
  | retire {s : State} {k : ℕ} {c : Claim} (slot : Fin claimCapacity) :
      s.claims[k]? = some c → c.active → c.mappings = [] → c.busMasterEnabled = false →
      findClaimRecord s c = some slot → Move (some k) s (s.retire k c slot)

/-- A chain of moves that retires no claim but those allowed. -/
def Chain (allowed : ℕ → Prop) : State → State → Prop :=
  Relation.ReflTransGen fun s s' => ∃ label, Move label s s' ∧ ∀ k ∈ label, allowed k

variable {allowed : ℕ → Prop} {s s' : State} {k : ℕ}

theorem Chain.refl (s : State) : Chain allowed s s := Relation.ReflTransGen.refl

theorem Move.chain (h : Move none s s') : Chain allowed s s' :=
  single ⟨none, h, nofun⟩

end Moves

section ClaimDevice

variable {functions : List PciFunction} {s : State} {function : PciFunction}

theorem setDevice_self (s : State) (address : Address) : s.setDevice address (s.config address) = s := by
  rw [setDevice, update_eq_self]

theorem writeCommand_setDevice (s : State) (address : Address) (command : UInt16) :
    (s.setDevice address ((s.config address).writeCommand command)).writeCommand address
      (s.config address).command = s := by
  simp only [writeCommand, setDevice, update_self, update_idem, Device.writeCommand]
  exact setDevice_self s address

/-- A claim is admitted, or the registers of every function are as before. -/
theorem pciClaimDevice_cases (functions : List PciFunction) (function : PciFunction) (s : State) :
    (∃ status, pciClaimDevice functions function s = (.error status, s)) ∨
      ∃ slot probed, pciClaimDevice functions function s =
          (.ok (), (s.writeCommand function.address probed.currentCommand).enrol slot
            function.address probed) ∧
        s.records slot = none ∧
        (∀ slot record, s.records slot = some record → record.device ≠ function.address) ∧
        probed.originalCommand = (s.config function.address).command ∧
        probed.currentCommand = (s.config function.address).command &&& ~~~commandBusMaster := by
  unfold pciClaimDevice
  split
  · exact .inl ⟨_, rfl⟩
  split
  · exact .inl ⟨_, rfl⟩
  rename_i hunclaimed
  split
  · exact .inl ⟨_, rfl⟩
  rename_i slot hfree
  have hnone : s.records slot = none := by simpa using find?_some hfree
  have hdevice : ∀ slot record, s.records slot = some record → record.device ≠ function.address := by
    intro slot record hrecord heq
    refine hunclaimed (any_eq_true.mpr ⟨slot, mem_finRange slot, ?_⟩)
    rw [hrecord]
    exact decide_eq_true heq
  rcases probeBars_cases function.address function.headerType (s.config function.address) with
    ⟨status, hprobe⟩ | ⟨bars, hprobe⟩
  · simp only [hprobe, setDevice_self]
    exact .inl ⟨status, rfl⟩
  · simp only [hprobe]
    split
    · -- the bars overlap, and the command is written back
      rename_i status _
      refine .inl ⟨status, Prod.ext rfl ?_⟩
      split_ifs with hset
      · exact writeCommand_setDevice s _ _
      · simp only [not_or, ne_eq, not_not] at hset
        rw [hset.2, ← hset.1]
        exact setDevice_self s _
    · exact .inr ⟨slot, ⟨bars, (s.config function.address).command,
        (s.config function.address).command &&& ~~~commandBusMaster⟩, rfl, hnone, hdevice, rfl, rfl⟩

end ClaimDevice

section Calls

variable {allowed : ℕ → Prop} {s : State} {k : ℕ}

theorem withActiveClaim_chain {body : Claim → Fin claimCapacity → Except Status Unit × State}
    (h : ∀ claim slot, s.claims[k]? = some claim → claim.active → findClaimRecord s claim = some slot →
      Chain allowed s (body claim slot).2) : Chain allowed s (withActiveClaim s k body).2 :=
  withActiveClaim_rule (P := fun r => Chain allowed s r.2) (fun _ => .refl s) h

theorem or_and_distrib (a b m : UInt16) : (a ||| b) &&& m = (a &&& m) ||| (b &&& m) := by
  apply UInt16.toBitVec_inj.mp
  ext i
  simp [Bool.and_or_distrib_right]

theorem isClear_or {command bits : UInt16} (h : bits &&& commandBusMaster = 0) :
    isClear (command ||| bits) commandBusMaster = isClear command commandBusMaster := by
  unfold isClear
  rw [or_and_distrib, h, UInt16.or_zero]

theorem claims_setClaim (h : (s.claims[k]?).isSome) :
    (s.setClaim k claim).claims[k]? = some claim := by
  obtain ⟨c, hc⟩ := Option.isSome_iff_exists.mp h
  exact List.getElem?_set_self (List.getElem?_eq_some_iff.mp hc).1

theorem findArenaPages_spec {arena : ℕ → Bool} {count first : ℕ}
    (h : findArenaPages arena count = some first) :
    first + count ≤ arenaPageCount ∧ ∀ page, first ≤ page → page < first + count →
      arena page = false := by
  unfold findArenaPages at h
  split_ifs at h with hcount
  have hfirst := mem_range.mp (mem_of_find?_eq_some h)
  have hfree := find?_some h
  refine ⟨by omega, fun page hle hlt => ?_⟩
  have hpage := all_eq_true.mp hfree (page - first) (mem_range.mpr (by omega))
  rw [Nat.add_sub_cancel' hle] at hpage
  simpa using hpage

theorem arenaSet_restore {arena : ℕ → Bool} {first count : ℕ}
    (h : ∀ page, first ≤ page → page < first + count → arena page = false) :
    arenaSet (arenaSet arena first count true) first count false = arena := by
  funext page
  unfold arenaSet
  split_ifs with hpage
  · exact (h page hpage.1 hpage.2).symm
  · rfl

theorem regionAt_firstPage (bar : Bar) (barIndex first : ℕ) :
    (regionAt bar barIndex first).firstPage = first := by
  simp only [regionAt, Region.firstPage, Nat.add_sub_cancel_left]
  exact Nat.mul_div_cancel first (by decide)

theorem regionAt_pageCount (bar : Bar) (barIndex first : ℕ) :
    (regionAt bar barIndex first).pageCount = (regionAt bar barIndex 0).pageCount := by
  simp only [regionAt, Region.pageCount]

theorem checkMapping_length {barIndex : ℕ} {ramOverlap : Bool} {bar : Bar}
    (h : checkMapping claim barIndex ramOverlap = .ok bar) :
    claim.mappings.length < mappingCapacity := by
  unfold checkMapping at h
  split at h
  · exact absurd h nofun
  · split_ifs at h with hmapped hfull
    all_goals omega

/-- Memory decoding may be switched on after a mapping. -/
theorem enableMemory_chain (hclaim : s.claims[k]? = some claim) (hactive : claim.active) :
    Chain allowed s (s.enableMemory k) := by
  unfold enableMemory
  rw [hclaim]
  dsimp only
  split_ifs
  · exact (Move.command { claim with memoryDecodeEnabled := true } _ hclaim hactive
      ⟨rfl, rfl, rfl, rfl⟩ rfl rfl
      (isClear_or (show commandMemorySpace &&& commandBusMaster = 0 by decide))).chain
  · exact .refl s

theorem mapBar_chain (barIndex : ℕ) (ramOverlap : Bool) (paging : Paging) :
    Chain allowed s (pciClaimMapBar k barIndex ramOverlap paging s).2 := by
  refine withActiveClaim_chain fun claim slot hclaim hactive _ => ?_
  split
  · exact .refl s
  rename_i bar hbar
  dsimp only
  split
  · exact .refl s
  rename_i first hfirst
  obtain ⟨hinside, hfree⟩ := findArenaPages_spec hfirst
  split_ifs
  · rw [arenaSet_restore hfree]
    exact .refl s
  · have hmove : Move none s (s.addMapping k claim (regionAt bar barIndex first)) := by
      refine .addMapping _ hclaim hactive (checkMapping_length hbar) ?_ ?_
      · rw [regionAt_firstPage, regionAt_pageCount]
        exact hinside
      · intro page ⟨hle, hlt⟩
        rw [regionAt_firstPage] at hle hlt
        rw [regionAt_pageCount] at hlt
        exact hfree page hle hlt
    have hadded : (s.addMapping k claim (regionAt bar barIndex first)).claims[k]? =
        some { claim with mappings := claim.mappings ++ [regionAt bar barIndex first] } :=
      claims_setClaim (by rw [hclaim]; rfl)
    exact trans hmove.chain (enableMemory_chain hadded hactive)

theorem unmapLastBar_chain (barIndex : ℕ) :
    Chain allowed s (pciClaimUnmapLastBar k barIndex s).2 := by
  refine withActiveClaim_chain fun claim slot hclaim hactive _ => ?_
  split
  · exact .refl s
  rename_i region hlast
  split_ifs
  · exact .refl s
  · exact .refl s
  · exact (Move.dropMapping region hclaim hactive hlast).chain

theorem enableIo_chain : Chain allowed s (pciClaimEnableIo k s).2 := by
  refine withActiveClaim_chain fun claim slot hclaim hactive _ => ?_
  split_ifs
  · exact .refl s
  · exact .refl s
  · exact (Move.command { claim with ioDecodeEnabled := true } _ hclaim hactive
      ⟨rfl, rfl, rfl, rfl⟩ rfl rfl
      (isClear_or (show commandIoSpace &&& commandBusMaster = 0 by decide))).chain

theorem and_not_mask {command mask m : UInt16} (h : mask &&& m = 0) :
    (command &&& ~~~mask) &&& m = command &&& m := by
  apply UInt16.toBitVec_inj.mp
  ext i hi
  have hbit : (mask.toBitVec[i] && m.toBitVec[i]) = false := by
    rw [← BitVec.getElem_and, ← UInt16.toBitVec_and, h]
    simp
  cases hmask : mask.toBitVec[i] <;> simp_all

theorem isClear_update {command mask value : UInt16} (h : isClear mask (~~~commandUnprivileged)) :
    isClear ((command &&& ~~~mask) ||| (value &&& mask)) commandBusMaster =
      isClear command commandBusMaster := by
  have hbit : ~~~commandUnprivileged &&& commandBusMaster = commandBusMaster := by decide
  have hmask : mask &&& commandBusMaster = 0 := by
    rw [← hbit, ← UInt16.and_assoc, of_decide_eq_true h, UInt16.zero_and]
  unfold isClear
  rw [or_and_distrib, UInt16.and_assoc value, hmask, UInt16.and_zero, UInt16.or_zero,
    and_not_mask hmask]

theorem updateCommand_chain (mask value : UInt16) :
    Chain allowed s (pciClaimUpdateCommand k mask value s).2 := by
  refine withActiveClaim_chain fun claim slot hclaim hactive _ => ?_
  dsimp only
  split_ifs with hmask
  · exact .refl s
  · exact .refl s
  · exact (Move.command claim _ hclaim hactive ⟨rfl, rfl, rfl, rfl⟩ rfl rfl
      (isClear_update (by simpa using hmask))).chain

theorem enableBusMaster_chain (owned : List Bool) :
    Chain allowed s (pciClaimEnableBusMaster k owned s).2 := by
  refine withActiveClaim_chain fun claim slot hclaim hactive _ => ?_
  split_ifs with _ henabled
  · exact .refl s
  · exact .refl s
  · exact .refl s
  · exact .refl s
  · exact (Move.enable hclaim hactive (by simpa using henabled)).chain

theorem disableBusMaster_chain : Chain allowed s (pciClaimDisableBusMaster k s).2 := by
  refine withActiveClaim_chain fun claim slot hclaim hactive _ => ?_
  split_ifs with henabled
  · exact .refl s
  · exact (Move.disable hclaim hactive (by simpa using henabled)).chain

end Calls

section Release

variable (allowed : ℕ → Prop) {s : State} {k : ℕ}

variable (hclaim : s.claims[k]? = some claim)
include hclaim

theorem releaseMappings_chain (hactive : claim.active) :
    Chain allowed s (releaseMappings k claim.mappings.length s) ∧
      (releaseMappings k claim.mappings.length s).claims[k]? = some { claim with mappings := [] } ∧
      (releaseMappings k claim.mappings.length s).records = s.records := by
  induction hn : claim.mappings.length generalizing s claim with
  | zero =>
    have hnil := eq_nil_of_length_eq_zero hn
    refine ⟨.refl s, ?_, rfl⟩
    rw [← hnil]
    exact hclaim
  | succ n ih =>
    have hne : claim.mappings ≠ [] := by
      intro hnil
      rw [hnil] at hn
      exact absurd hn nofun
    obtain ⟨region, hlast⟩ : ∃ region, claim.mappings.getLast? = some region :=
      ⟨_, getLast?_eq_some_getLast hne⟩
    have hdropped : (s.dropMapping k claim region).claims[k]? =
        some { claim with mappings := claim.mappings.dropLast } :=
      claims_setClaim (by rw [hclaim]; rfl)
    obtain ⟨hchain, hrest⟩ := ih hdropped hactive (by simp [hn])
    unfold releaseMappings
    simp only [hclaim, hlast]
    exact ⟨(Move.dropMapping region hclaim hactive hlast).chain.trans hchain, hrest⟩

/-- Bus mastering is off, and the rest of the claim is as before. -/
theorem stopBusMaster_chain (hactive : claim.active) :
    let s' := if claim.busMasterEnabled then s.disableBusMaster k claim else s
    Chain allowed s s' ∧ s'.records = s.records ∧ ∃ claim', s'.claims[k]? = some claim' ∧
      SameClaim claim claim' ∧ claim'.mappings = claim.mappings ∧ claim'.busMasterEnabled = false := by
  split_ifs with henabled
  · refine ⟨(Move.disable hclaim hactive henabled).chain, rfl, _, claims_setClaim ?_,
      ⟨rfl, rfl, rfl, rfl⟩, rfl, rfl⟩
    change (s.claims[k]?).isSome
    rw [hclaim]
    rfl
  · exact ⟨.refl s, rfl, claim, hclaim, ⟨rfl, rfl, rfl, rfl⟩, rfl, by simpa using henabled⟩

theorem release_active {slot : Fin claimCapacity}
    (hactive : claim.active) (hslot : findClaimRecord s claim = some slot) :
    (pciReleaseDevice k s).1 = .ok () ∧ Chain (· = k) s (pciReleaseDevice k s).2 ∧
      ((pciReleaseDevice k s).2.config claim.device).command = claim.originalCommand := by
  obtain ⟨hstop, hrecords, claim₁, hclaim₁, hsame, hmappings, hoff⟩ :=
    stopBusMaster_chain (· = k) hclaim hactive
  unfold pciReleaseDevice withActiveClaim
  simp only [hclaim, hactive, hslot, Bool.not_true, Bool.false_eq_true, if_false]
  generalize (if claim.busMasterEnabled then s.disableBusMaster k claim else s) = s₁ at *
  rw [← hmappings]
  have hactive₁ : claim₁.active := hsame.active.trans hactive
  obtain ⟨hrelease, hclaims, hrecords'⟩ := releaseMappings_chain (· = k) hclaim₁ hactive₁
  rw [hclaims]
  refine ⟨rfl, ?_, ?_⟩
  · have hfind : findClaimRecord (releaseMappings k claim₁.mappings.length s₁)
        { claim₁ with mappings := [] } = some slot := by
      rw [← hslot, findClaimRecord, findClaimRecord, hrecords'.trans hrecords]
      rw [← hsame.identifier, ← hsame.device]
    refine (hstop.trans hrelease).trans (single ⟨some k, ?_, ?_⟩)
    · exact .retire slot hclaims hactive₁ rfl hoff hfind
    · rintro _ ⟨⟩
      rfl
  · simp only [retire, command, setClaim, writeCommand, setDevice,
      hsame.device, hsame.originalCommand, update_self, Device.writeCommand]

omit hclaim

end Release

section Chains

variable {functions : List PciFunction} {s : State}

/-- Every call is a chain of moves, and retires a claim only if it releases it. -/
theorem call_chain (functions : List PciFunction) (s : State) (c : Call) :
    Chain (fun k => c = .release k) s (call functions s c).2 := by
  cases c with
  | claimDevice function =>
    rcases pciClaimDevice_cases functions function s with
      ⟨status, hcall⟩ | ⟨slot, probed, hcall, hnone, hdevice, horiginal, hcurrent⟩
    · rw [call, hcall]
      exact .refl s
    · rw [call, hcall]
      exact (Move.enrol slot function.address probed hnone hdevice horiginal hcurrent).chain
  | mapBar k barIndex ramOverlap paging => exact mapBar_chain barIndex ramOverlap paging
  | unmapLastBar k barIndex => exact unmapLastBar_chain barIndex
  | enableIo k => exact enableIo_chain
  | updateCommand k mask value => exact updateCommand_chain mask value
  | enableBusMaster k owned => exact enableBusMaster_chain owned
  | disableBusMaster k => exact disableBusMaster_chain
  | release k =>
    have hallowed : (fun k' => Call.release k = .release k') = (· = k) := by
      funext k'
      simp [eq_comm]
    rw [hallowed, call]
    refine withActiveClaim_chain fun claim slot hclaim hactive hslot => ?_
    have hrelease := (release_active hclaim hactive hslot).2.1
    simp only [pciReleaseDevice, withActiveClaim, hclaim, hactive, hslot] at hrelease
    exact hrelease

end Chains

end OpenRFS.PciResource
