import OpenRFS.PciResource.Probe

/-!
# Claims on PCI functions

A driver claims a function, maps its memory ranges into an arena of device memory,
switches bus mastering on and off, and releases the function. A claim is a record of the
driver; the kernel remembers the active ones in a table of its own, and checks every
claim it is given against the table.

Claims are kept in the order in which they were made, and a call names one by its place.
Every call of `pci_claim_device` is given a fresh claim object: the claim is an
out-parameter, and what its memory held before is no input of the call.
Interrupts are off during every call. What paging, the frame allocator and the DMA
allocator answer is handed in.
-/

namespace OpenRFS.PciResource

section Overlap

def rangeEndExclusive (base size : ℕ) : Option ℕ :=
  if size = 0 ∨ size > wordMax - base then none else some (base + size)

def rangesOverlap (firstBase firstSize secondBase secondSize : ℕ) : Bool :=
  match rangeEndExclusive firstBase firstSize, rangeEndExclusive secondBase secondSize with
  | some firstEnd, some secondEnd => firstBase < secondEnd ∧ secondBase < firstEnd
  | _, _ => false

def Bar.isIo (bar : Bar) : Bool := bar.kind = .io

def conflict (first second : Bar) : Bool :=
  first.implemented && second.implemented && first.isIo == second.isIo &&
    rangesOverlap first.base first.size second.base second.size

def conflictWithin : List Bar → Bool
  | [] => false
  | bar :: bars => bars.any (conflict bar) || conflictWithin bars

end Overlap

section State

abbrev claimCapacity : ℕ := 32

def mappingCapacity : ℕ := 6

def pageSize : ℕ := 4096

def arenaBase : ℕ := 0xc00000000

def arenaSize : ℕ := 256 * 1024 * 1024

def arenaPageCount : ℕ := arenaSize / pageSize

structure PciFunction where
  address : Address
  vendorId : UInt16
  deviceId : UInt16
  headerType : UInt8
  deriving DecidableEq, Repr

structure Record where
  device : Address
  identifier : ℕ
  bars : List Bar

structure Region where
  barIndex : ℕ
  physicalBase : ℕ
  size : ℕ
  mappingPhysicalBase : ℕ
  mappingVirtualBase : ℕ
  mappingLength : ℕ
  virtualBase : ℕ

structure Claim where
  device : Address
  originalCommand : UInt16
  currentCommand : UInt16
  identifier : ℕ
  bars : List Bar
  mappings : List Region
  memoryDecodeEnabled : Bool
  ioDecodeEnabled : Bool
  busMasterEnabled : Bool
  active : Bool

structure State where
  config : Address → Device
  records : Fin claimCapacity → Option Record
  claims : List Claim
  /-- `arena_bitmap`. -/
  arena : ℕ → Bool
  activeClaims : ℕ
  activeMappings : ℕ
  mappedPages : ℕ
  busMasters : ℕ
  nextIdentifier : ℕ

def initialized (config : Address → Device) : State where
  config := config
  records _ := none
  claims := []
  arena _ := false
  activeClaims := 0
  activeMappings := 0
  mappedPages := 0
  busMasters := 0
  nextIdentifier := 1

def State.setDevice (s : State) (address : Address) (device : Device) : State :=
  { s with config := Function.update s.config address device }

def State.writeCommand (s : State) (address : Address) (command : UInt16) : State :=
  s.setDevice address ((s.config address).writeCommand command)

def State.setClaim (s : State) (k : ℕ) (claim : Claim) : State :=
  { s with claims := s.claims.set k claim }

end State

section ClaimDevice

def validateClaimBars (records : Fin claimCapacity → Option Record) (bars : List Bar) :
    Except Status Unit :=
  if conflictWithin bars then .error .overlappingBar
  else if (List.finRange claimCapacity).any fun slot => (records slot).any fun record =>
      bars.any fun current => record.bars.any fun owned => conflict current owned then
    .error .overlappingBar
  else .ok ()

/-- The next claim gets a number that is not zero. -/
def followingIdentifier (identifier : ℕ) : ℕ :=
  let following := (identifier + 1) % 2 ^ 64
  if following = 0 then 1 else following

def State.enrol (s : State) (slot : Fin claimCapacity) (address : Address) (probed : Probed) : State :=
  { s with
    records := Function.update s.records slot (some ⟨address, s.nextIdentifier, probed.bars⟩)
    claims := s.claims ++ [{
      device := address
      originalCommand := probed.originalCommand
      currentCommand := probed.currentCommand
      identifier := s.nextIdentifier
      bars := probed.bars
      mappings := []
      memoryDecodeEnabled := !isClear probed.currentCommand commandMemorySpace
      ioDecodeEnabled := !isClear probed.currentCommand commandIoSpace
      busMasterEnabled := false
      active := true }]
    activeClaims := s.activeClaims + 1
    nextIdentifier := followingIdentifier s.nextIdentifier }

def pciClaimDevice (functions : List PciFunction) (function : PciFunction) (s : State) :
    Except Status Unit × State :=
  if function ∉ functions then (.error .functionNotEnumerated, s)
  else if (List.finRange claimCapacity).any fun slot =>
      (s.records slot).any fun record => record.device = function.address then
    (.error .alreadyClaimed, s)
  else
    match (List.finRange claimCapacity).find? fun slot => (s.records slot).isNone with
    | none => (.error .claimTableFull, s)
    | some slot =>
      let probe := probeBars function.address function.headerType (s.config function.address)
      let s := s.setDevice function.address probe.2
      match probe.1 with
      -- the claim is still zeroed, and the command is not written again
      | .error status => (.error status, s)
      | .ok probed =>
        match validateClaimBars s.records probed.bars with
        | .error status =>
          (.error status,
            if probed.originalCommand ≠ 0 ∨ probed.currentCommand ≠ 0 then
              s.writeCommand function.address probed.originalCommand
            else s)
        | .ok () => (.ok (), s.enrol slot function.address probed)

end ClaimDevice

section ActiveClaim

def findClaimRecord (s : State) (claim : Claim) : Option (Fin claimCapacity) :=
  (List.finRange claimCapacity).find? fun slot => (s.records slot).any fun record =>
    record.identifier = claim.identifier ∧ record.device = claim.device

def withActiveClaim (s : State) (k : ℕ)
    (body : Claim → Fin claimCapacity → Except Status Unit × State) : Except Status Unit × State :=
  match s.claims[k]? with
  | none => (.error .nullArgument, s)
  | some claim =>
    if !claim.active then (.error .claimInconsistent, s)
    else
      match findClaimRecord s claim with
      | none => (.error .claimInconsistent, s)
      | some slot => body claim slot

/-- What holds of a refusal and of the body holds of the call. -/
theorem withActiveClaim_rule {s : State} {k : ℕ} {P : Except Status Unit × State → Prop}
    {body : Claim → Fin claimCapacity → Except Status Unit × State}
    (hrefused : ∀ status, P (.error status, s))
    (h : ∀ claim slot, s.claims[k]? = some claim → claim.active →
      findClaimRecord s claim = some slot → P (body claim slot)) : P (withActiveClaim s k body) := by
  unfold withActiveClaim
  split
  · exact hrefused _
  rename_i claim hclaim
  split_ifs with hactive
  · exact hrefused _
  split
  · exact hrefused _
  · rename_i slot hslot
    exact h claim slot hclaim (by simpa using hactive) hslot

def State.command (s : State) (k : ℕ) (claim : Claim) (command : UInt16) : State :=
  (s.writeCommand claim.device command).setClaim k { claim with currentCommand := command }

end ActiveClaim

section Arena

def arenaSet (arena : ℕ → Bool) (first count : ℕ) (used : Bool) : ℕ → Bool :=
  fun page => if first ≤ page ∧ page < first + count then used else arena page

def findArenaPages (arena : ℕ → Bool) (count : ℕ) : Option ℕ :=
  if count = 0 ∨ count > arenaPageCount then none
  else (List.range (arenaPageCount - count + 1)).find? fun first =>
    (List.range count).all fun page => !arena (first + page)

def Region.firstPage (region : Region) : ℕ := (region.mappingVirtualBase - arenaBase) / pageSize

def Region.pageCount (region : Region) : ℕ := region.mappingLength / pageSize

inductive Paging where
  /-- `paging_map` fails. -/
  | refused
  /-- `paging_translate` does not confirm the mapping, and it is taken back. -/
  | unconfirmed
  | mapped
  deriving DecidableEq, Repr

def State.addMapping (s : State) (k : ℕ) (claim : Claim) (region : Region) : State :=
  { s.setClaim k { claim with mappings := claim.mappings ++ [region] } with
    arena := arenaSet s.arena region.firstPage region.pageCount true
    activeMappings := s.activeMappings + 1
    mappedPages := s.mappedPages + region.pageCount }

def State.dropMapping (s : State) (k : ℕ) (claim : Claim) (region : Region) : State :=
  { s.setClaim k { claim with mappings := claim.mappings.dropLast } with
    arena := arenaSet s.arena region.firstPage region.pageCount false
    activeMappings := s.activeMappings - 1
    mappedPages := s.mappedPages - region.pageCount }

def regionAt (bar : Bar) (barIndex first : ℕ) : Region :=
  let pageOffset := bar.base % pageSize
  let roundedLength := (bar.size + pageOffset + pageSize - 1) / pageSize * pageSize
  { barIndex := barIndex
    physicalBase := bar.base
    size := bar.size
    mappingPhysicalBase := bar.base - pageOffset
    mappingVirtualBase := arenaBase + first * pageSize
    mappingLength := roundedLength
    virtualBase := arenaBase + first * pageSize + pageOffset }

def checkMapping (claim : Claim) (barIndex : ℕ) (ramOverlap : Bool) : Except Status Bar :=
  match claim.bars[barIndex]? with
  | none => .error .badBarIndex
  | some bar =>
    if claim.mappings.any fun region => region.barIndex = barIndex then .error .barAlreadyMapped
    else if claim.mappings.length ≥ mappingCapacity then .error .mappingCapacity
    else if !bar.implemented || decide (bar.kind ≠ .memory32 ∧ bar.kind ≠ .memory64) then
      .error .ioBarNotMappable
    else
      let pageOffset := bar.base % pageSize
      if bar.size > wordMax - pageOffset ∨ bar.size + pageOffset > wordMax - (pageSize - 1) then
        .error .mmioRangeOverflow
      else
        let roundedLength := (bar.size + pageOffset + pageSize - 1) / pageSize * pageSize
        if roundedLength = 0 ∨ roundedLength > arenaSize then .error .mmioArenaExhausted
        else if ramOverlap then .error .mmioRamOverlap
        else if claim.mappings.any fun other =>
            rangesOverlap bar.base bar.size other.physicalBase other.size then
          .error .mmioRangeOverlap
        else .ok bar

def State.enableMemory (s : State) (k : ℕ) : State :=
  match s.claims[k]? with
  | none => s
  | some claim =>
    if isClear claim.currentCommand commandMemorySpace then
      s.command k { claim with memoryDecodeEnabled := true }
        (claim.currentCommand ||| commandMemorySpace)
    else s

/-- `pci_claim_map_bar`. Pages that were taken for a mapping that paging refuses are
given back. -/
def pciClaimMapBar (k barIndex : ℕ) (ramOverlap : Bool) (paging : Paging) (s : State) :
    Except Status Unit × State :=
  withActiveClaim s k fun claim _ =>
    match checkMapping claim barIndex ramOverlap with
    | .error status => (.error status, s)
    | .ok bar =>
      let count := (regionAt bar barIndex 0).pageCount
      match findArenaPages s.arena count with
      | none => (.error .mmioArenaExhausted, s)
      | some first =>
        if paging ≠ .mapped then
          let taken := arenaSet s.arena first count true
          (.error .pagingFailure, { s with arena := arenaSet taken first count false })
        else (.ok (), (s.addMapping k claim (regionAt bar barIndex first)).enableMemory k)

def pciClaimUnmapLastBar (k barIndex : ℕ) (s : State) : Except Status Unit × State :=
  withActiveClaim s k fun claim _ =>
    match claim.mappings.getLast? with
    | none => (.error .badBarIndex, s)
    | some region =>
      if region.barIndex ≠ barIndex then (.error .mappingOrder, s)
      else if claim.busMasterEnabled then (.error .busMasterAlreadyEnabled, s)
      else (.ok (), s.dropMapping k claim region)

end Arena

section Command

def pciClaimEnableIo (k : ℕ) (s : State) : Except Status Unit × State :=
  withActiveClaim s k fun claim _ =>
    if !(claim.bars.any fun bar => bar.implemented && bar.isIo) then (.error .noIoBar, s)
    else if claim.ioDecodeEnabled then (.ok (), s)
    else (.ok (), s.command k { claim with ioDecodeEnabled := true }
      (claim.currentCommand ||| commandIoSpace))

def commandUnprivileged : UInt16 := 0x0550

def pciClaimUpdateCommand (k : ℕ) (mask value : UInt16) (s : State) : Except Status Unit × State :=
  withActiveClaim s k fun claim _ =>
    if !isClear mask (~~~commandUnprivileged) then (.error .nullArgument, s)
    else
      let command := (claim.currentCommand &&& ~~~mask) ||| (value &&& mask)
      if command = claim.currentCommand then (.ok (), s) else (.ok (), s.command k claim command)

def busMasterDmaCapacity : ℕ := 8

/-- `pci_claim_enable_bus_master`, with the answer of `dma_is_device_owned` for each
allocation of the request. -/
def pciClaimEnableBusMaster (k : ℕ) (owned : List Bool) (s : State) : Except Status Unit × State :=
  withActiveClaim s k fun claim _ =>
    if owned.length = 0 ∨ owned.length > busMasterDmaCapacity then (.error .nullArgument, s)
    else if claim.busMasterEnabled then (.error .busMasterAlreadyEnabled, s)
    else if (!claim.memoryDecodeEnabled || claim.mappings.isEmpty) && !claim.ioDecodeEnabled then
      (.error .dmaNotPrepared, s)
    else if !owned.all id then (.error .dmaNotPrepared, s)
    else
      let s := s.command k { claim with busMasterEnabled := true }
        (claim.currentCommand ||| commandBusMaster)
      (.ok (), { s with busMasters := s.busMasters + 1 })

def State.disableBusMaster (s : State) (k : ℕ) (claim : Claim) : State :=
  let s := s.command k { claim with busMasterEnabled := false }
    (claim.currentCommand &&& ~~~commandBusMaster)
  { s with busMasters := s.busMasters - 1 }

def pciClaimDisableBusMaster (k : ℕ) (s : State) : Except Status Unit × State :=
  withActiveClaim s k fun claim _ =>
    if !claim.busMasterEnabled then (.error .busMasterDisabled, s)
    else (.ok (), s.disableBusMaster k claim)

end Command

section Release

def releaseMappings (k : ℕ) : ℕ → State → State
  | 0, s => s
  | n + 1, s =>
    match s.claims[k]? with
    | none => s
    | some claim =>
      match claim.mappings.getLast? with
      | none => s
      | some region => releaseMappings k n (s.dropMapping k claim region)

/-- The end of `pci_release_device`: the command the platform had set comes back. -/
def State.retire (s : State) (k : ℕ) (claim : Claim) (slot : Fin claimCapacity) : State :=
  let s := s.command k
    { claim with
      memoryDecodeEnabled := !isClear claim.originalCommand commandMemorySpace
      ioDecodeEnabled := !isClear claim.originalCommand commandIoSpace
      active := false }
    claim.originalCommand
  { s with
    records := Function.update s.records slot none
    activeClaims := s.activeClaims - 1 }

def pciReleaseDevice (k : ℕ) (s : State) : Except Status Unit × State :=
  withActiveClaim s k fun claim slot =>
    let s := if claim.busMasterEnabled then s.disableBusMaster k claim else s
    let s := releaseMappings k claim.mappings.length s
    match s.claims[k]? with
    | none => (.error .nullArgument, s)
    | some claim => (.ok (), s.retire k claim slot)

end Release

section Verify

def pciResourceVerify (s : State) : Except Status Unit :=
  let claims := (List.finRange claimCapacity).countP fun slot => (s.records slot).isSome
  let pages := Nat.count (fun page => s.arena page) arenaPageCount
  if claims ≠ s.activeClaims ∨ pages ≠ s.mappedPages ∨
      s.activeMappings > s.activeClaims * mappingCapacity ∨ s.busMasters > s.activeClaims then
    .error .claimInconsistent
  else .ok ()

end Verify

section Calls

inductive Call where
  | claimDevice (function : PciFunction)
  | mapBar (k barIndex : ℕ) (ramOverlap : Bool) (paging : Paging)
  | unmapLastBar (k barIndex : ℕ)
  | enableIo (k : ℕ)
  | updateCommand (k : ℕ) (mask value : UInt16)
  | enableBusMaster (k : ℕ) (owned : List Bool)
  | disableBusMaster (k : ℕ)
  | release (k : ℕ)

def call (functions : List PciFunction) (s : State) : Call → Except Status Unit × State
  | .claimDevice function => pciClaimDevice functions function s
  | .mapBar k barIndex ramOverlap paging => pciClaimMapBar k barIndex ramOverlap paging s
  | .unmapLastBar k barIndex => pciClaimUnmapLastBar k barIndex s
  | .enableIo k => pciClaimEnableIo k s
  | .updateCommand k mask value => pciClaimUpdateCommand k mask value s
  | .enableBusMaster k owned => pciClaimEnableBusMaster k owned s
  | .disableBusMaster k => pciClaimDisableBusMaster k s
  | .release k => pciReleaseDevice k s

def run (functions : List PciFunction) (s : State) (calls : List Call) : State :=
  calls.foldl (fun s c => (call functions s c).2) s

end Calls

end OpenRFS.PciResource
