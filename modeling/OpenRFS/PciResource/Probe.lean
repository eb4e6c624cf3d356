import OpenRFS.Codec.LittleEndian

/-!
# Base address registers of a PCI function

The platform assigns memory and port ranges to a PCI function in its base address
registers. `pci_resource.c` finds out how large a range is by writing ones to the
register and reading back the bits that the function implements. Decoding is switched
off meanwhile, and every register gets its value back.

Accesses to the configuration space succeed. The command register stores what is
written to it, and a base address register stores those bits that it implements.
-/

namespace OpenRFS.PciResource

section Configuration

structure Address where
  segment : UInt16
  bus : UInt8
  device : UInt8
  function : UInt8
  deriving DecidableEq, Repr

structure BarRegister where
  value : UInt32
  writable : UInt32
  deriving DecidableEq, Repr

def BarRegister.write (r : BarRegister) (value : UInt32) : BarRegister :=
  { r with value := (r.value &&& ~~~r.writable) ||| (value &&& r.writable) }

structure Device where
  command : UInt16
  bars : ℕ → BarRegister

def Device.writeCommand (d : Device) (command : UInt16) : Device := { d with command := command }

def Device.readBar (d : Device) (index : ℕ) : UInt32 := (d.bars index).value

def Device.writeBar (d : Device) (index : ℕ) (value : UInt32) : Device :=
  { d with bars := Function.update d.bars index ((d.bars index).write value) }

theorem Device.writeBar_self (d : Device) (index : ℕ) (value : UInt32) :
    (d.writeBar index value).bars index = (d.bars index).write value := Function.update_self ..

theorem Device.writeBar_of_ne {index i : ℕ} (h : i ≠ index) (d : Device) (value : UInt32) :
    (d.writeBar index value).bars i = d.bars i := Function.update_of_ne h ..

def commandIoSpace : UInt16 := 1
def commandMemorySpace : UInt16 := 2
def commandBusMaster : UInt16 := 4

def isClear (command bits : UInt16) : Bool := command &&& bits = 0

end Configuration

section Bars

/-- `enum pci_resource_status` without the value of success, as far as it is returned
here. -/
inductive Status where
  | nullArgument | functionNotEnumerated | unsupportedHeader | alreadyClaimed
  | claimTableFull | decodeEnabled | restoreFailure | malformed64BitPair | reservedMemoryType
  | zeroBarSize | nonPowerOfTwoBar | unassignedBar | misalignedBar | barRangeOverflow
  | overlappingBar | badBarIndex | ioBarNotMappable | barAlreadyMapped | mappingOrder
  | mappingCapacity | mmioRangeOverflow | mmioRangeOverlap | mmioRamOverlap | mmioArenaExhausted
  | pagingFailure | dmaNotPrepared | busMasterAlreadyEnabled | busMasterDisabled
  | claimInconsistent | noIoBar
  deriving DecidableEq, Repr

inductive BarKind where
  | unimplemented | io | memory32 | memory64
  deriving DecidableEq, Repr

structure Bar where
  device : Address
  index : ℕ
  kind : BarKind
  attributeBits : UInt8
  pairIndex : Option ℕ
  base : ℕ
  size : ℕ
  prefetchable : Bool
  implemented : Bool
  deriving DecidableEq, Repr

def wordMax : ℕ := 2 ^ 64 - 1

def powerOfTwo (value : ℕ) : Bool := value ≠ 0 ∧ value &&& (value - 1) = 0

def validateBar (bar : Bar) : Except Status Unit :=
  if !bar.implemented then .ok ()
  else if bar.size = 0 then .error .zeroBarSize
  else if !powerOfTwo bar.size then .error .nonPowerOfTwoBar
  else if bar.base = 0 then .error .unassignedBar
  else if bar.size - 1 > wordMax - bar.base then .error .barRangeOverflow
  else if bar.base &&& (bar.size - 1) ≠ 0 then .error .misalignedBar
  else if (bar.base + bar.size - 1) % 2 ^ 64 < bar.base then .error .barRangeOverflow
  else .ok ()

def unimplementedBar (device : Address) (index : ℕ) (pairIndex : Option ℕ) : Bar where
  device := device
  index := index
  kind := .unimplemented
  attributeBits := 0
  pairIndex := pairIndex
  base := 0
  size := 0
  prefetchable := false
  implemented := false

/-- A port range. The upper half of its mask may be hardwired to zero. -/
def ioBar (device : Address) (index : ℕ) (low maskLow : UInt32) : Bar where
  device := device
  index := index
  kind := .io
  attributeBits := (low &&& ~~~0xfffffffc).toUInt8
  pairIndex := none
  base := (low &&& 0xfffffffc).toNat
  size :=
    let decoded := if maskLow &&& 0xffff0000 = 0 then maskLow ||| 0xffff0000 else maskLow
    (~~~(decoded &&& 0xfffffffc) + 1).toNat
  prefetchable := false
  implemented := true

def memory32Bar (device : Address) (index : ℕ) (low maskLow : UInt32) : Bar where
  device := device
  index := index
  kind := .memory32
  attributeBits := (low &&& ~~~0xfffffff0).toUInt8
  pairIndex := none
  base := (low &&& 0xfffffff0).toNat
  size := (~~~(maskLow &&& 0xfffffff0) + 1).toNat
  prefetchable := low &&& 8 ≠ 0
  implemented := true

def memory64Bar (device : Address) (index : ℕ) (low high maskLow maskHigh : UInt32) : Bar where
  device := device
  index := index
  kind := .memory64
  attributeBits := (low &&& ~~~0xfffffff0).toUInt8
  pairIndex := some (index + 1)
  base := ((high.toUInt64 <<< 32) ||| (low &&& 0xfffffff0).toUInt64).toNat
  size := (~~~((maskHigh.toUInt64 <<< 32) ||| (maskLow &&& 0xfffffff0).toUInt64) + 1).toNat
  prefetchable := low &&& 8 ≠ 0
  implemented := true

end Bars

section Probe

variable (address : Address) (barCount : ℕ) (original : ℕ → UInt32)

def prependBars (bars : List Bar) (rest : Except Status (List Bar) × Device) :
    Except Status (List Bar) × Device :=
  (rest.1.map (bars ++ ·), rest.2)

def keepBars (bar : Bar) (upper : List Bar) (d : Device)
    (rest : Except Status (List Bar) × Device) : Except Status (List Bar) × Device :=
  match validateBar bar with
  | .error status => (.error status, d)
  | .ok () => prependBars (bar :: upper) rest

/-- The loop of `probe_bars` from a register on; it takes one register or a pair at a
time. -/
def probeFrom : ℕ → ℕ → Device → Except Status (List Bar) × Device
  | 0, _, d => (.ok [], d)
  | fuel + 1, index, d =>
    if barCount ≤ index then (.ok [], d)
    else
      let low := original index
      let d := d.writeBar index 0xffffffff
      let maskLow := d.readBar index
      if maskLow = 0 then
        prependBars [unimplementedBar address index none] (probeFrom fuel (index + 1) d)
      else if low &&& 1 ≠ 0 then
        keepBars (ioBar address index low maskLow) [] d (probeFrom fuel (index + 1) d)
      else if low &&& 6 = 0 then
        keepBars (memory32Bar address index low maskLow) [] d (probeFrom fuel (index + 1) d)
      else if low &&& 6 ≠ 4 then (.error .reservedMemoryType, d)
      -- `validate_64_bit_pair`
      else if barCount ≤ index + 1 then (.error .malformed64BitPair, d)
      else
        let d := d.writeBar (index + 1) 0xffffffff
        let bar := memory64Bar address index low (original (index + 1)) maskLow
          (d.readBar (index + 1))
        keepBars bar [unimplementedBar address (index + 1) (some index)] d
          (probeFrom fuel (index + 2) d)

def restoreProbeState (command : UInt16) (d : Device) : Except Status Unit × Device :=
  let d := (List.range barCount).foldl (fun d index => d.writeBar index (original index)) d
  let d := d.writeCommand command
  if (List.range barCount).any fun index => d.readBar index ≠ original index then
    (.error .restoreFailure, d)
  else if d.command ≠ command then (.error .restoreFailure, d)
  else (.ok (), d)

/-- `PCI_HEADER_TYPE_ENDPOINT` and `PCI_HEADER_TYPE_BRIDGE` with the number of their
base address registers. -/
def barCountOf (headerType : UInt8) : Option ℕ :=
  if headerType = 0 then some 6 else if headerType = 1 then some 2 else none

structure Probed where
  bars : List Bar
  originalCommand : UInt16
  currentCommand : UInt16

def sizeBars (d : Device) : Except Status (List Bar) × Device :=
  let disabled := d.command &&& ~~~(commandIoSpace ||| commandMemorySpace ||| commandBusMaster)
  let d := d.writeCommand disabled
  if !isClear d.command (commandIoSpace ||| commandMemorySpace) then (.error .decodeEnabled, d)
  else probeFrom address barCount original barCount 0 d

def probeBars (headerType : UInt8) (d : Device) : Except Status Probed × Device :=
  match barCountOf headerType with
  | none => (.error .unsupportedHeader, d)
  | some barCount =>
    let command := d.command
    let original := d.readBar
    let sized := sizeBars address barCount original d
    let restored := restoreProbeState barCount original command sized.2
    let current := command &&& ~~~commandBusMaster
    (do
      restored.1
      let bars ← sized.1
      return ⟨bars, command, current⟩,
     if restored.1.isOk && sized.1.isOk && decide (current ≠ command) then
       restored.2.writeCommand current
     else restored.2)

end Probe

section Restored

variable {address : Address} {barCount fuel index : ℕ} {original : ℕ → UInt32} {d d' : Device}

theorem and_not_or_and (a w : UInt32) : (a &&& ~~~w) ||| (a &&& w) = a := by
  apply UInt32.toBitVec_inj.mp
  ext i hi
  cases hw : w.toBitVec[i] <;> simp [hw]

theorem write_and_not (a v w : UInt32) : ((a &&& ~~~w) ||| (v &&& w)) &&& ~~~w = a &&& ~~~w := by
  apply UInt32.toBitVec_inj.mp
  ext i hi
  cases hw : w.toBitVec[i] <;> simp [hw]

/-- Only bits that can be written have changed, and only in the first registers. -/
structure Sized (barCount : ℕ) (d d' : Device) : Prop where
  writable : ∀ i, (d'.bars i).writable = (d.bars i).writable
  fixed : ∀ i, (d'.bars i).value &&& ~~~(d.bars i).writable =
    (d.bars i).value &&& ~~~(d.bars i).writable
  beyond : ∀ i, barCount ≤ i → d'.bars i = d.bars i

theorem Sized.refl (barCount : ℕ) (d : Device) : Sized barCount d d :=
  ⟨fun _ => rfl, fun _ => rfl, fun _ _ => rfl⟩

variable (h : Sized barCount d d')
include h

theorem Sized.writeCommand (command : UInt16) :
    Sized barCount d (d'.writeCommand command) := ⟨h.writable, h.fixed, h.beyond⟩

open Device

theorem Sized.writeBar (hindex : index < barCount) (value : UInt32) :
    Sized barCount d (d'.writeBar index value) := by
  refine ⟨fun i => ?_, fun i => ?_, fun i hi => ?_⟩
  all_goals rcases eq_or_ne i index with rfl | hne
  · rw [writeBar_self]
    exact h.writable i
  · rw [writeBar_of_ne hne]
    exact h.writable i
  · rw [writeBar_self, BarRegister.write, h.writable i, write_and_not]
    exact h.fixed i
  · rw [writeBar_of_ne hne]
    exact h.fixed i
  · omega
  · rw [writeBar_of_ne hne]
    exact h.beyond i hi

theorem Sized.keepBars {rest : Except Status (List Bar) × Device}
    (hrest : Sized barCount d rest.2) (bar : Bar) (upper : List Bar) :
    Sized barCount d (keepBars bar upper d' rest).2 := by
  unfold PciResource.keepBars
  split
  · exact h
  · exact hrest

theorem Sized.probeFrom :
    Sized barCount d (probeFrom address barCount original fuel index d').2 := by
  induction fuel generalizing index d' with
  | zero => exact h
  | succ fuel ih =>
    unfold PciResource.probeFrom
    dsimp only
    split_ifs with hend hmask hio h32 h64 hpair
    · exact h
    · exact ih (h.writeBar (by omega) _)
    · exact (h.writeBar (by omega) _).keepBars (ih (h.writeBar (by omega) _)) _ _
    · exact (h.writeBar (by omega) _).keepBars (ih (h.writeBar (by omega) _)) _ _
    · exact h.writeBar (by omega) _
    · exact h.writeBar (by omega) _
    · have hlow : index < barCount := by omega
      have hhigh : index + 1 < barCount := by omega
      have hboth := (h.writeBar hlow 0xffffffff).writeBar hhigh 0xffffffff
      exact hboth.keepBars (ih hboth) _ _

theorem Sized.write_back (i : ℕ) : (d'.bars i).write (d.readBar i) = d.bars i := by
  simp only [BarRegister.write, h.writable i, h.fixed i, readBar, and_not_or_and]

theorem Sized.foldl_writeBar (n i : ℕ) :
    ((List.range n).foldl (fun d' i => d'.writeBar i (d.readBar i)) d').bars i =
      if i < n then d.bars i else d'.bars i := by
  induction n with
  | zero => rfl
  | succ n ih =>
    rw [List.range_succ, List.foldl_append, List.foldl_cons, List.foldl_nil]
    rcases eq_or_ne i n with rfl | hne
    · rw [writeBar_self, ih, if_neg (lt_irrefl i), if_pos (Nat.lt_succ_self i), h.write_back]
    · rw [writeBar_of_ne hne, ih]
      have hlt : i < n + 1 ↔ i < n := by omega
      simp only [hlt]

/-- `restore_probe_state` undoes the sizing. -/
theorem Sized.restoreProbeState :
    restoreProbeState barCount d.readBar d.command d' = (.ok (), d) := by
  have hdevice : ((List.range barCount).foldl (fun d' i => d'.writeBar i (d.readBar i)) d').writeCommand
      d.command = d := by
    have hbars : ((List.range barCount).foldl (fun d' i => d'.writeBar i (d.readBar i)) d').bars =
        d.bars := by
      funext i
      rw [h.foldl_writeBar]
      split
      · rfl
      · exact h.beyond i (by omega)
    simp only [Device.writeCommand, hbars]
  unfold PciResource.restoreProbeState
  dsimp only
  rw [hdevice, if_neg (by simp), if_neg (by simp)]

omit h

theorem sized_sizeBars : Sized barCount d (sizeBars address barCount original d).2 := by
  unfold sizeBars
  dsimp only
  split
  · exact (Sized.refl barCount d).writeCommand _
  · exact ((Sized.refl barCount d).writeCommand _).probeFrom

/-- What `probe_bars` leaves of the registers. -/
theorem probeBars_cases (address : Address) (headerType : UInt8) (d : Device) :
    (∃ status, probeBars address headerType d = (.error status, d)) ∨
      ∃ bars, probeBars address headerType d =
        (.ok ⟨bars, d.command, d.command &&& ~~~commandBusMaster⟩,
          d.writeCommand (d.command &&& ~~~commandBusMaster)) := by
  unfold probeBars
  split
  · exact .inl ⟨_, rfl⟩
  · rename_i barCount hcount
    have hsized : Sized barCount d (sizeBars address barCount d.readBar d).2 := sized_sizeBars
    simp only [hsized.restoreProbeState]
    rcases (sizeBars address barCount d.readBar d).1 with status | bars
    · exact .inl ⟨status, rfl⟩
    · refine .inr ⟨bars, Prod.ext rfl ?_⟩
      split_ifs with hchanged
      · rfl
      · have hsame : d.command &&& ~~~commandBusMaster = d.command := by
          simpa [Except.isOk, Except.toBool] using hchanged
        rw [hsame]
        rfl

end Restored

end OpenRFS.PciResource
