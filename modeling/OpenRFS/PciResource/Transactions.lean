import OpenRFS.PciResource.Moves
import OpenRFS.Codec.Checked
import OpenRFS.Ledger.Books

/-!
# Transactions on PCI resources

The table of claims, the arena and the counters agree after every sequence of calls. A
claim that is refused leaves the registers of every function, and a claim that is released
brings back the command register.
-/

namespace OpenRFS.PciResource

open List Function Option Ledger

section Held

variable {β γ : Type} {claims : List Claim} {k : ℕ} {c c' : Claim}

def part (f : Claim → List β) (c : Claim) : List β := if c.active then f c else []

def held (f : Claim → List β) (claims : List Claim) : List β := claims.flatMap (part f)

theorem held_set (f : Claim → List β) (h : claims[k]? = some c) (c' : Claim) :
    (held f (claims.set k c') ++ part f c).Perm (held f claims ++ part f c') := by
  induction claims generalizing k with
  | nil => exact absurd h nofun
  | cons d claims ih =>
    cases k with
    | zero =>
      obtain rfl := some.inj h
      simp only [held, set_cons_zero, flatMap_cons, append_assoc]
      calc part f c' ++ (claims.flatMap (part f) ++ part f d)
          |>.Perm (claims.flatMap (part f) ++ part f d ++ part f c') := perm_append_comm
        _ |>.Perm (part f d ++ claims.flatMap (part f) ++ part f c') :=
          perm_append_comm.append_right _
        _ |>.Perm (part f d ++ (claims.flatMap (part f) ++ part f c')) := by
          rw [append_assoc]
    | succ k =>
      simp only [held, set_cons_succ, flatMap_cons, append_assoc]
      exact (ih h).append_left _

theorem length_held_set (f : Claim → List β) (h : claims[k]? = some c) (c' : Claim) :
    (held f (claims.set k c')).length + (part f c).length =
      (held f claims).length + (part f c').length := by
  simpa using (held_set f h c').length_eq

theorem held_append (f : Claim → List β) (c : Claim) :
    held f (claims ++ [c]) = held f claims ++ part f c := by
  simp [held]

/-- If each claim holds at most `n` of one kind for each of another, so do all together. -/
theorem length_held_le {f : Claim → List β} {g : Claim → List γ} {n : ℕ}
    (h : ∀ c ∈ claims, (f c).length ≤ (g c).length * n) :
    (held f claims).length ≤ (held g claims).length * n := by
  induction claims with
  | nil => exact Nat.zero_le _
  | cons c claims ih =>
    have hrest := ih fun c hc => h c (mem_cons_of_mem _ hc)
    have hfirst : (part f c).length ≤ (part g c).length * n := by
      unfold part
      split_ifs
      · exact h c mem_cons_self
      · exact Nat.zero_le _
    simp only [held, flatMap_cons, length_append, add_mul] at hrest ⊢
    omega

end Held

section Laid

variable {arena : ℕ → Bool} {regions : List Region} {region : Region} {mappedPages : ℕ}

/-- The arena consists of the disjoint runs of the regions. -/
def Laid (arena : ℕ → Bool) (regions : List Region) (mappedPages : ℕ) : Prop :=
  Region.Marks Region.firstPage Region.pageCount (fun page => arena page = true) arenaPageCount
    regions mappedPages

theorem Laid.add (h : Laid arena regions mappedPages)
    (hinside : region.firstPage + region.pageCount ≤ arenaPageCount)
    (hfree : ∀ page, region.Covers page → arena page = false) :
    Laid (arenaSet arena region.firstPage region.pageCount true) (region :: regions)
      (mappedPages + region.pageCount) := by
  refine Region.Marks.add h hinside (fun page hpage => by simp [hfree page hpage]) fun page => ?_
  unfold arenaSet OpenRFS.Region.Covers
  split_ifs with hpage <;> simp [hpage]

theorem Laid.drop (h : Laid arena (region :: regions) mappedPages) :
    Laid (arenaSet arena region.firstPage region.pageCount false) regions
      (mappedPages - region.pageCount) := by
  refine Region.Marks.drop h fun page => ?_
  unfold arenaSet OpenRFS.Region.Covers
  split_ifs with hpage <;> simp [hpage]

end Laid

section Sound

variable {s : State} {k : ℕ} {c c' : Claim}

def mark (_ : Claim) : List Unit := [()]

def masterMark (c : Claim) : List Unit := if c.busMasterEnabled then [()] else []

/-- The counters agree with the table of records and with the claims. -/
structure Counted (s : State) : Prop where
  records : Ledger.tally Option.isSome s.records = s.activeClaims
  claims : (held mark s.claims).length = s.activeClaims
  masters : (held masterMark s.claims).length = s.busMasters
  mappings : (held Claim.mappings s.claims).length = s.activeMappings
  capacity : ∀ c ∈ s.claims, c.mappings.length ≤ mappingCapacity

/-- Active claims are recorded, each for its own function, whose command register they
know. -/
structure Owned (config : Address → Device) (records : Fin claimCapacity → Option Record)
    (claims : List Claim) : Prop where
  recorded : ∀ c ∈ claims, c.active → ∃ slot record, records slot = some record ∧
    record.identifier = c.identifier ∧ record.device = c.device
  unique : ∀ (i j : ℕ) (c c' : Claim), claims[i]? = some c → claims[j]? = some c' → c.active →
    c'.active → c.device = c'.device → i = j
  command : ∀ c ∈ claims, c.active → (config c.device).command = c.currentCommand ∧
    isClear c.currentCommand commandBusMaster = !c.busMasterEnabled

structure Sound (s : State) : Prop where
  counted : Counted s
  laid : Laid s.arena (held Claim.mappings s.claims) s.mappedPages
  owned : Owned s.config s.records s.claims

theorem sound_initialized (config : Address → Device) : Sound (initialized config) where
  counted := ⟨tally_eq_zero.mpr fun _ => rfl, rfl, rfl, rfl, nofun⟩
  laid := {
    count := Nat.count_of_forall_not fun _ _ => by simp [initialized]
    covered := fun page => by simp [initialized, held]
    disjoint := .nil
    inside := nofun }
  owned := ⟨nofun, nofun, nofun⟩

end Sound

section Owned

variable {config : Address → Device} {records records' : Fin claimCapacity → Option Record}
  {claims claims' : List Claim} {k : ℕ} {c c' : Claim} {address : Address} {device : Device}

theorem claims_set_cases {i : ℕ} {d : Claim} (h : (claims.set k c')[i]? = some d) :
    i = k ∧ d = c' ∨ i ≠ k ∧ claims[i]? = some d := by
  rcases eq_or_ne i k with rfl | hne
  · rw [getElem?_set_self'] at h
    obtain ⟨_, _, heq⟩ := map_eq_some_iff.mp h
    exact .inl ⟨rfl, heq.symm⟩
  · rw [List.getElem?_set_ne (Ne.symm hne)] at h
    exact .inr ⟨hne, h⟩

variable (h : Owned config records claims)
include h

/-- The claim at one place changes, and with it one function. -/
theorem Owned.change (k : ℕ)
    (hrecords : ∀ slot record, records slot = some record → record.device ≠ address →
      records' slot = some record)
    (hclaims : ∀ i d, claims'[i]? = some d → d.active →
      claims[i]? = some d ∧ d.device ≠ address ∨ i = k ∧ d.device = address ∧
        (∃ slot record, records' slot = some record ∧ record.identifier = d.identifier ∧
          record.device = d.device) ∧ device.command = d.currentCommand ∧
        isClear d.currentCommand commandBusMaster = !d.busMasterEnabled) :
    Owned (update config address device) records' claims' where
  recorded := by
    intro d hd hactive
    obtain ⟨i, hi⟩ := mem_iff_getElem?.mp hd
    rcases hclaims i d hi hactive with ⟨hold, hother⟩ | ⟨-, -, hrecorded, -⟩
    · obtain ⟨slot, record, hslot, hid, hdevice⟩ := h.recorded d (mem_of_getElem? hold) hactive
      exact ⟨slot, record, hrecords slot record hslot (hdevice ▸ hother), hid, hdevice⟩
    · exact hrecorded
  unique := by
    intro i j d d' hi hj hd hd' hdevice
    rcases hclaims i d hi hd with ⟨hold, hother⟩ | ⟨hk, hat, -⟩ <;>
      rcases hclaims j d' hj hd' with ⟨hold', hother'⟩ | ⟨hk', hat', -⟩
    · exact h.unique i j d d' hold hold' hd hd' hdevice
    · exact absurd (hdevice.trans hat') hother
    · exact absurd (hdevice.symm.trans hat) hother'
    · exact hk.trans hk'.symm
  command := by
    intro d hd hactive
    obtain ⟨i, hi⟩ := mem_iff_getElem?.mp hd
    rcases hclaims i d hi hactive with ⟨hold, hother⟩ | ⟨-, hat, -, hcommand⟩
    · rw [update_of_ne hother]
      exact h.command d (mem_of_getElem? hold) hactive
    · rw [hat, update_self]
      exact hcommand

theorem Owned.set (hclaim : claims[k]? = some c) (hactive : c.active) (hsame : SameClaim c c')
    (hcommand : device.command = c'.currentCommand)
    (hmaster : isClear c'.currentCommand commandBusMaster = !c'.busMasterEnabled) :
    Owned (update config c.device device) records (claims.set k c') := by
  refine h.change k (fun slot record hslot _ => hslot) fun i d hi hd => ?_
  rcases claims_set_cases hi with ⟨rfl, rfl⟩ | ⟨hne, hold⟩
  · refine .inr ⟨rfl, hsame.device, ?_, hcommand, hmaster⟩
    rw [hsame.identifier, hsame.device]
    exact h.recorded c (mem_of_getElem? hclaim) hactive
  · exact .inl ⟨hold, fun heq => hne (h.unique i k d c hold hclaim hd hactive heq)⟩

theorem Owned.retire (hclaim : claims[k]? = some c) (hactive : c.active)
    (hc' : c'.active = false) {slot : Fin claimCapacity} {record : Record}
    (hslot : records slot = some record) (hdevice : record.device = c.device) :
    Owned (update config c.device device) (update records slot none)
      (claims.set k c') := by
  refine h.change k (fun slot' record' hslot' hother => ?_) fun i d hi hd => ?_
  · have hslots : slot' ≠ slot := by
      rintro rfl
      obtain rfl := some.inj (hslot.symm.trans hslot')
      exact hother hdevice
    rw [update_of_ne hslots, hslot']
  · rcases claims_set_cases hi with ⟨rfl, rfl⟩ | ⟨hne, hold⟩
    · rw [hc'] at hd
      exact absurd hd nofun
    · exact .inl ⟨hold, fun heq => hne (h.unique i k d c hold hclaim hd hactive heq)⟩

theorem Owned.enrol {slot : Fin claimCapacity} {record : Record} (hslot : records slot = none)
    (hfree : ∀ slot record, records slot = some record → record.device ≠ address)
    (hdevice : c.device = address)
    (hrecord : record.identifier = c.identifier ∧ record.device = address)
    (hcommand : device.command = c.currentCommand)
    (hmaster : isClear c.currentCommand commandBusMaster = !c.busMasterEnabled) :
    Owned (update config address device) (update records slot (some record))
      (claims ++ [c]) := by
  subst hdevice
  refine h.change claims.length (fun slot' record' hslot' _ => ?_) fun i d hi hd => ?_
  · have hslots : slot' ≠ slot := by
      rintro rfl
      rw [hslot] at hslot'
      exact absurd hslot' nofun
    rw [update_of_ne hslots, hslot']
  · rcases Codec.getElem?_concat_eq_some.mp hi with hold | ⟨rfl, rfl⟩
    · refine .inl ⟨hold, fun heq => ?_⟩
      obtain ⟨slot', record', hslot', -, hdevice⟩ := h.recorded d (mem_of_getElem? hold) hd
      exact hfree slot' record' hslot' (hdevice.trans heq)
    · exact .inr ⟨rfl, rfl, ⟨slot, record, update_self .., hrecord⟩, hcommand, hmaster⟩

end Owned

section Steps

variable {s : State} {k : ℕ} {c c' : Claim}

theorem part_of_active {β : Type} (f : Claim → List β) (h : c.active) : part f c = f c := if_pos h

theorem part_of_inactive {β : Type} (f : Claim → List β) (h : c.active = false) : part f c = [] :=
  if_neg (by rw [h]; exact nofun)

theorem perm_held_set {β : Type} {f : Claim → List β} {claims : List Claim}
    (h : claims[k]? = some c) (hpart : part f c' = part f c) :
    (held f (claims.set k c')).Perm (held f claims) := by
  have hperm := held_set f h c'
  rw [hpart] at hperm
  exact (perm_append_right_iff _).mp hperm

variable (hclaim : s.claims[k]? = some c)
include hclaim

theorem Counted.set (h : Counted s) {s' : State} (hs' : s'.claims = s.claims.set k c')
    (hrecords : tally isSome s'.records = s'.activeClaims)
    (hactive : s'.activeClaims + (part mark c).length = s.activeClaims + (part mark c').length)
    (hmasters : s'.busMasters + (part masterMark c).length =
      s.busMasters + (part masterMark c').length)
    (hmappings : s'.activeMappings + (part Claim.mappings c).length =
      s.activeMappings + (part Claim.mappings c').length)
    (hcapacity : c'.mappings.length ≤ mappingCapacity) : Counted s' where
  records := hrecords
  claims := by
    have hlength := length_held_set mark hclaim c'
    rw [h.claims] at hlength
    rw [hs']
    omega
  masters := by
    have hlength := length_held_set masterMark hclaim c'
    rw [h.masters] at hlength
    rw [hs']
    omega
  mappings := by
    have hlength := length_held_set Claim.mappings hclaim c'
    rw [h.mappings] at hlength
    rw [hs']
    omega
  capacity := by
    rw [hs']
    intro d hd
    rcases mem_or_eq_of_mem_set hd with hd | rfl
    · exact h.capacity d hd
    · exact hcapacity

variable (hactive : c.active)
include hactive

theorem Counted.set_active (h : Counted s) {s' : State}
    (hs' : s'.claims = s.claims.set k c') (hactive' : c'.active)
    (hrecords : s'.records = s.records) (hclaims : s'.activeClaims = s.activeClaims)
    (hmasters : s'.busMasters + (masterMark c).length = s.busMasters + (masterMark c').length)
    (hmappings : s'.activeMappings + c.mappings.length = s.activeMappings + c'.mappings.length)
    (hcapacity : c'.mappings.length ≤ mappingCapacity) : Counted s' := by
  refine h.set hclaim hs' ?_ ?_ ?_ ?_ hcapacity
  · rw [hrecords, hclaims, h.records]
  · rw [part_of_active _ hactive, part_of_active _ hactive', hclaims]
    rfl
  · rwa [part_of_active _ hactive, part_of_active _ hactive']
  · rwa [part_of_active _ hactive, part_of_active _ hactive']

theorem perm_mappings_set (hactive' : c'.active) {mappings : List Region}
    (hmappings : c'.mappings = mappings) :
    (held Claim.mappings (s.claims.set k c') ++ c.mappings).Perm
      (held Claim.mappings s.claims ++ mappings) := by
  have hset := held_set Claim.mappings hclaim c'
  rwa [part_of_active _ hactive, part_of_active _ hactive', hmappings] at hset

theorem Sound.set_command (h : Sound s) (c' : Claim) (hsame : SameClaim c c')
    (hmappings : c'.mappings = c.mappings) {value : UInt16} {masters : ℕ}
    (hmaster : isClear value commandBusMaster = !c'.busMasterEnabled)
    (hcount : masters + (masterMark c).length = s.busMasters + (masterMark c').length) :
    Sound { s.command k c' value with busMasters := masters } := by
  have hactive' : c'.active := hsame.active.trans hactive
  refine ⟨?_, ?_, ?_⟩
  · refine h.counted.set_active hclaim hactive rfl hactive' rfl rfl hcount ?_ ?_
    · exact congrArg (s.activeMappings + ·.length) hmappings.symm
    · exact (congrArg List.length hmappings).trans_le
        (h.counted.capacity c (mem_of_getElem? hclaim))
  · refine h.laid.perm ((perm_append_right_iff c.mappings).mp ?_)
    exact perm_mappings_set hclaim hactive
      (show ({ c' with currentCommand := value } : Claim).active from hactive') hmappings
  · have howned := h.owned.set hclaim hactive
      (show SameClaim c { c' with currentCommand := value } from
        { hsame with })
      (show ((s.config c'.device).writeCommand value).command = value from rfl) hmaster
    rw [← hsame.device] at howned
    exact howned

theorem Owned.set_mappings (h : Owned s.config s.records s.claims) (mappings : List Region) :
    Owned s.config s.records (s.claims.set k { c with mappings := mappings }) := by
  have hcommand := h.command c (mem_of_getElem? hclaim) hactive
  have howned := h.set hclaim hactive
    (show SameClaim c { c with mappings := mappings } from ⟨rfl, rfl, rfl, rfl⟩)
    hcommand.1 hcommand.2
  rwa [update_eq_self] at howned

theorem Sound.add_mapping (h : Sound s)
    (hlength : c.mappings.length < mappingCapacity) {region : Region}
    (hinside : region.firstPage + region.pageCount ≤ arenaPageCount)
    (hfree : ∀ page, region.Covers page → s.arena page = false) :
    Sound (s.addMapping k c region) := by
  have hcount : (c.mappings ++ [region]).length = c.mappings.length + 1 := by
    rw [length_append, length_singleton]
  refine ⟨?_, (h.laid.add hinside hfree).perm ?_, h.owned.set_mappings hclaim hactive _⟩
  · refine h.counted.set_active hclaim hactive rfl hactive rfl rfl rfl ?_ ?_
    · simp only [State.addMapping, hcount]
      omega
    · exact hcount.trans_le hlength
  · have hset := perm_mappings_set hclaim hactive
      (show ({ c with mappings := c.mappings ++ [region] } : Claim).active from hactive) rfl
    refine (perm_append_right_iff c.mappings).mp (hset.trans ?_)
    rw [← append_assoc]
    exact perm_append_singleton region _

theorem Sound.drop_mapping (h : Sound s) {region : Region}
    (hlast : c.mappings.getLast? = some region) : Sound (s.dropMapping k c region) := by
  obtain ⟨rest, hrest⟩ := getLast?_eq_some_iff.mp hlast
  have hdrop : c.mappings.dropLast = rest := by
    rw [hrest]
    exact dropLast_concat
  have hcount : c.mappings.length = rest.length + 1 := by
    rw [hrest, length_append, length_singleton]
  have hperm : (region :: held Claim.mappings (s.dropMapping k c region).claims).Perm
      (held Claim.mappings s.claims) := by
    have hset := perm_mappings_set hclaim hactive
      (show ({ c with mappings := c.mappings.dropLast } : Claim).active from hactive) hdrop
    refine (perm_append_right_iff rest).mp (.trans ?_ hset)
    rw [hrest, ← append_assoc, ← hrest]
    exact (perm_append_singleton region _).symm
  have hpositive : 0 < s.activeMappings := by
    rw [← h.counted.mappings, ← hperm.length_eq]
    exact Nat.succ_pos _
  refine ⟨?_, Laid.drop (h.laid.perm hperm), h.owned.set_mappings hclaim hactive _⟩
  refine h.counted.set_active hclaim hactive rfl hactive rfl rfl rfl ?_ ?_
  · simp only [State.dropMapping, hdrop, hcount]
    omega
  · have hcapacity := h.counted.capacity c (mem_of_getElem? hclaim)
    simp only [hdrop]
    omega

omit hclaim hactive

theorem isClear_not_mask (command mask : UInt16) : isClear (command &&& ~~~mask) mask := by
  refine decide_eq_true (UInt16.toBitVec_inj.mp ?_)
  ext i hi
  cases hbit : mask.toBitVec[i] <;> simp [hbit]

theorem isClear_or_mask (command : UInt16) :
    isClear (command ||| commandBusMaster) commandBusMaster = false := by
  refine decide_eq_false fun hzero => ?_
  have hbit : (command ||| commandBusMaster).toBitVec[2] && commandBusMaster.toBitVec[2] := by
    simp [commandBusMaster]
  rw [← BitVec.getElem_and, ← UInt16.toBitVec_and, hzero] at hbit
  exact absurd hbit (by decide)

theorem Sound.enrol (h : Sound s) {slot : Fin claimCapacity} {address : Address} {probed : Probed}
    (hslot : s.records slot = none)
    (hfree : ∀ slot record, s.records slot = some record → record.device ≠ address)
    (hcurrent : probed.currentCommand = (s.config address).command &&& ~~~commandBusMaster) :
    Sound ((s.writeCommand address probed.currentCommand).enrol slot address probed) := by
  refine ⟨⟨?_, ?_, ?_, ?_, ?_⟩, ?_, ?_⟩
  · have htally := tally_update isSome s.records slot
      (some ⟨address, s.nextIdentifier, probed.bars⟩)
    rw [hslot, h.counted.records] at htally
    exact htally
  · simp only [State.enrol, held_append, length_append]
    exact congrArg (· + 1) h.counted.claims
  · simp only [State.enrol, held_append, length_append]
    exact h.counted.masters
  · simp only [State.enrol, held_append, length_append]
    exact h.counted.mappings
  · exact forall_mem_append.mpr ⟨h.counted.capacity, forall_mem_singleton.mpr (Nat.zero_le _)⟩
  · simp only [State.enrol, held_append]
    exact h.laid.perm (by rw [show part Claim.mappings _ = [] from rfl, append_nil]; rfl)
  · have hclear : isClear probed.currentCommand commandBusMaster := by
      rw [hcurrent]
      exact isClear_not_mask _ _
    exact h.owned.enrol hslot hfree rfl ⟨rfl, rfl⟩ rfl hclear

theorem findClaimRecord_spec {slot : Fin claimCapacity} (h : findClaimRecord s c = some slot) :
    ∃ record, s.records slot = some record ∧ record.identifier = c.identifier ∧
      record.device = c.device := by
  have hany := find?_some h
  obtain ⟨record, hrecord, hsame⟩ := (Option.any_eq_true ..).mp hany
  exact ⟨record, hrecord, of_decide_eq_true hsame⟩

theorem Sound.retire (h : Sound s) (hclaim : s.claims[k]? = some c) (hactive : c.active)
    (hmappings : c.mappings = []) (hmaster : c.busMasterEnabled = false) {slot : Fin claimCapacity}
    (hslot : findClaimRecord s c = some slot) : Sound (s.retire k c slot) := by
  obtain ⟨record, hrecord, -, hdevice⟩ := findClaimRecord_spec hslot
  have htally : tally isSome (update s.records slot none) + 1 = s.activeClaims := by
    have hupdate := tally_update isSome s.records slot none
    rw [hrecord, h.counted.records] at hupdate
    exact hupdate
  refine ⟨h.counted.set hclaim rfl ?_ ?_ ?_ ?_ ?_, h.laid.perm (perm_held_set hclaim ?_),
    h.owned.retire hclaim hactive rfl hrecord hdevice⟩
  · exact Nat.eq_sub_of_add_eq htally
  · rw [part_of_active _ hactive, part_of_inactive _ rfl]
    exact Nat.sub_add_cancel (htally ▸ Nat.le_add_left _ _)
  · rw [part_of_active _ hactive, part_of_inactive _ rfl, masterMark, hmaster]
    rfl
  · rw [part_of_active _ hactive, part_of_inactive _ rfl, hmappings]
    rfl
  · exact h.counted.capacity c (mem_of_getElem? hclaim)
  · rw [part_of_active _ hactive, part_of_inactive _ rfl, hmappings]

theorem Sound.move {label : Option ℕ} {s' : State} (h : Sound s) (hmove : Move label s s') :
    Sound s' := by
  cases hmove with
  | command c' value hclaim hactive hsame hmappings hmaster hvalue =>
    have hcommand := (h.owned.command _ (mem_of_getElem? hclaim) hactive).2
    refine h.set_command hclaim hactive c' hsame hmappings ?_ ?_
    · rw [hvalue, hcommand, hmaster]
    · rw [masterMark, masterMark, hmaster]
      rfl
  | @enable _ k c hclaim hactive hoff =>
    refine h.set_command hclaim hactive { c with busMasterEnabled := true } ⟨rfl, rfl, rfl, rfl⟩ rfl
      ?_ ?_
    · exact isClear_or_mask _
    · rw [masterMark, masterMark, hoff]
      rfl
  | @disable _ k c hclaim hactive hon =>
    have hpositive : 0 < s.busMasters := by
      have hlength := length_held_set masterMark hclaim { c with busMasterEnabled := false }
      rw [h.counted.masters, part_of_active _ hactive, part_of_active _ (by exact hactive),
        show masterMark c = [()] by rw [masterMark, hon]; rfl] at hlength
      exact Nat.lt_of_lt_of_eq (Nat.succ_pos _) hlength
    refine h.set_command hclaim hactive { c with busMasterEnabled := false } ⟨rfl, rfl, rfl, rfl⟩ rfl
      ?_ ?_
    · exact isClear_not_mask _ _
    · rw [masterMark, masterMark, hon]
      exact Nat.sub_add_cancel hpositive
  | addMapping region hclaim hactive hlength hinside hfree =>
    exact h.add_mapping hclaim hactive hlength hinside hfree
  | dropMapping region hclaim hactive hlast => exact h.drop_mapping hclaim hactive hlast
  | enrol slot address probed hslot hfree horiginal hcurrent =>
    exact h.enrol hslot hfree hcurrent
  | retire slot hclaim hactive hmappings hmaster hslot =>
    exact h.retire hclaim hactive hmappings hmaster hslot

end Steps

section Runs

variable {allowed : ℕ → Prop} {functions : List PciFunction} {s s' : State} {k : ℕ}

theorem Sound.chain (h : Sound s) (hchain : Chain allowed s s') : Sound s' := by
  induction hchain with
  | refl => exact h
  | tail _ hmove ih =>
    obtain ⟨label, hmove, -⟩ := hmove
    exact ih.move hmove

theorem Sound.run (h : Sound s) (calls : List Call) : Sound (run functions s calls) := by
  induction calls generalizing s with
  | nil => exact h
  | cons c calls ih => exact ih (h.chain (call_chain functions s c))

/-- The claim at a place is active, on a function with a command to bring back. -/
def Holds (k : ℕ) (address : Address) (original : UInt16) (s : State) : Prop :=
  ∃ c, s.claims[k]? = some c ∧ c.active ∧ c.device = address ∧ c.originalCommand = original

variable {address : Address} {original : UInt16}

variable (h : Holds k address original s)
include h

/-- A claim stays while another one changes, and while it keeps what it was admitted
with. -/
theorem Holds.set {j : ℕ} {c c' : Claim}
    (hclaim : s.claims[j]? = some c) (hclaims : s'.claims = s.claims.set j c')
    (hsame : j = k → SameClaim c c') : Holds k address original s' := by
  obtain ⟨d, hd, hactive, hdevice, horiginal⟩ := h
  rcases eq_or_ne j k with rfl | hne
  · obtain rfl := some.inj (hclaim.symm.trans hd)
    have hc' := hsame rfl
    refine ⟨c', ?_, hc'.active.trans hactive, hc'.device.trans hdevice,
      hc'.originalCommand.trans horiginal⟩
    rw [hclaims]
    exact List.getElem?_set_self (List.getElem?_eq_some_iff.mp hd).1
  · refine ⟨d, ?_, hactive, hdevice, horiginal⟩
    rw [hclaims, List.getElem?_set_ne hne]
    exact hd

theorem Holds.move {label : Option ℕ} (hmove : Move label s s')
    (hlabel : label ≠ some k) : Holds k address original s' := by
  cases hmove with
  | command c' value hclaim _ hsame =>
    exact h.set hclaim rfl fun _ => { hsame with }
  | enable hclaim | disable hclaim | addMapping region hclaim | dropMapping region hclaim =>
    exact h.set hclaim rfl fun _ => ⟨rfl, rfl, rfl, rfl⟩
  | enrol slot _ probed =>
    obtain ⟨c, hc, hrest⟩ := h
    refine ⟨c, ?_, hrest⟩
    exact (List.getElem?_append_left (List.getElem?_eq_some_iff.mp hc).1).trans hc
  | retire slot hclaim => exact h.set hclaim rfl fun heq => absurd (congrArg some heq) hlabel

theorem Holds.chain (hchain : Chain allowed s s')
    (hallowed : ¬ allowed k) : Holds k address original s' := by
  induction hchain with
  | refl => exact h
  | tail _ hmove ih =>
    obtain ⟨label, hmove, hlabel⟩ := hmove
    exact ih.move hmove fun heq => hallowed (hlabel k heq)

theorem Holds.run {calls : List Call}
    (hcalls : Call.release k ∉ calls) : Holds k address original (run functions s calls) := by
  induction calls generalizing s with
  | nil => exact h
  | cons c calls ih =>
    obtain ⟨hc, hcalls⟩ := not_or.mp (mt mem_cons.mpr hcalls)
    exact ih (h.chain (call_chain functions s c) (Ne.symm hc)) hcalls

omit h

theorem Sound.findClaimRecord (h : Sound s) {c : Claim} (hclaim : s.claims[k]? = some c)
    (hactive : c.active) : ∃ slot, findClaimRecord s c = some slot := by
  obtain ⟨slot, record, hslot, hid, hdevice⟩ := h.owned.recorded c (mem_of_getElem? hclaim) hactive
  refine isSome_iff_exists.mp (find?_isSome.mpr ⟨slot, mem_finRange slot, ?_⟩)
  rw [hslot]
  exact decide_eq_true ⟨hid, hdevice⟩

theorem Sound.verify (h : Sound s) : pciResourceVerify s = .ok () := by
  have hmappings : s.activeMappings ≤ s.activeClaims * mappingCapacity := by
    rw [← h.counted.mappings, ← h.counted.claims]
    refine length_held_le fun c hc => ?_
    exact (h.counted.capacity c hc).trans_eq (one_mul _).symm
  have hmasters : s.busMasters ≤ s.activeClaims := by
    rw [← h.counted.masters, ← h.counted.claims, ← mul_one (held mark s.claims).length]
    refine length_held_le fun c _ => ?_
    unfold masterMark
    split_ifs
    · exact le_rfl
    · exact Nat.zero_le _
  have hrecords : (List.finRange claimCapacity).countP (fun slot => (s.records slot).isSome) =
      s.activeClaims := by
    rw [← h.counted.records]
    exact (tally_eq_countP ..).symm
  unfold pciResourceVerify
  rw [if_neg]
  rintro (hclaims | hpages | hcount | hcount)
  · exact hclaims hrecords
  · exact hpages h.laid.count
  · exact not_lt.mpr hmappings hcount
  · exact not_lt.mpr hmasters hcount

theorem holds_of_claim {function : PciFunction}
    (h : pciClaimDevice functions function s = (.ok (), s')) :
    Holds s.claims.length function.address (s.config function.address).command s' := by
  rcases pciClaimDevice_cases functions function s with
    ⟨status, hcall⟩ | ⟨slot, probed, hcall, -, -, horiginal, -⟩
  · rw [hcall] at h
    exact absurd (congrArg Prod.fst h) nofun
  · obtain rfl : _ = s' := congrArg Prod.snd (hcall.symm.trans h)
    exact ⟨_, getElem?_concat_length .., rfl, rfl, horiginal⟩

/-- After any calls: a claim that is refused leaves every register; a claim that succeeds
brings the command register back when it is released, whatever is called in between; the
arena consists of the disjoint runs of the active mappings, the check of the books passes,
and bus mastering is on exactly where the claim says so. -/
theorem transactions (functions : List PciFunction) (config : Address → Device)
    (calls : List Call) :
    let s := run functions (initialized config) calls
    (∀ function status s', pciClaimDevice functions function s = (.error status, s') →
        s'.config = s.config) ∧
      (∀ function s', pciClaimDevice functions function s = (.ok (), s') →
        ∀ later, Call.release s.claims.length ∉ later →
          let released := pciReleaseDevice s.claims.length (run functions s' later)
          released.1 = .ok () ∧
            (released.2.config function.address).command = (s.config function.address).command) ∧
      Laid s.arena (held Claim.mappings s.claims) s.mappedPages ∧
      pciResourceVerify s = .ok () ∧
      ∀ c ∈ s.claims, c.active →
        isClear (s.config c.device).command commandBusMaster = !c.busMasterEnabled := by
  intro s
  have hsound : Sound s := (sound_initialized config).run calls
  refine ⟨fun function status s' hcall => ?_, fun function s' hcall later hlater => ?_, hsound.laid,
    hsound.verify, fun c hc hactive => ?_⟩
  · rcases pciClaimDevice_cases functions function s with ⟨_, hcases⟩ | ⟨slot, probed, hcases, -⟩
    · have hstate : s = s' := congrArg Prod.snd (hcases.symm.trans hcall)
      rw [← hstate]
    · exact absurd (congrArg Prod.fst (hcases.symm.trans hcall)) nofun
  · have hsound' : Sound s' := by
      have hchain := call_chain functions s (.claimDevice function)
      rw [show (call functions s (.claimDevice function)).2 = s' from congrArg Prod.snd hcall]
        at hchain
      exact hsound.chain hchain
    obtain ⟨c, hclaim, hactive, hdevice, horiginal⟩ := (holds_of_claim hcall).run hlater
    obtain ⟨slot, hslot⟩ := (hsound'.run later).findClaimRecord hclaim hactive
    obtain ⟨hok, -, hcommand⟩ := release_active hclaim hactive hslot
    rw [hdevice, horiginal] at hcommand
    exact ⟨hok, hcommand⟩
  · obtain ⟨hcommand, hmaster⟩ := hsound.owned.command c hc hactive
    rw [hcommand, hmaster]

/-- After any calls no two active claims own one function, the records name the owners, and
the counters agree with the claims. -/
theorem counted_owned (functions : List PciFunction) (config : Address → Device)
    (calls : List Call) :
    let s := run functions (initialized config) calls
    Counted s ∧ Owned s.config s.records s.claims := by
  intro s
  have hsound : Sound s := (sound_initialized config).run calls
  exact ⟨hsound.counted, hsound.owned⟩

end Runs

end OpenRFS.PciResource
