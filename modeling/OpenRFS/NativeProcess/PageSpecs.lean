import OpenRFS.NativeProcess.Ownership

/-!
# What the page operations do

`Process.Wf` says that the records are sorted and describe the leaves of the address
space. An operation that adds a private page to a state, and one that takes it away
again, are both described by `Grown s s' extra`: the state `s'` is `s` with the private
pages `extra` added and nothing else changed. Well-formed states with nothing between
them are equal, which is how a rollback is seen to restore its state.
-/

namespace OpenRFS.NativeProcess

open Paging List Function Bool Memory

structure Process.Wf (p : Process) : Prop where
  sorted : Sorted.Increasing NativePage.virtualAddress p.pages
  leaf : ∀ {va leaf}, p.leaves va = some leaf ↔
    ∃ page ∈ p.pages, page.virtualAddress = va ∧ page.mapped = true ∧
      leaf = ⟨page.physicalAddress, page.permissions⟩
  valid : ∀ page ∈ p.pages, page.mapped = true →
    mappingRequestValid page.kind page.virtualAddress page.permissions = true
  shared : ∀ page ∈ p.pages, page.sharedCodeSlot ≠ none → page.kind = .nativeImage
  limit : p.pages.length * pageSize ≤ p.memoryLimit

def Process.holds (p : Process) : Multiset Hold := (p.pages : Multiset NativePage).map NativePage.hold

/-- A well-formed process, and the memory balanced with what the others hold. -/
structure State.Sound (others : Multiset Hold) (s : State) : Prop where
  wf : s.process.Wf
  balanced : Balanced s.memory (s.process.holds + others)

/-- The process without its pages. -/
def Process.frame (p : Process) : Process := { p with pages := [], leaves := fun _ => none }

structure Grown (s s' : State) (extra : Multiset NativePage) : Prop where
  pages : (s'.process.pages : Multiset NativePage) = extra + s.process.pages
  frames : s'.memory.frames.val = extra.map NativePage.physicalAddress + s.memory.frames.val
  cache : s'.memory.cache = s.memory.cache
  livePages : s'.memory.livePages = s.memory.livePages
  frame : s'.process.frame = s.process.frame

variable {p p' : Process} {s s' s'' : State} {others : Multiset Hold} {page : NativePage} {va : ℕ}
  {extra extra' : Multiset NativePage} {kind : MappingKind} {permissions : UInt32}

/-- A process without pages, whatever its manifest. -/
theorem Process.Wf.of_empty (hpages : p.pages = []) (hleaves : p.leaves = fun _ => none) : p.Wf := by
  have hnone : ∀ page, page ∉ p.pages := fun page hmem => by
    rw [hpages] at hmem
    exact absurd hmem not_mem_nil
  refine ⟨hpages ▸ .nil, fun {va leaf} => ?_, fun page hmem => absurd hmem (hnone page),
    fun page hmem => absurd hmem (hnone page), ?_⟩
  · rw [hleaves]
    exact ⟨nofun, fun ⟨page, hmem, _⟩ => absurd hmem (hnone page)⟩
  · rw [hpages, length_nil, zero_mul]
    exact Nat.zero_le _

theorem Process.Wf.lookup_eq_some (h : p.Wf) :
    p.lookup va = some page ↔ page ∈ p.pages ∧ page.virtualAddress = va :=
  Sorted.lookup_eq_some h.sorted

theorem Process.Wf.lookup_eq_none (h : p.Wf) :
    p.lookup va = none ↔ ∀ page ∈ p.pages, page.virtualAddress ≠ va :=
  Sorted.lookup_eq_none h.sorted

theorem pageAt_of_aligned (h : va % pageSize = 0) : p.pageAt va = p.lookup va := by
  rw [Process.pageAt, Nat.div_mul_cancel (Nat.dvd_of_mod_eq_zero h)]

theorem Process.Wf.leaves_eq_none (h : p.Wf)
    (hnone : ∀ page ∈ p.pages, page.virtualAddress = va → page.mapped = false) :
    p.leaves va = none := by
  cases hleaf : p.leaves va with
  | none => rfl
  | some leaf =>
    obtain ⟨page, hmem, hva, hmapped, -⟩ := h.leaf.mp hleaf
    rw [hnone page hmem hva] at hmapped
    cases hmapped

/-! ### Growing and shrinking -/

theorem Grown.refl (s : State) : Grown s s 0 :=
  ⟨(zero_add _).symm, by rw [Multiset.map_zero, zero_add], rfl, rfl, rfl⟩

theorem Grown.trans (h : Grown s s' extra) (h' : Grown s' s'' extra') :
    Grown s s'' (extra' + extra) where
  pages := by rw [h'.pages, h.pages, add_assoc]
  frames := by rw [h'.frames, h.frames, Multiset.map_add, add_assoc]
  cache := h'.cache.trans h.cache
  livePages := h'.livePages.trans h.livePages
  frame := h'.frame.trans h.frame

theorem Grown.cancel (h : Grown s s'' (extra' + extra)) (h' : Grown s' s'' extra') :
    Grown s s' extra where
  pages := by
    have hpages := h'.pages.symm.trans h.pages
    rw [add_assoc] at hpages
    exact Multiset.add_right_inj.mp hpages
  frames := by
    have hframes := h'.frames.symm.trans h.frames
    rw [Multiset.map_add, add_assoc] at hframes
    exact Multiset.add_right_inj.mp hframes
  cache := h'.cache.symm.trans h.cache
  livePages := h'.livePages.symm.trans h.livePages
  frame := h'.frame.symm.trans h.frame

theorem Process.Wf.ext (h : p.Wf) (h' : p'.Wf) (hpages : ∀ page, page ∈ p'.pages ↔ page ∈ p.pages)
    (hframe : p'.frame = p.frame) : p' = p := by
  have heq : p'.pages = p.pages := h'.sorted.ext h.sorted hpages
  have hleaves : p'.leaves = p.leaves := by
    funext va
    refine Option.ext fun leaf => ?_
    rw [h'.leaf, h.leaf, heq]
  cases p
  cases p'
  cases heq
  cases hleaves
  cases hframe
  rfl

theorem Grown.eq_of_zero (h : Grown s s' 0) (hs : s.process.Wf) (hs' : s'.process.Wf) : s' = s := by
  have hpages := h.pages
  have hframes := h.frames
  rw [zero_add] at hpages
  rw [Multiset.map_zero, zero_add] at hframes
  have hprocess : s'.process = s.process := by
    refine hs.ext hs' (fun page => ?_) h.frame
    rw [← Multiset.mem_coe, hpages, Multiset.mem_coe]
  have hmemory : s'.memory = s.memory := by
    have hcache := h.cache
    have hlive := h.livePages
    have hset := Finset.val_inj.mp hframes
    cases hm : s'.memory
    cases hm' : s.memory
    rw [hm, hm'] at hcache hlive hset
    cases hcache
    cases hlive
    cases hset
    rfl
  cases s
  cases s'
  cases hprocess
  cases hmemory
  rfl

/-! ### New records -/

/-- The process has one more record, which is not mapped. -/
structure Recorded (p p' : Process) (page : NativePage) : Prop where
  fresh : p.lookup page.virtualAddress = none
  pages : p'.pages.Perm (page :: p.pages)
  frame : p'.frame = p.frame
  wf : p'.Wf

theorem recordPage_eq_some (h : p.Wf) (hadmits : p.admits) (hmapped : page.mapped = false)
    (hshared : page.sharedCodeSlot ≠ none → page.kind = .nativeImage)
    (hrecord : p.recordPage page = some p') : Recorded p p' page := by
  unfold Process.recordPage at hrecord
  split_ifs at hrecord with hfull hsome
  cases hrecord
  have hfresh : p.lookup page.virtualAddress = none := by simpa using hsome
  have hnew := h.lookup_eq_none.mp hfresh
  have hperm := Sorted.insertAt_perm p.pages
    (Sorted.lowerBound NativePage.virtualAddress p.pages page.virtualAddress) page
  refine ⟨hfresh, hperm, rfl, h.sorted.insertAt hnew, fun {va leaf} => ?_, fun q hq => ?_,
    fun q hq => ?_, ?_⟩
  · -- the new record has no leaf
    refine h.leaf.trans ⟨fun ⟨q, hq, hrest⟩ => ⟨q, hperm.mem_iff.mpr (.tail _ hq), hrest⟩, ?_⟩
    rintro ⟨q, hq, hva, hm, hleaf⟩
    rcases mem_cons.mp (hperm.mem_iff.mp hq) with rfl | hq
    · rw [hmapped] at hm
      cases hm
    · exact ⟨q, hq, hva, hm, hleaf⟩
  · intro hm
    rcases mem_cons.mp (hperm.mem_iff.mp hq) with rfl | hq
    · rw [hmapped] at hm
      cases hm
    · exact h.valid q hq hm
  · rcases mem_cons.mp (hperm.mem_iff.mp hq) with rfl | hq
    · exact hshared
    · exact h.shared q hq
  · rw [hperm.length_eq, length_cons]
    exact of_decide_eq_true hadmits

theorem Recorded.holds (h : Recorded p p' page) : p'.holds = page.hold ::ₘ p.holds := by
  rw [Process.holds, Multiset.coe_eq_coe.mpr h.pages, ← Multiset.cons_coe, Multiset.map_cons,
    Process.holds]

theorem frameAllocate_eq_some {m m' : Memory} {answer : Option ℕ} {frame : ℕ}
    (h : m.frameAllocate answer = some (frame, m')) :
    frame ∉ m.frames ∧ m' = { m with frames := insert frame m.frames } := by
  cases answer with
  | none => cases h
  | some f =>
    simp only [frameAllocate] at h
    split_ifs at h with hmem
    cases h
    exact ⟨hmem, rfl⟩

theorem frameRelease_allocated {m : Memory} {frame : ℕ} (h : frame ∉ m.frames) :
    ({ m with frames := insert frame m.frames } : Memory).frameRelease frame = some m := by
  unfold frameRelease
  rw [if_pos (Finset.mem_insert_self _ _), Finset.erase_insert h]

/-- A record is made, or the state is as before. -/
theorem recordOrRelease_cases {m : Memory} (page : NativePage) (onRecord : Memory)
    (hrelease : m.frameRelease page.physicalAddress = some s.memory) (h : s.process.Wf)
    (hadmits : s.process.admits) (hmapped : page.mapped = false)
    (hshared : page.sharedCodeSlot ≠ none → page.kind = .nativeImage) :
    s.recordOrRelease m page onRecord = (none, s) ∨
      ∃ p, s.recordOrRelease m page onRecord = (some page.physicalAddress, ⟨onRecord, p⟩) ∧
        Recorded s.process p page := by
  unfold State.recordOrRelease
  cases hrecord : s.process.recordPage page with
  | none => exact .inl (by rw [hrelease]; rfl)
  | some p => exact .inr ⟨p, rfl, recordPage_eq_some h hadmits hmapped hshared hrecord⟩

/-- A page is allocated, or the state is as before. -/
theorem allocatePage_cases (h : s.Sound others) (va : ℕ) (permissions : UInt32) (kind : MappingKind)
    (answer : Option ℕ) :
    s.allocatePage va permissions kind answer = (none, s) ∨
      ∃ frame s', s.allocatePage va permissions kind answer = (some frame, s') ∧
        s'.Sound others ∧ s.process.lookup va = none ∧
        Grown s s' {NativePage.ofPrivate va frame permissions kind} := by
  unfold State.allocatePage
  by_cases hadmits : s.process.admits
  · rw [if_pos hadmits]
    cases halloc : s.memory.frameAllocate answer with
    | none => exact .inl rfl
    | some result =>
      obtain ⟨frame, m⟩ := result
      obtain ⟨hfree, rfl⟩ := frameAllocate_eq_some halloc
      rcases recordOrRelease_cases (.ofPrivate va frame permissions kind)
        { s.memory with frames := insert frame s.memory.frames }
        (frameRelease_allocated hfree) h.wf hadmits rfl (absurd rfl) with
        hnone | ⟨p, hsome, hrec⟩
      · exact .inl hnone
      · refine .inr ⟨frame, _, hsome, ⟨hrec.wf, ?_⟩, hrec.fresh, ?_⟩
        · rw [hrec.holds, Multiset.cons_add]
          exact h.balanced.insertPrivate hfree
        · refine ⟨?_, ?_, rfl, rfl, hrec.frame⟩
          · rw [Multiset.coe_eq_coe.mpr hrec.pages, ← Multiset.cons_coe, Multiset.singleton_add]
          · exact Finset.insert_val_of_notMem hfree
  · rw [if_neg hadmits]
    exact .inl rfl

theorem recordPage_eq_none_iff :
    p.recordPage page = none ↔
      ¬ (p.pages.length < processPageLimit ∧ p.lookup page.virtualAddress = none) := by
  unfold Process.recordPage
  split_ifs with hfull hsome
  · exact ⟨fun _ hroom => absurd hroom.1 (not_lt.mpr hfull), fun _ => rfl⟩
  · exact ⟨fun _ hroom => absurd hroom.2 (Option.isSome_iff_ne_none.mp hsome), fun _ => rfl⟩
  · refine ⟨nofun, fun hroom => absurd ⟨not_le.mp hfull, ?_⟩ hroom⟩
    simpa using hsome

theorem allocatePage_eq_some_iff {answer : Option ℕ} {frame : ℕ} :
    (s.allocatePage va permissions kind answer).1 = some frame ↔
      s.process.admits ∧ answer = some frame ∧ frame ∉ s.memory.frames ∧
        s.process.pages.length < processPageLimit ∧ s.process.lookup va = none := by
  unfold State.allocatePage
  by_cases hadmits : s.process.admits
  swap
  · simp [hadmits]
  rw [if_pos hadmits]
  cases answer with
  | none => simp [frameAllocate]
  | some f =>
    by_cases hmem : f ∈ s.memory.frames
    · simp only [frameAllocate, if_pos hmem]
      refine ⟨nofun, ?_⟩
      rintro ⟨-, hf, hfree, -⟩
      cases hf
      exact absurd hmem hfree
    · have hroom := @recordPage_eq_none_iff s.process (.ofPrivate va f permissions kind)
      simp only [frameAllocate, if_neg hmem, State.recordOrRelease]
      cases hrecord : s.process.recordPage (.ofPrivate va f permissions kind) with
      | none => exact ⟨nofun, fun h => absurd h.2.2.2 (hroom.mp hrecord)⟩
      | some p' =>
        rw [hrecord] at hroom
        have hroom' := not_not.mp (mt hroom.mpr (nofun))
        constructor
        · intro hf
          cases hf
          exact ⟨hadmits, rfl, hmem, hroom'⟩
        · rintro ⟨-, hf, -⟩
          exact hf

/-- A page of library code is shared or entered, or the state is as before. -/
theorem acquireSharedCodePage_cases (h : s.Sound others) (va : ℕ) (key : CodeKey) (same : Bool)
    (answer : Option ℕ) :
    s.acquireSharedCodePage va key same answer = (none, s) ∨
      ∃ frame slot s', s.acquireSharedCodePage va key same answer = (some frame, s') ∧
        s'.Sound others ∧ Recorded s.process s'.process (.ofShared va frame slot) := by
  unfold State.acquireSharedCodePage
  by_cases hadmits : s.process.admits
  · rw [if_pos hadmits]
    have hfind := Probe.answers_find h.balanced.probing key
    unfold sharedCodeFind
    cases hplace : Probe.find sharedCodeHash s.memory.cache key with
    | full => exact .inl rfl
    | found slot =>
      rw [hplace] at hfind
      obtain ⟨entry, hlive⟩ := hfind
      simp only [hlive]
      split_ifs with hrefuse
      · exact .inl rfl
      · cases hrecord : s.process.recordPage (.ofShared va entry.physicalAddress slot) with
        | none => exact .inl rfl
        | some p =>
          have hrec := recordPage_eq_some h.wf hadmits rfl (fun _ => rfl) hrecord
          refine .inr ⟨_, slot, _, rfl, ⟨hrec.wf, ?_⟩, hrec⟩
          rw [hrec.holds, Multiset.cons_add]
          exact h.balanced.share hlive
    | vacant slot =>
      rw [hplace] at hfind
      split_ifs with hfull
      · exact .inl rfl
      · cases halloc : s.memory.frameAllocate answer with
        | none => exact .inl rfl
        | some result =>
          obtain ⟨frame, m⟩ := result
          obtain ⟨hfree, rfl⟩ := frameAllocate_eq_some halloc
          rcases recordOrRelease_cases (.ofShared va frame slot) _
            (frameRelease_allocated hfree) h.wf hadmits rfl (fun _ => rfl) with
            hnone | ⟨p, hsome, hrec⟩
          · exact .inl hnone
          · refine .inr ⟨frame, slot, _, hsome, ⟨hrec.wf, ?_⟩, hrec⟩
            rw [hrec.holds, Multiset.cons_add]
            exact h.balanced.enter hfree hfind
  · rw [if_neg hadmits]
    exact .inl rfl

/-! ### Records that go -/

/-- The process without one of its pages. -/
def Process.without (p : Process) (page : NativePage) : Process :=
  { p with
    pages := Sorted.removeAt p.pages
      (Sorted.lowerBound NativePage.virtualAddress p.pages page.virtualAddress)
    leaves := Function.update p.leaves page.virtualAddress none }

theorem unmapRequestValid_of_mapping (h : mappingRequestValid kind va permissions) :
    unmapRequestValid kind va := by
  unfold unmapRequestValid
  rw [or_eq_true, or_eq_true]
  unfold mappingRequestValid at h ⊢
  cases kind with
  | nativeImage =>
    rw [and_eq_true] at h
    exact .inl (.inl (by rw [h.1]; rfl))
  | _ =>
    rw [and_eq_true] at h
    exact .inl (.inr (by rw [h.1]; rfl))

variable (h : p.Wf) (hmem : page ∈ p.pages)
include h hmem

theorem Process.Wf.cons_without : (page :: (p.without page).pages).Perm p.pages :=
  Sorted.cons_removeAt_perm h.sorted hmem

theorem Process.Wf.mem_without {q : NativePage} :
    q ∈ (p.without page).pages ↔ q ∈ p.pages ∧ q.virtualAddress ≠ page.virtualAddress := by
  have hperm := h.cons_without hmem
  constructor
  · intro hq
    exact ⟨hperm.mem_iff.mp (.tail _ hq), h.sorted.key_ne_of_perm hperm hq⟩
  · rintro ⟨hq, hne⟩
    rcases mem_cons.mp (hperm.mem_iff.mpr hq) with rfl | hq
    · exact absurd rfl hne
    · exact hq

theorem Process.Wf.without : (p.without page).Wf where
  sorted := h.sorted.removeAt _
  leaf {va leaf} := by
    have hmem' := @Process.Wf.mem_without p page h hmem
    by_cases hva : va = page.virtualAddress
    · subst hva
      have hnone : (p.without page).leaves page.virtualAddress = none := update_self ..
      rw [hnone]
      refine ⟨nofun, ?_⟩
      rintro ⟨q, hq, hva, -⟩
      exact absurd hva (hmem'.mp hq).2
    · have hsame : (p.without page).leaves va = p.leaves va := update_of_ne hva ..
      rw [hsame, h.leaf]
      constructor
      · rintro ⟨q, hq, rfl, hrest⟩
        exact ⟨q, hmem'.mpr ⟨hq, hva⟩, rfl, hrest⟩
      · rintro ⟨q, hq, hrest⟩
        exact ⟨q, (hmem'.mp hq).1, hrest⟩
  valid q hq := h.valid q ((h.mem_without hmem).mp hq).1
  shared q hq := h.shared q ((h.mem_without hmem).mp hq).1
  limit := by
    have hlength := (h.cons_without hmem).length_eq
    have hlimit := h.limit
    rw [length_cons] at hlength
    rw [← hlength, add_mul] at hlimit
    exact le_trans (Nat.le_add_right _ _) hlimit

theorem Process.Wf.holds_without : p.holds = page.hold ::ₘ (p.without page).holds := by
  rw [Process.holds, ← Multiset.coe_eq_coe.mpr (h.cons_without hmem), ← Multiset.cons_coe,
    Multiset.map_cons, Process.holds]

theorem Process.Wf.unmapUserPage (hmapped : page.mapped) :
    p.unmapUserPage page.kind page.virtualAddress =
      some { p with leaves := update p.leaves page.virtualAddress none } := by
  have hleaf := h.leaf.mpr ⟨page, hmem, rfl, hmapped, rfl⟩
  unfold Process.unmapUserPage
  rw [unmapRequestValid_of_mapping (h.valid page hmem hmapped), hleaf]
  rfl

theorem Process.Wf.removePageRecord (leaves : ℕ → Option Leaf) :
    ({ p with leaves := leaves } : Process).removePageRecord page.virtualAddress =
      some (page, { p.without page with leaves := leaves }) := by
  have hlookup : ({ p with leaves := leaves } : Process).lookup page.virtualAddress = some page :=
    h.lookup_eq_some.mpr ⟨hmem, rfl⟩
  unfold Process.removePageRecord
  rw [hlookup]
  rfl

theorem Process.Wf.without_unmapped (hmapped : page.mapped = false) :
    { p.without page with leaves := p.leaves } = p.without page := by
  have hnone : p.leaves page.virtualAddress = none := by
    refine h.leaves_eq_none fun q hq hva => ?_
    rw [h.sorted.eq_of_key hq hmem hva, hmapped]
  unfold Process.without
  rw [update_eq_self_iff.mpr hnone.symm]

/-! ### Records that are mapped -/

omit h hmem

theorem State.Sound.without (h : s.Sound others) (hmem : page ∈ s.process.pages) :
    ∃ m, s.memory.releasePageFrame page = some m ∧ State.Sound others ⟨m, s.process.without page⟩ ∧
      (page.sharedCodeSlot = none → Grown ⟨m, s.process.without page⟩ s {page}) := by
  have hbalanced := h.balanced
  rw [h.wf.holds_without hmem, Multiset.cons_add] at hbalanced
  obtain ⟨m, hrelease, hafter⟩ := hbalanced.releasePageFrame
  refine ⟨m, hrelease, ⟨h.wf.without hmem, hafter⟩, fun hprivate => ?_⟩
  simp only [releasePageFrame, hprivate, frameRelease] at hrelease
  split_ifs at hrelease with hframe
  cases hrelease
  refine ⟨?_, ?_, rfl, rfl, rfl⟩
  · rw [← Multiset.coe_eq_coe.mpr (h.wf.cons_without hmem), ← Multiset.cons_coe,
      Multiset.singleton_add]
  · rw [Multiset.map_singleton, Multiset.singleton_add, Finset.erase_val,
      Multiset.cons_erase (Finset.mem_val.mpr hframe)]

theorem NativePage.setMapped_self (page : NativePage) (value : Bool) :
    page.setMapped page.virtualAddress value = { page with mapped := value } := if_pos rfl

theorem NativePage.setMapped_of_ne {page : NativePage} (h : page.virtualAddress ≠ va)
    (value : Bool) : page.setMapped va value = page := if_neg h

@[simp] theorem NativePage.setMapped_virtualAddress (va : ℕ) (value : Bool) (page : NativePage) :
    (page.setMapped va value).virtualAddress = page.virtualAddress := by
  unfold NativePage.setMapped
  split_ifs <;> rfl

@[simp] theorem NativePage.setMapped_hold (va : ℕ) (value : Bool) (page : NativePage) :
    (page.setMapped va value).hold = page.hold := by
  unfold NativePage.setMapped
  split_ifs <;> rfl

theorem Process.holds_setMapped (p : Process) (va : ℕ) (value : Bool) :
    (p.setMapped va value).holds = p.holds := by
  unfold Process.holds Process.setMapped
  rw [← Multiset.map_coe, Multiset.map_map]
  exact Multiset.map_congr rfl fun page _ => page.setMapped_hold va value

theorem Process.Wf.setMapped_pages (h : p.Wf) (hmem : page ∈ p.pages) (value : Bool) :
    ((p.setMapped page.virtualAddress value).pages : Multiset NativePage) =
      { page with mapped := value } ::ₘ (p.without page).pages := by
  have hrest : (p.without page).pages.map (NativePage.setMapped page.virtualAddress value) =
      (p.without page).pages := by
    refine (map_congr_left fun q hq => ?_).trans (map_id _)
    exact NativePage.setMapped_of_ne ((h.mem_without hmem).mp hq).2 value
  show ((p.pages.map (NativePage.setMapped page.virtualAddress value) : List NativePage) :
    Multiset NativePage) = _
  rw [← Multiset.coe_eq_coe.mpr ((h.cons_without hmem).map _), map_cons, hrest,
    NativePage.setMapped_self, Multiset.cons_coe]

theorem Process.Wf.mem_setMapped (h : p.Wf) (hmem : page ∈ p.pages) (value : Bool)
    {q : NativePage} : q ∈ (p.setMapped page.virtualAddress value).pages ↔
      q = { page with mapped := value } ∨ q ∈ p.pages ∧ q.virtualAddress ≠ page.virtualAddress := by
  rw [← Multiset.mem_coe, h.setMapped_pages hmem value, Multiset.mem_cons, Multiset.mem_coe,
    h.mem_without hmem]

theorem Process.Wf.sorted_setMapped (h : p.Wf) (va : ℕ) (value : Bool) :
    Sorted.Increasing NativePage.virtualAddress (p.setMapped va value).pages := by
  refine pairwise_map.mpr (h.sorted.imp fun {a b} hab => ?_)
  rwa [NativePage.setMapped_virtualAddress, NativePage.setMapped_virtualAddress]

theorem Process.Wf.mapUserPage (h : p.Wf) (hmem : page ∈ p.pages) {answer : Bool}
    (hmap : p.mapUserPage page.kind page.virtualAddress page.physicalAddress page.permissions
      answer = some p') :
    (p'.setMapped page.virtualAddress true).Wf ∧ p'.pages = p.pages ∧ p'.frame = p.frame := by
  unfold Process.mapUserPage at hmap
  split_ifs at hmap with hcond
  cases hmap
  simp only [and_eq_true] at hcond
  obtain ⟨⟨-, hvalid⟩, -⟩ := hcond
  have hmem' : ∀ q, _ ↔ _ := fun q => @Process.Wf.mem_setMapped p page h hmem true q
  refine ⟨⟨h.sorted_setMapped _ true, fun {va leaf} => ?_, fun q hq hmapped => ?_,
    fun q hq => ?_, ?_⟩, rfl, rfl⟩
  · show update p.leaves page.virtualAddress _ va = some leaf ↔
      ∃ q ∈ (p.setMapped page.virtualAddress true).pages, _
    by_cases hva : va = page.virtualAddress
    · subst hva
      rw [update_self]
      constructor
      · intro hleaf
        cases hleaf
        exact ⟨_, (hmem' _).mpr (.inl rfl), rfl, rfl, rfl⟩
      · rintro ⟨q, hq, hva, -, rfl⟩
        rcases (hmem' q).mp hq with rfl | ⟨-, hne⟩
        · rfl
        · exact absurd hva hne
    · rw [update_of_ne hva, h.leaf]
      constructor
      · rintro ⟨q, hq, rfl, hrest⟩
        exact ⟨q, (hmem' q).mpr (.inr ⟨hq, hva⟩), rfl, hrest⟩
      · rintro ⟨q, hq, hrest⟩
        rcases (hmem' q).mp hq with rfl | ⟨hq, -⟩
        · exact absurd hrest.1.symm hva
        · exact ⟨q, hq, hrest⟩
  · rcases (hmem' q).mp hq with rfl | ⟨hq, -⟩
    · exact hvalid
    · exact h.valid q hq hmapped
  · rcases (hmem' q).mp hq with rfl | ⟨hq, -⟩
    · exact h.shared page hmem
    · exact h.shared q hq
  · show (p.pages.map _).length * pageSize ≤ _
    rw [length_map]
    exact h.limit

end OpenRFS.NativeProcess
