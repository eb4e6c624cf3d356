import OpenRFS.Ledger.Books
import OpenRFS.NativeProcess.Pages

/-!
# Who owns the frames

A record holds a frame of its own or a reference to a slot of the cache. `Balanced`
weighs the memory against the holds of all processes: the frames given out are those of
the private holds and of the live cache entries, one each, and an entry counts the
holds that name its slot. Every operation on the memory that goes with a new record or
with the removal of one keeps that.
-/

namespace OpenRFS.NativeProcess

open Multiset Memory

structure Hold where
  frame : ℕ
  slot : Option (Fin sharedCodeCacheCapacity)
  deriving DecidableEq

def NativePage.hold (page : NativePage) : Hold := ⟨page.physicalAddress, page.sharedCodeSlot⟩

def Hold.own (h : Hold) : Multiset ℕ :=
  match h.slot with
  | none => {h.frame}
  | some _ => 0

def cellFrames : CodeCell → Multiset ℕ
  | .live _ entry => {entry.physicalAddress}
  | _ => 0

def liveFrames (cache : Fin sharedCodeCacheCapacity → CodeCell) : Multiset ℕ :=
  ∑ slot, cellFrames (cache slot)

def Hold.names (slot : Fin sharedCodeCacheCapacity) (h : Hold) : Prop := h.slot = some slot

instance (slot : Fin sharedCodeCacheCapacity) : DecidablePred (Hold.names slot) := fun h =>
  inferInstanceAs (Decidable (h.slot = some slot))

structure Balanced (m : Memory) (held : Multiset Hold) : Prop where
  probing : Probe.Sound sharedCodeHash m.cache
  owned : m.frames.val = held.bind Hold.own + liveFrames m.cache
  counted : m.livePages = (liveFrames m.cache).card
  references : ∀ {slot key entry}, m.cache slot = .live key entry →
    entry.references = held.countP (Hold.names slot)
  named : ∀ {h slot}, h ∈ held → h.slot = some slot →
    ∃ key entry, m.cache slot = .live key entry ∧ entry.physicalAddress = h.frame

@[simp] theorem cellFrames_live (key : CodeKey) (entry : SharedCodePage) :
    cellFrames (.live key entry) = {entry.physicalAddress} := rfl

@[simp] theorem cellFrames_tombstone : cellFrames .tombstone = 0 := rfl

open Hold

@[simp] theorem Hold.own_private (frame : ℕ) : own ⟨frame, none⟩ = {frame} := rfl

@[simp] theorem Hold.own_shared (frame : ℕ) (slot : Fin sharedCodeCacheCapacity) :
    own ⟨frame, some slot⟩ = 0 := rfl

theorem Hold.mem_own {h : Hold} {frame : ℕ} : frame ∈ h.own ↔ h.slot = none ∧ frame = h.frame := by
  obtain ⟨held, slot⟩ := h
  cases slot with
  | none => simp
  | some slot => simp

theorem mem_liveFrames {cache : Fin sharedCodeCacheCapacity → CodeCell} {frame : ℕ} :
    frame ∈ liveFrames cache ↔
      ∃ slot key entry, cache slot = .live key entry ∧ entry.physicalAddress = frame := by
  rw [liveFrames, mem_sum]
  constructor
  · rintro ⟨slot, -, hmem⟩
    cases hcell : cache slot with
    | live key entry =>
      rw [hcell, cellFrames_live, mem_singleton] at hmem
      exact ⟨slot, key, entry, hcell, hmem.symm⟩
    | empty | tombstone =>
      rw [hcell] at hmem
      exact absurd hmem (notMem_zero _)
  · rintro ⟨slot, key, entry, hcell, rfl⟩
    refine ⟨slot, Finset.mem_univ _, ?_⟩
    rw [hcell, cellFrames_live]
    exact mem_singleton_self _

theorem liveFrames_setCell (m : Memory) (slot : Fin sharedCodeCacheCapacity) (cell : CodeCell) :
    liveFrames (m.setCell slot cell).cache + cellFrames (m.cache slot) =
      liveFrames m.cache + cellFrames cell :=
  Ledger.sum_update cellFrames m.cache slot cell

theorem cellFrames_le_liveFrames (m : Memory) (slot : Fin sharedCodeCacheCapacity) :
    cellFrames (m.cache slot) ≤ liveFrames m.cache := by
  have hupdate := liveFrames_setCell m slot .tombstone
  rw [cellFrames_tombstone, add_zero] at hupdate
  rw [← hupdate]
  exact le_add_left _ _

theorem cellFrames_of_not_live {cell : CodeCell} (h : ∀ k v, cell ≠ .live k v) :
    cellFrames cell = 0 := by
  cases cell with
  | live k v => exact absurd rfl (h k v)
  | empty => rfl
  | tombstone => rfl

variable {m m' : Memory} {held : Multiset Hold} {slot : Fin sharedCodeCacheCapacity}
  {key : CodeKey} {entry : SharedCodePage} {frame : ℕ}

/-! ### Private frames -/

theorem Balanced.insertPrivate (h : Balanced m held) (hfree : frame ∉ m.frames) :
    Balanced { m with frames := insert frame m.frames } (⟨frame, none⟩ ::ₘ held) where
  probing := h.probing
  owned := by
    rw [Finset.insert_val_of_notMem hfree, h.owned, cons_bind, add_assoc]
    rfl
  counted := h.counted
  references hlive := by
    rw [h.references hlive, countP_cons_of_neg]
    exact nofun
  named hmem hslot := by
    rcases mem_cons.mp hmem with rfl | hmem
    · cases hslot
    · exact h.named hmem hslot

theorem Balanced.releasePrivate (h : Balanced m (⟨frame, none⟩ ::ₘ held)) :
    frame ∈ m.frames ∧ Balanced { m with frames := m.frames.erase frame } held := by
  have howned : m.frames.val = frame ::ₘ (held.bind own + liveFrames m.cache) := by
    rw [h.owned, cons_bind, add_assoc]
    rfl
  refine ⟨?_, h.probing, ?_, h.counted, fun hlive => ?_, fun hmem => h.named
    (mem_cons_of_mem hmem)⟩
  · rw [← Finset.mem_val, howned]
    exact mem_cons_self _ _
  · rw [Finset.erase_val, howned, erase_cons_head]
  · rw [h.references hlive, countP_cons_of_neg]
    exact nofun

/-! ### Shared frames -/

/-- A cell that is live after a change is the changed one, or was live before. -/
theorem Memory.setCell_live {cell : CodeCell} {slot' : Fin sharedCodeCacheCapacity}
    (h : (m.setCell slot cell).cache slot' = .live key entry) :
    slot' = slot ∧ cell = .live key entry ∨ slot' ≠ slot ∧ m.cache slot' = .live key entry := by
  unfold setCell at h
  by_cases hslot : slot' = slot
  · subst hslot
    exact .inl ⟨rfl, by simpa using h⟩
  · exact .inr ⟨hslot, by simpa [Function.update_of_ne hslot] using h⟩

theorem Memory.setCell_self (m : Memory) (slot : Fin sharedCodeCacheCapacity) (cell : CodeCell) :
    (m.setCell slot cell).cache slot = cell := Function.update_self ..

theorem Memory.setCell_of_ne (m : Memory) {slot slot' : Fin sharedCodeCacheCapacity}
    (h : slot' ≠ slot) (cell : CodeCell) : (m.setCell slot cell).cache slot' = m.cache slot' :=
  Function.update_of_ne h ..

theorem liveFrames_setReferences (hlive : m.cache slot = .live key entry) (references : ℕ) :
    liveFrames (m.setCell slot (.live key { entry with references := references })).cache =
      liveFrames m.cache := by
  have hupdate := liveFrames_setCell m slot (.live key { entry with references := references })
  rw [hlive] at hupdate
  exact Multiset.add_left_inj.mp hupdate

/-- The count of an entry may change together with the holds that name it. -/
theorem Balanced.setReferences {held' : Multiset Hold} (h : Balanced m held)
    (hlive : m.cache slot = .live key entry) {references : ℕ}
    (howned : held'.bind own = held.bind own)
    (hreferences : references = held'.countP (names slot))
    (hothers : ∀ slot' ≠ slot, held'.countP (names slot') = held.countP (names slot'))
    (hnamed : ∀ x ∈ held', x ∈ held ∨ x = ⟨entry.physicalAddress, some slot⟩) :
    Balanced (m.setCell slot (.live key { entry with references := references })) held' where
  probing := h.probing.assign hlive _
  owned := by
    rw [liveFrames_setReferences hlive, howned]
    exact h.owned
  counted := by
    rw [liveFrames_setReferences hlive]
    exact h.counted
  references hlive' := by
    rcases setCell_live hlive' with ⟨rfl, hcell⟩ | ⟨hne, hbefore⟩
    · cases hcell
      exact hreferences
    · rw [h.references hbefore, hothers _ hne]
  named {x slot'} hmem hslot := by
    by_cases hne : slot' = slot
    · subst hne
      refine ⟨key, _, setCell_self .., ?_⟩
      rcases hnamed x hmem with hold | rfl
      · obtain ⟨_, _, hlive', hframe⟩ := h.named hold hslot
        rw [hlive] at hlive'
        cases hlive'
        exact hframe
      · rfl
    · rw [setCell_of_ne m hne]
      rcases hnamed x hmem with hold | rfl
      · exact h.named hold hslot
      · cases hslot
        exact absurd rfl hne

theorem countP_names_cons_self (held : Multiset Hold) (frame : ℕ)
    (slot : Fin sharedCodeCacheCapacity) :
    (⟨frame, some slot⟩ ::ₘ held).countP (names slot) = held.countP (names slot) + 1 :=
  countP_cons_of_pos _ rfl

theorem countP_names_cons_of_ne (held : Multiset Hold) (frame : ℕ)
    {slot slot' : Fin sharedCodeCacheCapacity} (h : slot' ≠ slot) :
    (⟨frame, some slot⟩ ::ₘ held).countP (names slot') = held.countP (names slot') :=
  countP_cons_of_neg _ fun hnames => h (Option.some.inj hnames).symm

theorem Balanced.share (h : Balanced m held) (hlive : m.cache slot = .live key entry) :
    Balanced (m.setCell slot (.live key { entry with references := entry.references + 1 }))
      (⟨entry.physicalAddress, some slot⟩ ::ₘ held) := by
  refine h.setReferences hlive ?_ ?_ (fun slot' hne => countP_names_cons_of_ne held _ hne) ?_
  · rw [cons_bind]
    exact zero_add _
  · rw [countP_names_cons_self, h.references hlive]
  · intro x hx
    rcases mem_cons.mp hx with rfl | hx
    · exact .inr rfl
    · exact .inl hx

/-- One reference less, while others remain. -/
theorem Balanced.unshare (h : Balanced m (⟨frame, some slot⟩ ::ₘ held))
    (hlive : m.cache slot = .live key entry) :
    Balanced (m.setCell slot (.live key { entry with references := entry.references - 1 }))
      held := by
  refine h.setReferences hlive ?_ ?_ (fun slot' hne => (countP_names_cons_of_ne held _ hne).symm)
    (fun x hx => .inl (mem_cons_of_mem hx))
  · rw [cons_bind]
    exact (zero_add _).symm
  · rw [h.references hlive, countP_names_cons_self, Nat.add_sub_cancel]

theorem Balanced.enter (h : Balanced m held) (hfree : frame ∉ m.frames)
    (hvacant : Probe.Vacant sharedCodeHash m.cache key slot) :
    Balanced { m.setCell slot (.live key ⟨frame, 1⟩) with
      frames := insert frame m.frames, livePages := m.livePages + 1 }
      (⟨frame, some slot⟩ ::ₘ held) := by
  -- nobody names a slot that is not live
  have hunnamed : held.countP (names slot) = 0 := by
    refine countP_eq_zero.mpr fun x hx hnames => ?_
    obtain ⟨_, _, hlive, -⟩ := h.named hx hnames
    exact hvacant.free _ _ hlive
  have hframes : liveFrames (m.setCell slot (.live key ⟨frame, 1⟩)).cache =
      frame ::ₘ liveFrames m.cache := by
    have hupdate := liveFrames_setCell m slot (.live key ⟨frame, 1⟩)
    rw [cellFrames_of_not_live hvacant.free, add_zero, cellFrames_live, add_comm] at hupdate
    rw [hupdate, singleton_add]
  refine ⟨h.probing.insert hvacant _, ?_, ?_, fun {slot' _ _} hlive => ?_,
    fun {x slot'} hmem hslot => ?_⟩
  · show (insert frame m.frames).val = _ + liveFrames (m.setCell slot (.live key ⟨frame, 1⟩)).cache
    rw [Finset.insert_val_of_notMem hfree, hframes, cons_bind, add_cons, h.owned,
      own_shared, zero_add]
  · show m.livePages + 1 = (liveFrames (m.setCell slot (.live key ⟨frame, 1⟩)).cache).card
    rw [hframes, card_cons, h.counted]
  · rcases setCell_live hlive with ⟨rfl, hcell⟩ | ⟨hne, hbefore⟩
    · cases hcell
      rw [countP_names_cons_self, hunnamed]
    · rw [countP_names_cons_of_ne held _ hne]
      exact h.references hbefore
  · rcases mem_cons.mp hmem with rfl | hbefore
    · cases hslot
      exact ⟨key, _, setCell_self .., rfl⟩
    · have hne : slot' ≠ slot := by
        rintro rfl
        exact countP_eq_zero.mp hunnamed x hbefore hslot
      obtain ⟨k, e, hlive, hframe⟩ := h.named hbefore hslot
      exact ⟨k, e, (setCell_of_ne m hne _).trans hlive, hframe⟩

theorem Balanced.remove (h : Balanced m (⟨frame, some slot⟩ ::ₘ held))
    (hlive : m.cache slot = .live key entry) (hlast : entry.references = 1) :
    entry.physicalAddress ∈ m.frames ∧
      Balanced { m.setCell slot .tombstone with
        frames := m.frames.erase entry.physicalAddress, livePages := m.livePages - 1 } held := by
  have hunnamed : held.countP (names slot) = 0 := by
    have hcount := h.references hlive
    rw [countP_names_cons_self] at hcount
    omega
  have hframes : liveFrames m.cache =
      entry.physicalAddress ::ₘ liveFrames (m.setCell slot .tombstone).cache := by
    have hupdate := liveFrames_setCell m slot .tombstone
    rw [hlive, cellFrames_tombstone, add_zero, cellFrames_live, add_comm] at hupdate
    rw [← hupdate, singleton_add]
  have howned : m.frames.val = entry.physicalAddress ::ₘ
      (held.bind own + liveFrames (m.setCell slot .tombstone).cache) := by
    rw [h.owned, hframes, cons_bind, add_cons, own_shared, zero_add]
  refine ⟨?_, h.probing.bury slot, ?_, ?_, fun {slot' _ _} hlive' => ?_,
    fun {x slot'} hmem hslot => ?_⟩
  · rw [← Finset.mem_val, howned]
    exact mem_cons_self _ _
  · show (m.frames.erase entry.physicalAddress).val = _
    rw [Finset.erase_val, howned, erase_cons_head]
  · show m.livePages - 1 = (liveFrames (m.setCell slot .tombstone).cache).card
    rw [h.counted, hframes, card_cons, Nat.add_sub_cancel]
  · rcases setCell_live hlive' with ⟨-, hcell⟩ | ⟨hne, hbefore⟩
    · cases hcell
    · rw [h.references hbefore, countP_names_cons_of_ne held _ hne]
  · have hne : slot' ≠ slot := by
      rintro rfl
      exact countP_eq_zero.mp hunnamed x hmem hslot
    obtain ⟨k, e, hlive', hframe⟩ := h.named (mem_cons_of_mem hmem) hslot
    exact ⟨k, e, (setCell_of_ne m hne _).trans hlive', hframe⟩

/-- With no live page the tombstones may go. -/
theorem Balanced.reset (h : Balanced m held) (hnone : m.livePages = 0) :
    Balanced { m with cache := fun _ => .empty, livePages := 0 } held := by
  have hframes : liveFrames m.cache = 0 := card_eq_zero.mp (h.counted.symm.trans hnone)
  have hclear : liveFrames (fun _ => .empty) = 0 := Finset.sum_const_zero
  refine ⟨.clear _, ?_, by rw [hclear]; rfl, nofun, fun {_ slot} hmem hslot => ?_⟩
  · rw [hclear, ← hframes]
    exact h.owned
  · obtain ⟨_, entry, hlive, -⟩ := h.named hmem hslot
    have hcell := cellFrames_le_liveFrames m slot
    rw [hframes, hlive, cellFrames_live] at hcell
    exact absurd (le_zero.mp hcell) (singleton_ne_zero _)

theorem Balanced.zero : Balanced .zero 0 := by
  have hclear : liveFrames Memory.zero.cache = 0 := Finset.sum_const_zero
  refine ⟨.clear _, ?_, ?_, nofun, fun hmem => absurd hmem
    (notMem_zero _)⟩
  · rw [hclear, zero_bind, add_zero]
    rfl
  · rw [hclear]
    rfl

theorem Balanced.releasePageFrame {page : NativePage} (h : Balanced m (page.hold ::ₘ held)) :
    ∃ m', m.releasePageFrame page = some m' ∧ Balanced m' held := by
  unfold Memory.releasePageFrame
  cases hslot : page.sharedCodeSlot with
  | none =>
    rw [show page.hold = ⟨page.physicalAddress, none⟩ by rw [NativePage.hold, hslot]] at h
    obtain ⟨hmem, hbalanced⟩ := h.releasePrivate
    exact ⟨_, if_pos hmem, hbalanced⟩
  | some slot =>
    rw [show page.hold = ⟨page.physicalAddress, some slot⟩ by rw [NativePage.hold, hslot]] at h
    obtain ⟨key, entry, hlive, hframe⟩ := h.named (mem_cons_self _ _) rfl
    have hcount := h.references hlive
    rw [countP_names_cons_self] at hcount
    have hheld : ¬ (entry.physicalAddress ≠ page.physicalAddress ∨ entry.references = 0) := by
      rintro (hne | hzero)
      · exact hne hframe
      · omega
    simp only [hlive]
    rw [if_neg hheld]
    by_cases hlast : entry.references - 1 = 0
    · obtain ⟨hmem, hbalanced⟩ := h.remove hlive (by omega)
      rw [if_neg (not_not_intro hlast), frameRelease, if_pos hmem]
      refine ⟨_, rfl, ?_⟩
      dsimp only [bury]
      split_ifs with hnone
      · exact hbalanced.reset hnone
      · exact hbalanced
    · rw [if_pos hlast]
      exact ⟨_, rfl, h.unshare hlive⟩

end OpenRFS.NativeProcess
