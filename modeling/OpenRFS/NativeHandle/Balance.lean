import OpenRFS.NativeHandle.Table

/-!
# The two pools of a handle table are balanced

`Balanced` says that the counters of a table are the numbers of its active slots and
objects, and that an object counts the active slots that name it. There are three
edits of a table, and each keeps it balanced: a new object with its slot, one more
slot of an object, and the retirement of a slot.
-/

namespace OpenRFS.NativeHandle

open Ledger Function Slot

def Slot.names (o : Fin tableLimit) (s : Slot) : Bool := s.active && decide (s.objectIndex = o)

variable {i o : Fin tableLimit}

namespace Table

structure Balanced (t : Table) : Prop where
  initialized : t.initialized = true
  limit_pos : 0 < t.limit
  limit_le : t.limit ≤ tableLimit
  handles : t.activeHandles = tally Slot.active t.slots
  objects : t.activeObjects = tally Object.active t.objects
  references : ∀ o, (t.objects o).references = tally (Slot.names o) t.slots
  live : ∀ o, (t.objects o).active = true ↔ (t.objects o).references ≠ 0
  types : ∀ i, (t.slots i).active = true →
    (t.objects (t.slots i).objectIndex).type = (t.slots i).type ∧ validType (t.slots i).type = true
  slots_below : ∀ i, (t.slots i).active = true → i.val < t.limit
  objects_below : ∀ o, (t.objects o).active = true → o.val < t.limit

variable {t : Table}

theorem balanced_tableInitialize {limit : ℕ} (h : tableInitialize limit = .ok t) : Balanced t := by
  rw [tableInitialize] at h
  split_ifs at h with hlimit
  cases h
  push Not at hlimit
  refine ⟨rfl, by dsimp only; omega, hlimit.2, ?_, ?_, fun o => ?_, ?_, ?_, ?_, ?_⟩
  · exact (tally_eq_zero.mpr fun _ => rfl).symm
  · exact (tally_eq_zero.mpr fun _ => rfl).symm
  · exact (tally_eq_zero.mpr fun _ => rfl).symm
  · exact fun _ => ⟨nofun, fun h => absurd rfl h⟩
  all_goals exact fun _ => nofun

namespace Balanced

variable (h : Balanced t)
include h

variable (hi : (t.slots i).active = true)
include hi

theorem references_ne_zero :
    (t.objects (t.slots i).objectIndex).references ≠ 0 := by
  rw [h.references]
  intro hzero
  have hnot := tally_eq_zero.mp hzero i
  simp [names, hi] at hnot

theorem object_active :
    (t.objects (t.slots i).objectIndex).active :=
  (h.live _).mpr (h.references_ne_zero hi)

theorem validSlotObject_eq_true : t.validSlotObject i := by
  simp [validSlotObject, h.objects_below _ (h.object_active hi), h.object_active hi,
    h.references_ne_zero hi, (h.types i hi).1]

theorem objectIndex_ne (ho : (t.objects o).active = false) :
    (t.slots i).objectIndex ≠ o := by
  rintro rfl
  exact absurd (h.object_active hi) (by simp [ho])

omit hi

theorem references_eq_zero (ho : (t.objects o).active = false) : (t.objects o).references = 0 := by
  by_contra hne
  exact absurd ((h.live o).mpr hne) (by simp [ho])

/-- Every edit changes one slot and one object. The table stays balanced if the
counters and the references of the object move with the slot, and if the slots that
still name the object find their type there. -/
theorem edit (hi : i.val < t.limit) (ho : o.val < t.limit) {s : Slot} {b : Object}
    {handles objects : ℕ}
    (hhandles : handles + (t.slots i).active.toNat = t.activeHandles + s.active.toNat)
    (hobjects : objects + (t.objects o).active.toNat = t.activeObjects + b.active.toNat)
    (hreferences : b.references + ((t.slots i).names o).toNat =
      (t.objects o).references + (s.names o).toNat)
    (hothers : ∀ o', o' ≠ o → (t.slots i).names o' = s.names o')
    (hlive : b.active ↔ b.references ≠ 0)
    (hslot : s.active → s.objectIndex = o ∧ b.type = s.type ∧ validType s.type)
    (hrest : ∀ j, j ≠ i → (t.slots j).names o → b.type = (t.objects o).type) :
    Balanced { t with
      slots := update t.slots i s
      objects := update t.objects o b
      activeHandles := handles
      activeObjects := objects } := by
  refine ⟨h.initialized, h.limit_pos, h.limit_le, ?_, ?_, ?_, ?_, ?_, ?_, ?_⟩
  · have := tally_update active t.slots i s
    have := h.handles
    dsimp only
    omega
  · have := tally_update Object.active t.objects o b
    have := h.objects
    dsimp only
    omega
  · intro o'
    have hmoved := tally_update (names o') t.slots i s
    have hbefore := h.references o'
    dsimp only
    rcases eq_or_ne o' o with rfl | hne
    · rw [update_self]
      omega
    · rw [update_of_ne hne]
      rw [hothers o' hne] at hmoved
      omega
  · intro o'
    dsimp only
    rcases eq_or_ne o' o with rfl | hne
    · rwa [update_self]
    · rw [update_of_ne hne]
      exact h.live o'
  · intro j hj
    dsimp only at hj ⊢
    rcases eq_or_ne j i with rfl | hne
    · rw [update_self] at hj ⊢
      obtain ⟨rfl, htype⟩ := hslot hj
      rwa [update_self]
    · rw [update_of_ne hne] at hj ⊢
      rcases eq_or_ne (t.slots j).objectIndex o with rfl | hother
      · rw [update_self, hrest j hne (by simp [names, hj])]
        exact h.types j hj
      · rw [update_of_ne hother]
        exact h.types j hj
  · intro j hj
    rcases eq_or_ne j i with rfl | hne
    · exact hi
    · exact h.slots_below j (by simpa [hne] using hj)
  · intro o' ho'
    rcases eq_or_ne o' o with rfl | hne
    · exact ho
    · exact h.objects_below o' (by simpa [hne] using ho')

theorem installAt (hi : (t.slots i).active = false) (hilt : i.val < t.limit)
    (ho : (t.objects o).active = false) (holt : o.val < t.limit) {type : UInt8}
    (htype : validType type) (resource : Resource) :
    Balanced (t.installAt i o type resource) := by
  refine h.edit hilt holt ?_ ?_ ?_ ?_ ?_ ?_ ?_
  · simp [hi]
  · simp [ho]
  · simp [names, hi, h.references_eq_zero ho]
  · intro o' hne
    simp [names, hi, hne.symm]
  · simp
  · simp [htype]
  · intro j _ hj
    simp only [names, Bool.and_eq_true, decide_eq_true_eq] at hj
    exact absurd hj.2 (h.objectIndex_ne hj.1 ho)

theorem duplicateAt {source : Fin tableLimit} (hi : (t.slots i).active = false)
    (hilt : i.val < t.limit) (hsource : (t.slots source).active) :
    Balanced (t.duplicateAt i source) := by
  have hobject := h.object_active hsource
  refine h.edit hilt (h.objects_below _ hobject) ?_ ?_ ?_ ?_ ?_ ?_ ?_
  · simp [hi]
  · rfl
  · simp [names, hi]
  · intro o' hne
    simp [names, hi, hne.symm]
  · simp [hobject]
  · simp [h.types source hsource]
  · exact fun _ _ _ => rfl

theorem one_lt_references {j : Fin tableLimit} (hi : (t.slots i).active) (hne : j ≠ i)
    (hj : (t.slots j).names (t.slots i).objectIndex) :
    1 < (t.objects (t.slots i).objectIndex).references := by
  rw [h.references, tally, Finset.one_lt_card]
  exact ⟨j, by simpa using hj, i, by simp [names, hi], hne⟩

theorem retireSlot (hi : (t.slots i).active) : Balanced (t.retireSlot i) := by
  have hobject := h.object_active hi
  have hreferences := h.references_ne_zero hi
  have hhandles : t.activeHandles ≠ 0 := by
    rw [h.handles]
    intro hzero
    exact absurd (tally_eq_zero.mp hzero i) (by simp [hi])
  have hobjects : t.activeObjects ≠ 0 := by
    rw [h.objects]
    intro hzero
    exact absurd (tally_eq_zero.mp hzero _) (by simpa using hobject)
  refine h.edit (h.slots_below i hi) (h.objects_below _ hobject) ?_ ?_ ?_ ?_ ?_ ?_ ?_
  · simp only [hi, Bool.toNat_true, Bool.toNat_false]
    omega
  · split_ifs with hlast
    · simp only [hobject, Object.zero, Bool.toNat_true, Bool.toNat_false]
      omega
    · rfl
  · simp only [names, hi, Bool.and_self, decide_true, Bool.false_and, Bool.toNat_true,
      Bool.toNat_false]
    split_ifs with hlast
    · simp only [Object.zero]
      omega
    · dsimp only
      omega
  · intro o' hne
    simp [names, hne.symm]
  · split_ifs with hlast
    · simp [Object.zero]
    · simpa [hobject] using hlast
  · simp
  · intro j hne hj
    have := h.one_lt_references hi hne hj
    rw [if_neg (by omega)]

end Balanced

end Table

end OpenRFS.NativeHandle
