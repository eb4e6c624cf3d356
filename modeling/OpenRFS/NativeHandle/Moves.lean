import OpenRFS.NativeHandle.Balance

/-!
# What the calls on a handle table can do

Every call on a balanced table is a sequence of `Move`s: an installation, a
duplication, the retirement of a slot without the callback, and an answer of the
callback with or without the retirement of the slot. `Sound` is kept by each of them:
the table is balanced, the generation of a slot follows from how often it was
retired, and the log has no answer that it should not have.
-/

namespace OpenRFS.NativeHandle

open List Function Table Event

def Event.consumes (o : Fin tableLimit) : Event → Bool
  | .called t i result => result.consuming && decide ((t.slots i).objectIndex = o)
  | _ => false

def Event.retires (i : Fin tableLimit) : Event → Bool
  | .retired j => decide (j = i)
  | _ => false

/-- How often the slot `i` was retired. -/
def retirements (i : Fin tableLimit) (log : List Event) : ℕ := log.countP (Event.retires i)

/-- The resource of the object `o` was installed after the last answer that took
one. -/
def Unconsumed (o : Fin tableLimit) (log : List Event) : Prop :=
  ∀ newer e older, log = newer ++ e :: older → e.consumes o = true → .installed o ∈ newer

/-- Between two answers that took the resource of one object, a resource was
installed there. -/
def ConsumedOnce (log : List Event) : Prop :=
  ∀ o newer e between e' older, log = newer ++ e :: (between ++ e' :: older) →
    e.consumes o = true → e'.consumes o = true → .installed o ∈ between

/-- The slot `i` is the only active one of its object. -/
def Table.LastHandle (t : Table) (i : Fin tableLimit) : Prop :=
  (t.slots i).active = true ∧
    ∀ j, (t.slots j).active = true → (t.slots j).objectIndex = (t.slots i).objectIndex → j = i

section Log

variable {o : Fin tableLimit} {e : Event} {log : List Event}

theorem Unconsumed.cons (h : Unconsumed o log) (he : e.consumes o = false) :
    Unconsumed o (e :: log) := by
  intro newer e' older hlog hconsumes
  rcases newer with - | ⟨x, newer⟩
  · obtain ⟨rfl, -⟩ := List.cons.inj hlog
    exact absurd hconsumes (by simp [he])
  · obtain ⟨rfl, hrest⟩ := List.cons.inj hlog
    exact mem_cons_of_mem _ (h newer e' older hrest hconsumes)

theorem unconsumed_installed (o : Fin tableLimit) (log : List Event) :
    Unconsumed o (.installed o :: log) := by
  intro newer e older hlog hconsumes
  rcases newer with - | ⟨x, newer⟩
  · obtain ⟨rfl, -⟩ := List.cons.inj hlog
    exact absurd hconsumes (by simp [consumes])
  · obtain ⟨rfl, -⟩ := List.cons.inj hlog
    exact mem_cons_self

theorem ConsumedOnce.cons (h : ConsumedOnce log)
    (he : ∀ o, e.consumes o → Unconsumed o log) : ConsumedOnce (e :: log) := by
  intro o newer e₁ between e₂ older hlog h₁ h₂
  rcases newer with - | ⟨x, newer⟩
  · obtain ⟨rfl, hrest⟩ := List.cons.inj hlog
    exact he o h₁ between e₂ older hrest h₂
  · obtain ⟨rfl, hrest⟩ := List.cons.inj hlog
    exact h o newer e₁ between e₂ older hrest h₁ h₂

end Log

variable {σ : Type}

structure Sound (w : World σ) : Prop where
  balanced : w.table.Balanced
  generations : ∀ i : Fin tableLimit, i.val < w.table.limit →
    (w.table.slots i).generation.toNat = retirements i w.log % (2 ^ 32 - 1) + 1
  last : ∀ t i result, .called t i result ∈ w.log → t.LastHandle i
  once : ConsumedOnce w.log
  unconsumed : ∀ o, (w.table.objects o).active = true → Unconsumed o w.log

inductive Move : World σ → World σ → Prop
  | install (w : World σ) (i o : Fin tableLimit) (type : UInt8) (resource : Resource)
      (hi : (w.table.slots i).active = false) (hilt : i.val < w.table.limit)
      (ho : (w.table.objects o).active = false) (holt : o.val < w.table.limit)
      (htype : validType type = true) :
      Move w { w with
        table := w.table.installAt i o type resource, log := .installed o :: w.log }
  | duplicate (w : World σ) (i source : Fin tableLimit) (hi : (w.table.slots i).active = false)
      (hilt : i.val < w.table.limit) (hsource : (w.table.slots source).active = true) :
      Move w { w with table := w.table.duplicateAt i source }
  /-- The slot is not the last of its object, or there is no callback. -/
  | retire (w : World σ) (i : Fin tableLimit) (hi : (w.table.slots i).active = true) :
      Move w (retire i w)
  | consume (w : World σ) (i : Fin tableLimit) (result : CloseResult) (context : σ)
      (hi : (w.table.slots i).active = true)
      (hlast : (w.table.objects (w.table.slots i).objectIndex).references ≤ 1)
      (hresult : result.consuming = true) :
      Move w (retire i { w with context := context, log := .called w.table i result :: w.log })
  | keep (w : World σ) (i : Fin tableLimit) (result : CloseResult) (context : σ)
      (hi : (w.table.slots i).active = true)
      (hlast : (w.table.objects (w.table.slots i).objectIndex).references ≤ 1)
      (hresult : result.consuming = false) :
      Move w { w with context := context, log := .called w.table i result :: w.log }

section Edits

variable (t : Table)

theorem installAt_generation (i o : Fin tableLimit) (type : UInt8) (resource : Resource)
    (j : Fin tableLimit) :
    ((t.installAt i o type resource).slots j).generation = (t.slots j).generation := by
  simp only [installAt]
  rcases eq_or_ne j i with rfl | hne
  · rw [update_self]
  · rw [update_of_ne hne]

theorem duplicateAt_generation (i source j : Fin tableLimit) :
    ((t.duplicateAt i source).slots j).generation = (t.slots j).generation := by
  simp only [duplicateAt]
  rcases eq_or_ne j i with rfl | hne
  · rw [update_self]
  · rw [update_of_ne hne]

theorem duplicateAt_active (i source o : Fin tableLimit) :
    ((t.duplicateAt i source).objects o).active = (t.objects o).active := by
  simp only [duplicateAt]
  rcases eq_or_ne o (t.slots source).objectIndex with rfl | hne
  · rw [update_self]
  · rw [update_of_ne hne]

theorem retireSlot_generation (i j : Fin tableLimit) :
    ((t.retireSlot i).slots j).generation =
      if j = i then nextGeneration (t.slots i).generation else (t.slots j).generation := by
  simp only [retireSlot]
  split_ifs with h
  · rw [h, update_self]
  · rw [update_of_ne h]

/-- An object that is there after the retirement was there before, and was not that
of the last slot. -/
theorem retireSlot_active {i o : Fin tableLimit} (h : ((t.retireSlot i).objects o).active) :
    (t.objects o).active ∧ (o = (t.slots i).objectIndex → 1 < (t.objects o).references) := by
  simp only [retireSlot] at h
  rcases eq_or_ne o (t.slots i).objectIndex with rfl | hne
  · rw [update_self] at h
    split_ifs at h with hlast
    · exact absurd h (by simp [Object.zero])
    · exact ⟨h, fun _ => by omega⟩
  · rw [update_of_ne hne] at h
    exact ⟨h, fun heq => absurd heq hne⟩

/-- The generations go through `1` to `2 ^ 32 - 1` and start again. -/
theorem nextGeneration_toNat {g : UInt32} {n : ℕ} (h : g.toNat = n % (2 ^ 32 - 1) + 1) :
    (nextGeneration g).toNat = (n + 1) % (2 ^ 32 - 1) + 1 := by
  have hlt : n % (2 ^ 32 - 1) < 2 ^ 32 - 1 := Nat.mod_lt _ (by decide)
  have hsucc : (g + 1).toNat = (g.toNat + 1) % 2 ^ 32 := UInt32.toNat_add g 1
  rw [nextGeneration]
  split_ifs with hwrap
  · -- the last generation is followed by the first
    have hzero : (g.toNat + 1) % 2 ^ 32 = 0 := by rw [← hsucc, hwrap]; rfl
    have : (1 : UInt32).toNat = 1 := rfl
    omega
  · have hne : (g + 1).toNat ≠ 0 := fun hzero => hwrap (UInt32.toNat_inj.mp hzero)
    omega

end Edits

section Soundness

variable {w w' : World σ}

theorem retirements_cons_of_not {i : Fin tableLimit} {e : Event} (h : e.retires i = false)
    (log : List Event) : retirements i (e :: log) = retirements i log := by
  rw [retirements, countP_cons_of_neg (by simp [h])]
  rfl

theorem retirements_retired (i j : Fin tableLimit) (log : List Event) :
    retirements i (.retired j :: log) = retirements i log + if i = j then 1 else 0 := by
  rcases eq_or_ne i j with rfl | hne
  · simp [retirements, retires]
  · rw [if_neg hne]
    exact retirements_cons_of_not (by simp [retires, hne.symm]) log

theorem Table.Balanced.lastHandle {t : Table} (h : t.Balanced) {i : Fin tableLimit}
    (hi : (t.slots i).active)
    (hlast : (t.objects (t.slots i).objectIndex).references ≤ 1) : t.LastHandle i := by
  refine ⟨hi, fun j hj hsame => ?_⟩
  by_contra hne
  have := h.one_lt_references hi hne (by simp [Slot.names, hj, hsame])
  omega

namespace Sound

/-- The callback answers while the slot is the last of its object, and the table is
left as it is. The object may then have lost its resource. -/
theorem called (h : Sound w) {i : Fin tableLimit} (hi : (w.table.slots i).active)
    (hlast : (w.table.objects (w.table.slots i).objectIndex).references ≤ 1)
    (result : CloseResult) :
    (∀ t j r, .called t j r ∈ .called w.table i result :: w.log → t.LastHandle j) ∧
      ConsumedOnce (.called w.table i result :: w.log) := by
  constructor
  · intro t j r hmem
    rcases mem_cons.mp hmem with heq | hold
    · cases heq
      exact h.balanced.lastHandle hi hlast
    · exact h.last t j r hold
  · refine h.once.cons fun o hconsumes => ?_
    simp only [consumes, Bool.and_eq_true, decide_eq_true_eq] at hconsumes
    obtain ⟨-, rfl⟩ := hconsumes
    exact h.unconsumed _ (h.balanced.object_active hi)

/-- A slot is retired after the log grew by answers. An object that still counts a
slot has its resource. -/
theorem retire_of_log (h : Sound w) {i : Fin tableLimit}
    (hi : (w.table.slots i).active) {context : σ} {log : List Event}
    (hretirements : ∀ j, retirements j log = retirements j w.log)
    (hlast : ∀ t j r, .called t j r ∈ log → t.LastHandle j) (honce : ConsumedOnce log)
    (hunconsumed : ∀ o, (w.table.objects o).active →
      (o = (w.table.slots i).objectIndex → 1 < (w.table.objects o).references) →
        Unconsumed o log) : Sound (retire i { w with context := context, log := log }) := by
  refine ⟨h.balanced.retireSlot hi, fun j hj => ?_, fun t j r hmem => ?_, ?_, fun o ho => ?_⟩
  · simp only [retire, retireSlot_generation, retirements_retired, hretirements]
    split_ifs with heq
    · subst heq
      exact nextGeneration_toNat (h.generations j hj)
    · exact h.generations j hj
  · rcases mem_cons.mp hmem with heq | hold
    · cases heq
    · exact hlast t j r hold
  · exact honce.cons fun o hconsumes => absurd hconsumes (by simp [consumes])
  · obtain ⟨hactive, hmany⟩ := retireSlot_active w.table ho
    exact (hunconsumed o hactive hmany).cons rfl

theorem move (h : Sound w) (hmove : Move w w') : Sound w' := by
  cases hmove with
  | install i o type resource hi hilt ho holt htype =>
    refine ⟨h.balanced.installAt hi hilt ho holt htype resource, fun j hj => ?_,
      fun t j r hmem => ?_, ?_, fun o' ho' => ?_⟩
    · rw [installAt_generation, retirements_cons_of_not rfl]
      exact h.generations j hj
    · rcases mem_cons.mp hmem with heq | hold
      · cases heq
      · exact h.last t j r hold
    · exact h.once.cons fun o' hconsumes => absurd hconsumes (by simp [consumes])
    · rcases eq_or_ne o' o with rfl | hne
      · exact unconsumed_installed o' w.log
      · have hold : (w.table.objects o').active := by
          simpa [installAt, hne] using ho'
        exact (h.unconsumed o' hold).cons rfl
  | duplicate i source hi hilt hsource =>
    refine ⟨h.balanced.duplicateAt hi hilt hsource, fun j hj => ?_, h.last, h.once, fun o ho => ?_⟩
    · rw [duplicateAt_generation]
      exact h.generations j hj
    · rw [duplicateAt_active] at ho
      exact h.unconsumed o ho
  | retire i hi =>
    exact h.retire_of_log hi (fun _ => rfl) h.last h.once fun o ho _ => h.unconsumed o ho
  | consume i result context hi hlast =>
    obtain ⟨hlast', honce⟩ := h.called hi hlast result
    refine h.retire_of_log hi (fun _ => retirements_cons_of_not rfl _) hlast' honce
      fun o ho hmany => ?_
    -- the object of the slot counts no slot any more, so `o` is another one
    have hne : (w.table.slots i).objectIndex ≠ o := by
      rintro rfl
      have := hmany rfl
      omega
    exact (h.unconsumed o ho).cons (by simp [consumes, hne])
  | keep i result context hi hlast hresult =>
    obtain ⟨hlast', honce⟩ := h.called hi hlast result
    refine ⟨h.balanced, fun j hj => ?_, hlast', honce, fun o ho => ?_⟩
    · exact h.generations j hj
    · exact (h.unconsumed o ho).cons (by simp [consumes, hresult])

theorem moves (h : Sound w) (hmoves : Relation.ReflTransGen Move w w') : Sound w' := by
  induction hmoves with
  | refl => exact h
  | tail _ hlast ih => exact ih.move hlast

end Sound

end Soundness

end OpenRFS.NativeHandle
