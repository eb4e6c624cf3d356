import OpenRFS.PackageUpload.Sealed

/-!
# The life of a token

A token is issued by an open and is good for its owner until a close of it is
consumed. The open counts the generation of its slot, so with fewer than `2 ^ 32 - 1`
reuses of a slot no token is issued twice. A close poisons the slot before its first
step, and a poisoned slot changes only by further steps of closes: what a close has
taken back stays taken back.
-/

namespace OpenRFS.PackageUpload

open State

open Volume (FsStatus)

variable {i : Fin slotLimit}

/-! ### What the events say -/

def Event.issued (e : Event) : Option ℕ :=
  match e.request with
  | .openUpload _ => if e.answer.status = .ok then some e.answer.report.token else none
  | _ => none

/-- The tokens issued, in order. -/
def issuedTokens (events : List Event) : List ℕ := events.filterMap Event.issued

def opens (i : Fin slotLimit) (events : List Event) : ℕ :=
  (issuedTokens events).countP fun token => token % 2 ^ 32 = i.val + 1

/-- How often a slot was opened again. -/
def reuses (i : Fin slotLimit) (events : List Event) : ℕ := opens i events - 1

def Event.Accepted (e : Event) : Prop := e.contended = false ∧ e.answer.status.Accepts

def heldNext (token : ℕ) (held : Option ℕ) (e : Event) : Option ℕ :=
  match e.request with
  | .openUpload owner =>
    if e.answer.status = .ok ∧ e.answer.report.token = token then some owner else held
  | .close _ t => if t = token ∧ e.answer.consumed = true then none else held
  | _ => held

def holder (token : ℕ) (events : List Event) : Option ℕ := events.foldl (heldNext token) none

@[simp] theorem holder_concat (token : ℕ) (events : List Event) (e : Event) :
    holder token (events ++ [e]) = heldNext token (holder token events) e := by
  simp [holder]

@[simp] theorem issuedTokens_concat (events : List Event) (e : Event) :
    issuedTokens (events ++ [e]) = issuedTokens events ++ e.issued.toList := by
  cases h : e.issued <;> simp [issuedTokens, h]

theorem opens_concat (i : Fin slotLimit) (events : List Event) (e : Event) :
    opens i (events ++ [e]) =
      opens i events + e.issued.toList.countP fun token => token % 2 ^ 32 = i.val + 1 := by
  simp [opens]

theorem opens_le_append (i : Fin slotLimit) (events later : List Event) :
    opens i events ≤ opens i (events ++ later) := by
  simp [opens, issuedTokens]

theorem opens_of_issued {e : Event} {g : ℕ} (h : e.issued = some (encodeToken i g))
    (j : Fin slotLimit) (events : List Event) :
    opens j (events ++ [e]) = opens j events + if j = i then 1 else 0 := by
  rw [opens_concat, h]
  simp only [Option.toList_some, List.countP_singleton, encodeToken_mod]
  by_cases hj : j = i
  · simp [hj]
  · have hij : ¬i = j := fun heq => hj heq.symm
    simp [hj, hij, Fin.val_inj]

/-! ### The moves of a slot -/

variable {events : List Event} {s s' : State} {e : Event}

/-- What a request does to the slots, as far as tokens are concerned. -/
inductive Move (s : State) (e : Event) : State → Prop
  | stay (unissued : e.issued = none) (kept : e.answer.consumed = false) : Move s e s
  | ready (cold : s.initialized = false) (request : e.request = .initializeUploads) :
      Move s e s.ready
  | opened {owner : ℕ} {i : Fin slotLimit} (initialized : s.initialized = true)
      (owner_ne : owner ≠ 0) (free : (s.slots i).active = false)
      (request : e.request = .openUpload owner) (status : e.answer.status = .ok)
      (token : e.answer.report.token = encodeToken i (s.slots i).generation) :
      Move s e (s.put i (openedSlot s i owner))
  | changed {owner token : ℕ} {i : Fin slotLimit} {slot' : Slot}
      (target : e.request.target = some (owner, token)) (slot : s.Holds owner token i)
      (kept : e.answer.consumed = false)
      (generation : slot'.generation = (s.slots i).generation) (active : slot'.active = true)
      (owned : slot'.owner = (s.slots i).owner)
      (cleanup : slot'.inodeBoundCleanup = (s.slots i).inodeBoundCleanup)
      (bound : (s.slots i).inodeBoundCleanup = true →
        ((s.slots i).filePresent = true → (s.slots i).fileOpen = true) →
          slot'.filePresent = true → slot'.fileOpen = true)
      (spent : (s.slots i).poisoned = true → CloseSteps (closingSlot (s.slots i)) e.log slot') :
      Move s e (s.put i slot')
  | released {owner token : ℕ} {i : Fin slotLimit} {slot' : Slot}
      (request : e.request = .close owner token) (slot : s.Holds owner token i)
      (consumed : e.answer.consumed = true)
      (generation : slot'.generation = (s.slots i).generation) :
      Move s e (s.put i (releaseSlot slot'))

variable {owner token : ℕ}

theorem issued_of_target (h : e.request.target = some (owner, token)) : e.issued = none := by
  unfold Event.issued
  split
  · rename_i hq
    rw [hq] at h
    cases h
  · rfl

theorem Step.move (hidle : s.servicing = false) (hstep : Step s e s') : Move s e s' := by
  cases hstep with
  | contended request =>
    refine .stay ?_ rfl
    unfold Event.issued
    split <;> rfl
  | @served _ q log a hanswered =>
    cases served_of_answered hidle hanswered with
    | turnedAway blank unopened unresolved =>
      refine .stay ?_ blank.kept
      unfold Event.issued
      split
      · rename_i owner hq
        exact if_neg (unopened owner hq)
      · rfl
    | ready cold blank => exact .ready cold rfl
    | opened initialized owner_ne free => exact .opened initialized owner_ne free rfl rfl rfl
    | shown target slot accepts good no_close => exact .stay (issued_of_target target) rfl
    | readBack slot readable bytes => exact .stay rfl rfl
    | wrote slot growing total_le appends accepts =>
      rw [appends.frame]
      exact .changed rfl slot rfl rfl slot.active rfl rfl (fun _ hheld => hheld)
        fun hpoisoned => absurd hpoisoned (by simp [growing.clean])
    | sealRefused slot growing accepts status_ne | sealedUp slot growing =>
      exact .changed rfl slot rfl rfl slot.active rfl rfl (fun _ hheld => hheld)
        fun hpoisoned => absurd hpoisoned (by simp [growing.clean])
    | closing slot work ended =>
      have hframe := work.steps.frame
      cases ended with
      | kept hstatus hfailed =>
        refine .changed rfl slot rfl ?_ ?_ ?_ ?_ (fun hbound hheld => (work.bound hbound hheld).2)
          fun _ => work.steps
        · rw [hframe]
          rfl
        · rw [hframe]
          exact slot.active
        · rw [hframe]
          rfl
        · rw [hframe]
          rfl
      | released hstatus =>
        refine .released rfl slot rfl ?_
        rw [hframe]
        rfl

/-! ### Generations count the opens -/

def nextGeneration (n : ℕ) : ℕ := if n + 1 = 2 ^ 32 then 1 else n + 1

theorem nextGeneration_of_lt {n : ℕ} (h : n + 1 ≤ 2 ^ 32 - 1) : nextGeneration n = n + 1 :=
  if_neg (by omega)

theorem releaseSlot_generation {slot : Slot} (h : slot.generation ≤ 2 ^ 32 - 1) :
    (releaseSlot slot).generation = nextGeneration slot.generation := by
  show (if (slot.generation + 1) % 2 ^ 32 = 0 then 1 else (slot.generation + 1) % 2 ^ 32) = _
  unfold nextGeneration
  split_ifs <;> omega

structure Counted (events : List Event) (s : State) : Prop where
  idle : s.servicing = false
  cold : s.initialized = false → issuedTokens events = [] ∧ ∀ i, (s.slots i).active = false
  active : ∀ i, (s.slots i).active = true →
    (s.slots i).generation = opens i events ∧ opens i events ≠ 0 ∧ (s.slots i).owner ≠ 0
  free : s.initialized = true → ∀ i, (s.slots i).active = false →
    (s.slots i).generation = nextGeneration (opens i events)
  issued : ∀ token ∈ issuedTokens events, ∃ i g, token = encodeToken i g ∧ g ≤ opens i events
  nodup : (issuedTokens events).Nodup

namespace Counted

theorem start (atomicReplace : Bool) : Counted [] (.cold atomicReplace) where
  idle := rfl
  cold _ := ⟨rfl, fun _ => rfl⟩
  active i h := by cases h
  free h := by cases h
  issued := by simp [issuedTokens]
  nodup := by simp [issuedTokens]

variable (h : Counted events s)
include h

theorem initialized (hactive : (s.slots i).active) : s.initialized := by
  by_contra hcold
  have hfree := (h.cold (by simpa using hcold)).2 i
  rw [hactive] at hfree
  cases hfree

/-- The open slots hold exactly their own tokens. -/
theorem holds (hactive : (s.slots i).active) :
    s.Holds (s.slots i).owner (encodeToken i (s.slots i).generation) i := by
  obtain ⟨hgeneration, hopens, howner⟩ := h.active i hactive
  exact ⟨h.initialized hactive, howner, hactive, rfl, rfl, hgeneration ▸ hopens⟩

theorem unissued (hnone : e.issued = none)
    (hidle : s'.servicing = s.servicing) (hinit : s'.initialized = s.initialized)
    (hface : ∀ i, (s'.slots i).active = (s.slots i).active ∧
      (s'.slots i).generation = (s.slots i).generation ∧ (s'.slots i).owner = (s.slots i).owner) :
    Counted (events ++ [e]) s' := by
  have hissued : issuedTokens (events ++ [e]) = issuedTokens events := by simp [hnone]
  have hopens (i : Fin slotLimit) : opens i (events ++ [e]) = opens i events := by
    simp [opens_concat, hnone]
  refine ⟨hidle.trans h.idle, ?_, ?_, ?_, ?_, ?_⟩
  · intro hcold
    obtain ⟨hnil, hfree⟩ := h.cold (hinit ▸ hcold)
    exact ⟨hissued.trans hnil, fun i => (hface i).1.trans (hfree i)⟩
  · intro i hactive
    rw [hopens, (hface i).2.1, (hface i).2.2]
    exact h.active i ((hface i).1 ▸ hactive)
  · intro hready i hfree
    rw [hopens, (hface i).2.1]
    exact h.free (hinit ▸ hready) i ((hface i).1 ▸ hfree)
  · simpa only [hissued, hopens] using h.issued
  · rw [hissued]
    exact h.nodup

theorem made_ready (hcold : s.initialized = false)
    (hrequest : e.request = .initializeUploads) : Counted (events ++ [e]) s.ready := by
  have hnone : e.issued = none := by simp [Event.issued, hrequest]
  have hissued : issuedTokens (events ++ [e]) = [] := by simp [hnone, (h.cold hcold).1]
  have hopens (i : Fin slotLimit) : opens i (events ++ [e]) = 0 := by simp [opens, hissued]
  refine ⟨h.idle, nofun, fun i => nofun, fun _ i _ => ?_, by simp [hissued], by simp [hissued]⟩
  rw [hopens]
  rfl

theorem put_opened (hinit : s.initialized) (howner : owner ≠ 0)
    (hfree : (s.slots i).active = false)
    (hissue : e.issued = some (encodeToken i (s.slots i).generation))
    (hlimit : opens i (events ++ [e]) ≤ 2 ^ 32 - 1) :
    Counted (events ++ [e]) (s.put i (openedSlot s i owner)) := by
  have hopens := fun j => opens_of_issued hissue j events
  have hgeneration : (s.slots i).generation = opens i events + 1 := by
    rw [h.free hinit i hfree]
    refine nextGeneration_of_lt ?_
    simpa [hopens] using hlimit
  have hfresh : encodeToken i (s.slots i).generation ∉ issuedTokens events := by
    intro hmem
    obtain ⟨j, g, heq, hle⟩ := h.issued _ hmem
    obtain ⟨rfl, rfl⟩ := encodeToken_inj heq
    omega
  refine ⟨h.idle, fun hcold => ?_, ?_, ?_, ?_, ?_⟩
  · cases hcold.symm.trans hinit
  · intro j hactive
    by_cases hj : j = i
    · subst hj
      rw [put_self, hopens, if_pos rfl]
      exact ⟨hgeneration, by omega, howner⟩
    · rw [put_of_ne _ _ hj] at hactive ⊢
      rw [hopens, if_neg hj]
      exact h.active j hactive
  · intro hready j hinactive
    by_cases hj : j = i
    · subst hj
      rw [put_self] at hinactive
      cases hinactive
    · rw [put_of_ne _ _ hj] at hinactive ⊢
      rw [hopens, if_neg hj]
      exact h.free hready j hinactive
  · intro token hmem
    rw [issuedTokens_concat, hissue] at hmem
    rcases List.mem_append.mp hmem with hmem | hmem
    · obtain ⟨j, g, heq, hle⟩ := h.issued token hmem
      exact ⟨j, g, heq, hle.trans (by rw [hopens]; omega)⟩
    · obtain rfl := List.mem_singleton.mp hmem
      exact ⟨i, _, rfl, by rw [hopens, if_pos rfl, hgeneration]⟩
  · rw [issuedTokens_concat, hissue]
    refine List.Nodup.append h.nodup (by simp) ?_
    simpa using hfresh

theorem put_released {slot' : Slot} (hnone : e.issued = none) (hactive : (s.slots i).active)
    (hgeneration : slot'.generation = (s.slots i).generation)
    (hlimit : opens i events ≤ 2 ^ 32 - 1) :
    Counted (events ++ [e]) (s.put i (releaseSlot slot')) := by
  have hissued : issuedTokens (events ++ [e]) = issuedTokens events := by simp [hnone]
  have hopens (j : Fin slotLimit) : opens j (events ++ [e]) = opens j events := by
    simp [opens_concat, hnone]
  have hinit := h.initialized hactive
  have hcount := (h.active i hactive).1
  refine ⟨h.idle, fun hcold => ?_, ?_, ?_, ?_, ?_⟩
  · cases hcold.symm.trans hinit
  · intro j hj
    by_cases hij : j = i
    · subst hij
      rw [put_self] at hj
      cases hj
    · rw [put_of_ne _ _ hij] at hj ⊢
      rw [hopens]
      exact h.active j hj
  · intro hready j hj
    by_cases hij : j = i
    · subst hij
      rw [put_self, hopens, releaseSlot_generation (by omega), hgeneration, hcount]
    · rw [put_of_ne _ _ hij] at hj ⊢
      rw [hopens]
      exact h.free hready j hj
  · simpa only [hissued, hopens] using h.issued
  · rw [hissued]
    exact h.nodup

theorem step (hmove : Move s e s')
    (hlimit : ∀ i, opens i (events ++ [e]) ≤ 2 ^ 32 - 1) : Counted (events ++ [e]) s' := by
  cases hmove with
  | stay hnone hkept => exact h.unissued hnone rfl rfl fun _ => ⟨rfl, rfl, rfl⟩
  | ready hcold hrequest => exact h.made_ready hcold hrequest
  | @opened owner i hinit howner hfree hrequest hstatus htoken =>
    refine h.put_opened hinit howner hfree ?_ (hlimit i)
    simp [Event.issued, hrequest, hstatus, htoken]
  | @changed owner token i slot' htarget hslot hkept hgeneration hactive howned =>
    refine h.unissued (issued_of_target htarget) rfl rfl fun j => ?_
    by_cases hj : j = i
    · subst hj
      rw [put_self]
      exact ⟨hactive.trans hslot.active.symm, hgeneration, howned⟩
    · rw [put_of_ne _ _ hj]
      exact ⟨rfl, rfl, rfl⟩
  | released hrequest hslot hconsumed hgeneration =>
    refine h.put_released ?_ hslot.active hgeneration ?_
    · simp [Event.issued, hrequest]
    · exact (opens_le_append _ events [e]).trans (hlimit _)

end Counted

/-! ### The holders of tokens -/

theorem State.Holds.index_eq {owner' : ℕ} {i j : Fin slotLimit} (h : s.Holds owner token i)
    (h' : s.Holds owner' token j) : i = j :=
  (encodeToken_inj (h.token_eq.symm.trans h'.token_eq)).1

theorem holds_put_of_ne {i j : Fin slotLimit} {slot : Slot} (hj : j ≠ i) :
    (s.put i slot).Holds owner token j ↔ s.Holds owner token j := by
  rw [State.holds_iff, State.holds_iff, put_of_ne _ _ hj]
  rfl

/-- The events and the slots agree on who holds a token. -/
def Tenure (events : List Event) (s : State) : Prop :=
  ∀ token owner, holder token events = some owner ↔ ∃ i, s.Holds owner token i

theorem heldNext_eq_self {held : Option ℕ} (hissued : e.issued ≠ some token)
    (hclose : ∀ owner t, e.request = .close owner t → t = token → e.answer.consumed = false) :
    heldNext token held e = held := by
  unfold heldNext
  split
  · rename_i owner hq
    refine if_neg fun h => hissued ?_
    simp [Event.issued, hq, h.1, h.2]
  · rename_i owner t hq
    refine if_neg fun h => ?_
    cases h.2.symm.trans (hclose owner t hq h.1)
  · rfl

theorem Tenure.opened (h : Tenure events s) (hcounted : Counted (events ++ [e]) s')
    (hfree : (s.slots i).active = false) (hs' : s' = s.put i (openedSlot s i owner))
    (hrequest : e.request = .openUpload owner) (hstatus : e.answer.status = .ok)
    (htoken : e.answer.report.token = encodeToken i (s.slots i).generation) :
    Tenure (events ++ [e]) s' := by
  have hself : s'.Holds owner (encodeToken i (s.slots i).generation) i := by
    have hslot : s'.slots i = openedSlot s i owner := by rw [hs', put_self]
    have hactive : (s'.slots i).active := by rw [hslot]; rfl
    have hholds := hcounted.holds hactive
    rw [hslot] at hholds
    exact hholds
  intro token o
  rw [holder_concat]
  by_cases hnew : token = encodeToken i (s.slots i).generation
  · have hnext : heldNext token (holder token events) e = some owner := by
      simp [heldNext, hrequest, hstatus, htoken, hnew]
    rw [hnext, hnew]
    constructor
    · intro heq
      cases heq
      exact ⟨i, hself⟩
    · rintro ⟨j, hj⟩
      obtain rfl := hself.index_eq hj
      rw [← hself.owned, ← hj.owned]
  · rw [heldNext_eq_self (by simpa [Event.issued, hrequest, hstatus, htoken] using Ne.symm hnew)
      (by simp [hrequest]), h token o]
    refine exists_congr fun j => ?_
    by_cases hj : j = i
    · subst hj
      constructor
      · intro hholds
        cases hholds.active.symm.trans hfree
      · intro hholds
        exact absurd (hholds.token_eq.trans hself.token_eq.symm) hnew
    · rw [hs', holds_put_of_ne hj]

theorem Tenure.step (h : Tenure events s) (hcounted : Counted (events ++ [e]) s')
    (hmove : Move s e s') : Tenure (events ++ [e]) s' := by
  cases hmove with
  | stay hnone hkept =>
    intro token owner
    rw [holder_concat, heldNext_eq_self (by simp [hnone]) fun _ _ _ _ => hkept]
    exact h token owner
  | ready hcold hrequest =>
    intro token owner
    rw [holder_concat, heldNext_eq_self (by simp [Event.issued, hrequest]) (by simp [hrequest]),
      h token owner]
    constructor
    · rintro ⟨i, hholds⟩
      cases hholds.initialized.symm.trans hcold
    · rintro ⟨i, hholds⟩
      cases hholds.active
  | opened hinit howner hfree hrequest hstatus htoken =>
    exact h.opened hcounted hfree rfl hrequest hstatus htoken
  | @changed _ _ i slot' htarget hslot hkept hgeneration hactive howned =>
    intro token owner
    rw [holder_concat,
      heldNext_eq_self (by simp [issued_of_target htarget]) fun _ _ _ _ => hkept, h token owner]
    refine exists_congr fun j => ?_
    by_cases hj : j = i
    · rw [hj, State.holds_iff, State.holds_iff, put_self, hgeneration, howned, hactive, hslot.active]
      rfl
    · rw [holds_put_of_ne hj]
  | @released o t i slot' hrequest hslot hconsumed hgeneration =>
    intro token owner
    have hnone : e.issued = none := by simp [Event.issued, hrequest]
    have hgone : ¬(s.put i (releaseSlot slot')).Holds owner token i := by
      intro hholds
      have hactive := hholds.active
      rw [put_self] at hactive
      cases hactive
    rw [holder_concat]
    by_cases htoken : t = token
    · subst htoken
      have hnext : heldNext t (holder t events) e = none := by
        simp [heldNext, hrequest, hconsumed]
      rw [hnext]
      refine ⟨nofun, ?_⟩
      rintro ⟨j, hholds⟩
      by_cases hj : j = i
      · exact absurd (hj ▸ hholds) hgone
      · exact absurd (((holds_put_of_ne hj).mp hholds).index_eq hslot) hj
    · rw [heldNext_eq_self (by simp [hnone]) ?_, h token owner]
      · refine exists_congr fun j => ?_
        by_cases hj : j = i
        · subst hj
          refine ⟨fun hholds => ?_, fun hholds => absurd hholds hgone⟩
          exact absurd (hslot.token_eq.trans hholds.token_eq.symm) htoken
        · rw [holds_put_of_ne hj]
      · intro o' t' hq ht
        rw [hrequest] at hq
        cases hq
        exact absurd ht htoken

end OpenRFS.PackageUpload
