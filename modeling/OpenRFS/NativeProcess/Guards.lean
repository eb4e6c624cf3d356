import OpenRFS.NativeProcess.Mappings

/-!
# Guard pages

A guard is a page that MEMORY_MAP found free next to a new mapping. Nothing remembers
it afterwards, so a later mapping may take it unless its own guards keep it at a
distance. `Respects` says of a call that it does: a mapping asks for a guard on the side
on which it could touch another's guard, and a guarded mapping is unmapped as a whole.
-/

namespace OpenRFS.NativeProcess

open Paging List

/-- The guards of the mappings that still have pages are not mapped. -/
def GuardsUnmapped (w : Tracked) : Prop :=
  ∀ h ∈ w.holdings, h.remaining ≠ [] → (h.mapping.guardBefore = true →
      w.state.process.leaves (h.mapping.base - pageSize) = none) ∧
    (h.mapping.guardAfter = true →
      w.state.process.leaves (h.mapping.base + h.mapping.length) = none)

instance (w : Tracked) : Decidable (GuardsUnmapped w) :=
  inferInstanceAs (Decidable (∀ h ∈ w.holdings, _))

def Mapping.guarded (mapping : Mapping) : Bool := mapping.guardBefore || mapping.guardAfter

/-- The call keeps its distance from the guards of the mappings that are there. -/
def Respects (w : Tracked) : MemoryCall → Prop
  | .map input =>
    match input.request with
    | none => True
    | some request =>
      ∀ h ∈ w.holdings, h.remaining ≠ [] →
        (h.mapping.guardAfter = true → request.guardBefore = true) ∧
        (h.mapping.guardBefore = true → request.guardAfter = true)
  | .unmap address length =>
    ∀ h ∈ w.holdings, h.mapping.guarded = true →
      (∀ a ∈ h.remaining, InRange address.toNat length.toNat a) ∨
        ∀ a ∈ h.remaining, ¬ InRange address.toNat length.toNat a

instance (w : Tracked) : (call : MemoryCall) → Decidable (Respects w call)
  | .map ⟨none, _, _⟩ => inferInstanceAs (Decidable True)
  | .map ⟨some _, _, _⟩ => inferInstanceAs (Decidable (∀ h ∈ w.holdings, _))
  | .unmap _ _ => inferInstanceAs (Decidable (∀ h ∈ w.holdings, _))

def Respectful (w : Tracked) : List MemoryCall → Prop
  | [] => True
  | call :: calls => Respects w call ∧ Respectful (w.step call) calls

instance decidableRespectful : (w : Tracked) → (calls : List MemoryCall) →
    Decidable (Respectful w calls)
  | _, [] => inferInstanceAs (Decidable True)
  | w, call :: calls =>
    have := decidableRespectful (w.step call) calls
    inferInstanceAs (Decidable (_ ∧ _))

/-- A guarded mapping is whole, and no record is at its guards. -/
structure Kept (s : State) (h : Holding) : Prop where
  intact : h.Intact
  pos : h.mapping.length ≠ 0
  whole : h.mapping.length % pageSize = 0
  before : h.mapping.guardBefore = true → pageSize ≤ h.mapping.base ∧
    ∀ q ∈ s.process.pages, q.virtualAddress ≠ h.mapping.base - pageSize
  after : h.mapping.guardAfter = true →
    ∀ q ∈ s.process.pages, q.virtualAddress ≠ h.mapping.base + h.mapping.length

def AllKept (w : Tracked) : Prop :=
  ∀ h ∈ w.holdings, h.remaining ≠ [] → h.mapping.guarded = true → Kept w.state h

variable {others : Multiset Hold} {w : Tracked} {s s' : State} {h : Holding}

theorem Kept.ends (hkept : Kept s h) :
    h.mapping.base ∈ h.remaining ∧ h.mapping.base + h.mapping.length - pageSize ∈ h.remaining := by
  have hsplit := Nat.div_add_mod h.mapping.length pageSize
  have hpos := hkept.pos
  rw [hkept.whole] at hsplit
  rw [hkept.intact, mem_pages, mem_pages]
  simp only [pageSize] at *
  exact ⟨⟨0, by omega, by omega⟩, ⟨h.mapping.length / 4096 - 1, by omega, by omega⟩⟩

theorem Mapped.avoids {request : MemoryMapRequest} {base va : ℕ}
    (h : Mapped others s s' request base) (hold : ∀ q ∈ s.process.pages, q.virtualAddress ≠ va)
    (hnew : ∀ j < request.pageCount, base + j * pageSize ≠ va) :
    ∀ q ∈ s'.process.pages, q.virtualAddress ≠ va := by
  obtain ⟨frames, hgrown⟩ := h.pages
  intro q hq
  rcases hgrown.mem.mp hq with hq | hq
  · obtain ⟨j, hj, rfl⟩ := mem_built.mp hq
    exact hnew j hj
  · exact hold q hq

theorem kept_mapped {request : MemoryMapRequest} {base : ℕ} (htracks : Tracks others w)
    (hmapped : Mapped others w.state s' request base) (hh : h ∈ w.holdings)
    (hrespects : (h.mapping.guardAfter → request.guardBefore) ∧
      (h.mapping.guardBefore → request.guardAfter))
    (hkept : Kept w.state h) : Kept s' h := by
  obtain ⟨hfirst, hlast⟩ := hkept.ends
  have hfree := hmapped.free
  -- the pages of the mapping lie outside of the new span and of its guards
  have hout : ∀ {a va}, a ∈ h.remaining → w.state.process.lookup va = none → a ≠ va := by
    intro a va ha hnone
    obtain ⟨q, hq, rfl, -⟩ := htracks.there h hh a ha
    exact htracks.sound.wf.lookup_eq_none.mp hnone q hq
  have hpos := hkept.pos
  have hwhole := hkept.whole
  refine ⟨hkept.intact, hpos, hwhole, fun hguard => ?_, fun hguard => ?_⟩
  · obtain ⟨hbase, hbefore⟩ := hkept.before hguard
    refine ⟨hbase, hmapped.avoids hbefore fun j hj hva => ?_⟩
    -- the page behind is the first of the mapping, and is in the new span or its guard
    have hnext : h.mapping.base = base + (j + 1) * pageSize := by
      rw [add_mul]
      omega
    rcases lt_or_ge (j + 1) request.pageCount with hlt | hge
    · exact hout hfirst (hfree.inside _ hlt) hnext
    · refine hout hfirst (hfree.after (hrespects.2 hguard)) ?_
      rw [hnext, show j + 1 = request.pageCount by omega]
  · refine hmapped.avoids (hkept.after hguard) fun j hj hva => ?_
    cases j with
    | zero =>
      refine hout hlast (hfree.before (hrespects.1 hguard)).2 ?_
      rw [← hva, zero_mul, add_zero]
    | succ j =>
      refine hout hlast (hfree.inside j (by omega)) ?_
      rw [← hva, add_mul]
      omega

theorem kept_new {request : MemoryMapRequest} {base : ℕ} (hwf : s.process.Wf)
    (hmapped : Mapped others s s' request base) :
    Kept s' (.whole (.ofRequest request base request.roundedLength)) := by
  have hfree := hmapped.free
  have hsize : 0 < pageSize := by decide
  refine ⟨rfl, mul_ne_zero hmapped.pos hsize.ne', Nat.mul_mod_left _ _, fun hguard => ?_,
    fun hguard => ?_⟩
  · obtain ⟨hlow, hnone⟩ := hfree.before hguard
    refine ⟨le_trans (Nat.le_add_left _ _) hlow,
      hmapped.avoids (hwf.lookup_eq_none.mp hnone) fun j hj => ?_⟩
    show base + j * pageSize ≠ base - pageSize
    omega
  · refine hmapped.avoids (hwf.lookup_eq_none.mp (hfree.after hguard)) fun j hj => ?_
    have hlt := Nat.mul_lt_mul_of_pos_right hj hsize
    show base + j * pageSize ≠ base + request.pageCount * pageSize
    omega

theorem Kept.mono (hkept : Kept s h)
    (hsub : ∀ q ∈ s'.process.pages, q ∈ s.process.pages) : Kept s' h :=
  ⟨hkept.intact, hkept.pos, hkept.whole,
    fun hguard => ⟨(hkept.before hguard).1, fun q hq => (hkept.before hguard).2 q (hsub q hq)⟩,
    fun hguard q hq => hkept.after hguard q (hsub q hq)⟩

theorem allKept_step {call : MemoryCall} {w' : Tracked} (htracks : Tracks others w)
    (hkept : AllKept w) (hrespects : Respects w call) (hmoved : Moved others w call w') :
    AllKept w' := by
  cases hmoved with
  | refused => exact hkept
  | mapped hrequest hmapped =>
    simp only [Respects, hrequest] at hrespects
    intro h hh hlive hguarded
    rcases mem_cons.mp hh with rfl | hh
    · exact kept_new htracks.sound.wf hmapped
    · exact kept_mapped htracks hmapped hh (hrespects h hh hlive) (hkept h hh hlive hguarded)
  | @unmapped address length s' hrange hswept =>
    intro x hx hlive hguarded
    obtain ⟨h, hh, rfl⟩ := mem_map.mp hx
    rcases hrespects h hh hguarded with hall | hnone
    · -- all of its pages are gone
      refine absurd (eq_nil_iff_forall_not_mem.mpr fun a ha => ?_) hlive
      exact (mem_unmap.mp ha).2 (hall a (mem_unmap.mp ha).1)
    · have hsame : h.unmap address.toNat length.toNat = h := by
        have hremaining : h.remaining.filter
            (fun a => !decide (InRange address.toNat length.toNat a)) = h.remaining :=
          filter_eq_self.mpr fun a ha => by simpa using hnone a ha
        rw [Holding.unmap, hremaining]
      rw [hsame] at hlive ⊢
      exact (hkept h hh hlive hguarded).mono fun q hq => (hswept.mem.mp hq).1

theorem allKept_run (calls : List MemoryCall) (htracks : Tracks others w) (hkept : AllKept w)
    (hrespectful : Respectful w calls) : AllKept (w.run calls) := by
  induction calls generalizing w with
  | nil => exact hkept
  | cons call calls ih =>
    obtain ⟨hcall, hcalls⟩ := hrespectful
    have hmoved := moved_step htracks call
    exact ih (hmoved.tracks htracks) (allKept_step htracks hkept hcall hmoved) hcalls

/-- In a run whose calls keep their distance the guards stay unmapped. -/
theorem guards_unmapped_of_respectful (start : Start) (calls : List MemoryCall)
    (hrespectful : Respectful ⟨start.state, []⟩ calls) : GuardsUnmapped (start.after calls) := by
  have hkept := allKept_run calls (start.tracks []) (fun _ hh => absurd hh not_mem_nil)
    hrespectful
  have hwf := (start.tracks calls).sound.wf
  intro h hh hlive
  refine ⟨fun hguard => ?_, fun hguard => ?_⟩
  · have hh' := hkept h hh hlive (by rw [Mapping.guarded, hguard, Bool.true_or])
    exact hwf.leaves_eq_none fun q hq hva => absurd hva ((hh'.before hguard).2 q hq)
  · have hh' := hkept h hh hlive (by rw [Mapping.guarded, hguard, Bool.or_true])
    exact hwf.leaves_eq_none fun q hq hva => absurd hva (hh'.after hguard q hq)

/-- Two mappings with guards on both sides, the first of which is unmapped again. -/
theorem guards_unmapped_sample :
    Respectful ⟨Start.sample.state, []⟩
      [sampleMap 0 2 12 7, sampleMap 0 1 12 20, .unmap 0x500000001000 8192] ∧
    GuardsUnmapped (Start.sample.after
      [sampleMap 0 2 12 7, sampleMap 0 1 12 20, .unmap 0x500000001000 8192]) := by
  have hrespectful : Respectful ⟨Start.sample.state, []⟩
      [sampleMap 0 2 12 7, sampleMap 0 1 12 20, .unmap 0x500000001000 8192] := by decide +kernel
  exact ⟨hrespectful, guards_unmapped_of_respectful Start.sample _ hrespectful⟩

/-- One page with a guard behind it, and a second mapping without guards: the first fit
is the guard. -/
theorem guard_taken :
    ¬ GuardsUnmapped (Start.sample.after [sampleMap 0 1 8 7, sampleMap 0 1 0 20]) := by
  decide +kernel

end OpenRFS.NativeProcess
