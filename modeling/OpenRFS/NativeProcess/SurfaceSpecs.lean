import OpenRFS.NativeProcess.MemorySpecs
import OpenRFS.NativeProcess.Window

/-!
# Building and releasing a surface

The pages of a surface are built one after the other until one is refused: a frame or
the limit of the manifest for its record, or the leaf. Releasing goes over all pages the
surface should have. It gives every record back, but it reports a failure if a page has
none.
-/

namespace OpenRFS.NativeProcess

open Paging List Process

variable {s s' s₀ : State} {others : Multiset Hold} {page : NativePage} {base : ℕ}

/-! ### Releasing -/

/-- A record whose flag was cleared before is removed all the same. -/
theorem removePageRecord_setMapped (h : s.process.Wf) (hmem : page ∈ s.process.pages)
    (leaves : ℕ → Option Leaf) :
    (setMapped { s.process with leaves := leaves } page.virtualAddress
        false).removePageRecord page.virtualAddress =
      some ({ page with mapped := false }, { s.process.without page with leaves := leaves }) := by
  have hsorted := h.sorted_setMapped page.virtualAddress false
  have hcleared : ({ page with mapped := false } : NativePage) ∈
      (s.process.setMapped page.virtualAddress false).pages :=
    (h.mem_setMapped hmem false).mpr (.inl rfl)
  have hlookup : lookup
      (setMapped { s.process with leaves := leaves } page.virtualAddress false)
        page.virtualAddress = some { page with mapped := false } :=
    (Sorted.lookup_eq_some hsorted).mpr ⟨hcleared, rfl⟩
  have hperm := Sorted.cons_removeAt_perm hsorted hcleared
  have hpages : Sorted.removeAt (s.process.setMapped page.virtualAddress false).pages
      (Sorted.lowerBound NativePage.virtualAddress
        (s.process.setMapped page.virtualAddress false).pages page.virtualAddress) =
      (s.process.without page).pages := by
    have hsame := hperm.trans (Multiset.coe_eq_coe.mp (h.setMapped_pages hmem false))
    exact (hsorted.removeAt _).ext (h.without hmem).sorted fun q => (hsame.cons_inv).mem_iff
  unfold removePageRecord
  rw [hlookup]
  exact congrArg some (Prod.ext rfl (congrArg (fun pages => { s.process with
    pages := pages, leaves := leaves }) hpages))

theorem swept_releaseSurfacePage (h : s.Sound others) (hmem : page ∈ s.process.pages)
    (hkind : page.kind = .nativeSurface) (haligned : page.virtualAddress % pageSize = 0) :
    ∃ s', s.releaseSurfacePage page.virtualAddress = ((true, true), s') ∧
      Swept others (· = page.virtualAddress) s s' := by
  obtain ⟨m, hrelease, hswept⟩ := h.swept hmem (by rw [hkind]; exact nofun)
  refine ⟨_, ?_, hswept⟩
  unfold State.releaseSurfacePage
  rw [pageAt_of_aligned haligned, h.wf.lookup_eq_some.mpr ⟨hmem, rfl⟩]
  dsimp only
  rw [if_neg (not_not_intro hkind)]
  cases hmapped : page.mapped with
  | true =>
    have hunmap := h.wf.unmapUserPage hmem hmapped
    rw [hkind] at hunmap
    rw [if_pos rfl, hunmap]
    simp only [hrelease, removePageRecord_setMapped h.wf hmem]
    rfl
  | false =>
    have hremove : (s.process.setMapped page.virtualAddress false).removePageRecord
        page.virtualAddress = some ({ page with mapped := false }, s.process.without page) := by
      have hsame := removePageRecord_setMapped h.wf hmem s.process.leaves
      rwa [h.wf.without_unmapped hmem hmapped] at hsame
    rw [if_neg Bool.false_ne_true]
    simp only [hrelease, hremove]

theorem releaseSurfacePage_spec (h : s.Sound others) {va : ℕ} (haligned : va % pageSize = 0)
    (hof : ∀ q ∈ s.process.pages, q.virtualAddress = va → q.kind = .nativeSurface) :
    ∃ one any s', s.releaseSurfacePage va = ((one, any), s') ∧ Swept others (· = va) s s' ∧
      (one ↔ ∃ q ∈ s.process.pages, q.virtualAddress = va) := by
  cases hlookup : s.process.lookup va with
  | none =>
    have hnone := h.wf.lookup_eq_none.mp hlookup
    refine ⟨false, false, s, ?_, .refl h hnone, nofun, ?_⟩
    · rw [State.releaseSurfacePage, pageAt_of_aligned haligned, hlookup]
    · rintro ⟨q, hq, hva⟩
      exact absurd hva (hnone q hq)
  | some record =>
    obtain ⟨hmem, rfl⟩ := h.wf.lookup_eq_some.mp hlookup
    obtain ⟨s', hrelease, hswept⟩ := swept_releaseSurfacePage h hmem (hof record hmem rfl) haligned
    exact ⟨true, true, s', hrelease, hswept, fun _ => ⟨record, hmem, rfl⟩, fun _ => rfl⟩

theorem releaseSurfacePages_spec (h : s.Sound others) (haligned : base % pageSize = 0)
    (pages : List ℕ) (hnodup : pages.Nodup)
    (hof : ∀ q ∈ s.process.pages, OnPages base pages q.virtualAddress → q.kind = .nativeSurface) :
    ∃ all any s', s.releaseSurfacePages base pages = ((all, any), s') ∧
      Swept others (OnPages base pages) s s' ∧
      (all ↔ ∀ j ∈ pages, ∃ q ∈ s.process.pages, q.virtualAddress = base + j * pageSize) := by
  induction pages generalizing s with
  | nil =>
    exact ⟨true, false, s, rfl, .refl h fun q _ ⟨_, hj, _⟩ => (nomatch hj), nofun, fun _ => rfl⟩
  | cons j pages ih =>
    obtain ⟨hj, hnodup⟩ := nodup_cons.mp hnodup
    obtain ⟨one, any, s₁, hrelease, hswept, hone⟩ := releaseSurfacePage_spec h
      (aligned_page haligned j) fun q hq hva => hof q hq ⟨j, mem_cons_self, hva⟩
    obtain ⟨all, any', s', hrest, hswept', hall⟩ := ih hswept.sound hnodup fun q hq hon =>
      hof q (hswept.mem.mp hq).1 ((onPages_cons _).mp (.inr hon))
    refine ⟨one && all, any || any', s', ?_, hswept.of_cons hswept', ?_⟩
    · simp only [State.releaseSurfacePages, hrelease, hrest]
    · rw [Bool.and_eq_true, hone, hall, forall_mem_cons]
      refine and_congr_right fun _ => forall₂_congr fun i hi => exists_congr fun q => ?_
      -- the record of another page is still there
      rw [hswept.mem]
      refine ⟨fun ⟨⟨hq, _⟩, hva⟩ => ⟨hq, hva⟩, fun ⟨hq, hva⟩ => ⟨⟨hq, fun hsame => ?_⟩, hva⟩⟩
      exact hj (page_inj (hva.symm.trans hsame) ▸ hi)

/-! ### Building -/

/-- The limit of the manifest and the frame allocator allow this many pages. -/
structure SurfaceGranted (s : State) (answers : PageAnswers) (count : ℕ) : Prop where
  limit : (s.process.pages.length + count) * pageSize ≤ s.process.memoryLimit
  frames : ∀ j < count, ∃ frame, answers.frame j = some frame ∧ frame ∉ s.memory.frames ∧
    ∀ i < j, answers.frame i ≠ some frame

variable {answers : PageAnswers} {count : ℕ}

theorem SurfaceGranted.mono {count' : ℕ} (h : SurfaceGranted s answers count)
    (hle : count' ≤ count) : SurfaceGranted s answers count' :=
  ⟨le_trans (Nat.mul_le_mul_right _ (by omega)) h.limit, fun j hj => h.frames j (by omega)⟩

/-- The pages so far, with the frames that were answered. -/
structure SurfaceBuilt (others : Multiset Hold) (s₀ s : State) (answers : PageAnswers)
    (count : ℕ) : Prop where
  sound : s.Sound others
  granted : SurfaceGranted s₀ answers count
  maps : ∀ j < count, answers.maps j = true
  grown : ∃ frames, Grown s₀ s (built .nativeSurface nativeSurfaceBase frames count) ∧
    ∀ j < count, answers.frame j = some (frames j)

theorem SurfaceBuilt.start (h : s.Sound others) (answers : PageAnswers) :
    SurfaceBuilt others s s answers 0 :=
  ⟨h, ⟨h.wf.limit, nofun⟩, nofun, fun _ => 0, .refl s, nofun⟩

theorem card_built (kind : MappingKind) (base : ℕ) (frames : ℕ → ℕ) (count : ℕ) :
    (built kind base frames count).card = count := by
  rw [built, Multiset.card_map, Multiset.card_range]

theorem Grown.length {extra : Multiset NativePage} (h : Grown s s' extra) :
    s'.process.pages.length = extra.card + s.process.pages.length := by
  have hcard := congrArg Multiset.card h.pages
  rwa [Multiset.coe_card, Multiset.card_add, Multiset.coe_card] at hcard

theorem surface_valid {j : ℕ} (h : j < processPageLimit) :
    mappingRequestValid .nativeSurface (nativeSurfaceBase + j * pageSize) pagingWrite := by
  have hwithin : pageWithin nativeSurfaceBase nativeSurfaceEnd
      (nativeSurfaceBase + j * pageSize) := by
    rw [pageWithin_iff]
    simp only [nativeSurfaceBase, nativeSurfaceEnd, pageSize, processPageLimit] at h ⊢
    omega
  simp [mappingRequestValid, hwithin]

theorem allocatePage_surface {page : ℕ} (h : SurfaceBuilt others s₀ s answers page)
    (hroom : s₀.process.pages.length + page < processPageLimit)
    (hfree : s₀.process.lookup (nativeSurfaceBase + page * pageSize) = none) (hs₀ : s₀.process.Wf)
    (frame : ℕ) :
    (s.allocatePage (nativeSurfaceBase + page * pageSize) pagingWrite .nativeSurface
        (answers.frame page)).1 = some frame ↔
      SurfaceGranted s₀ answers (page + 1) ∧ answers.frame page = some frame := by
  obtain ⟨frames, hgrown, hframes⟩ := h.grown
  have hlength := hgrown.length
  rw [card_built] at hlength
  have hlimit : s.process.memoryLimit = s₀.process.memoryLimit := by
    have heq := congrArg memoryLimit hgrown.frame
    exact heq
  have hadmits : s.process.admits ↔
      (s₀.process.pages.length + (page + 1)) * pageSize ≤ s₀.process.memoryLimit := by
    rw [admits, decide_eq_true_eq, hlimit, hlength,
      show page + s₀.process.pages.length + 1 = s₀.process.pages.length + (page + 1) by omega]
  -- the frames given out are those before and the ones of the pages so far
  have hfresh : ∀ f, f ∉ s.memory.frames ↔
      f ∉ s₀.memory.frames ∧ ∀ i < page, answers.frame i ≠ some f := by
    intro f
    have hmem : f ∈ s.memory.frames ↔ (∃ i < page, frames i = f) ∨ f ∈ s₀.memory.frames := by
      rw [← Finset.mem_val, hgrown.frames, Multiset.mem_add, Finset.mem_val]
      simp [built, builtPage]
    rw [hmem, not_or, and_comm]
    refine and_congr_right fun _ => ⟨fun hnot i hi heq => ?_, ?_⟩
    · rw [hframes i hi] at heq
      exact hnot ⟨i, hi, Option.some.inj heq⟩
    · rintro hnot ⟨i, hi, heq⟩
      exact hnot i hi (by rw [hframes i hi, heq])
  have hlookup : s.process.lookup (nativeSurfaceBase + page * pageSize) = none := by
    refine h.sound.wf.lookup_eq_none.mpr fun q hq hva => ?_
    rcases hgrown.mem.mp hq with hq | hq
    · obtain ⟨j, hj, rfl⟩ := mem_built.mp hq
      exact hj.ne (page_inj hva)
    · exact hs₀.lookup_eq_none.mp hfree q hq hva
  rw [allocatePage_eq_some_iff, hadmits, hfresh]
  constructor
  · rintro ⟨hle, hanswer, ⟨hnew, hdistinct⟩, -, -⟩
    exact ⟨⟨hle, Nat.forall_lt_succ_right.mpr ⟨h.granted.frames, frame, hanswer, hnew, hdistinct⟩⟩,
      hanswer⟩
  · rintro ⟨hgranted, hanswer⟩
    obtain ⟨f, hf, hnew, hdistinct⟩ := hgranted.frames page (Nat.lt_succ_self _)
    rw [hanswer] at hf
    cases hf
    exact ⟨hgranted.limit, hanswer, ⟨hnew, hdistinct⟩, by omega, hlookup⟩

/-- The first `count` pages of a surface have records, mapped or not, and nothing else is
new. -/
structure SurfacePart (others : Multiset Hold) (s₀ s : State) (count : ℕ) : Prop where
  sound : s.Sound others
  grown : ∃ extra, Grown s₀ s extra ∧ (∀ r ∈ extra, r.kind = .nativeSurface ∧
      OnPages nativeSurfaceBase (List.range count) r.virtualAddress) ∧
    ∀ j < count, ∃ r ∈ extra, r.virtualAddress = nativeSurfaceBase + j * pageSize

theorem SurfaceBuilt.part (h : SurfaceBuilt others s₀ s answers count) :
    SurfacePart others s₀ s count := by
  obtain ⟨frames, hgrown, -⟩ := h.grown
  refine ⟨h.sound, _, hgrown, fun r hr => ?_, fun j hj => ⟨_, mem_built.mpr ⟨j, hj, rfl⟩, rfl⟩⟩
  obtain ⟨j, hj, rfl⟩ := mem_built.mp hr
  exact ⟨rfl, j, mem_range.mpr hj, rfl⟩

theorem SurfacePart.succ (h : SurfacePart others s₀ s count) (hsound : s'.Sound others)
    {r : NativePage} (hgrown : Grown s s' {r}) (hkind : r.kind = .nativeSurface)
    (hva : r.virtualAddress = nativeSurfaceBase + count * pageSize) :
    SurfacePart others s₀ s' (count + 1) := by
  obtain ⟨extra, hextra, hin, hall⟩ := h.grown
  refine ⟨hsound, _, hextra.trans hgrown, fun q hq => ?_, Nat.forall_lt_succ_right.mpr
    ⟨fun j hj => ?_, r, Multiset.mem_add.mpr (.inl (Multiset.mem_singleton_self r)), hva⟩⟩
  · rcases Multiset.mem_add.mp hq with hq | hq
    · rw [Multiset.mem_singleton.mp hq]
      exact ⟨hkind, count, self_mem_range_succ, hva⟩
    · obtain ⟨hq, j, hj, hqva⟩ := hin q hq
      exact ⟨hq, j, mem_range.mpr (Nat.lt_succ_of_lt (mem_range.mp hj)), hqva⟩
  · obtain ⟨q, hq, hqva⟩ := hall j hj
    exact ⟨q, Multiset.mem_add.mpr (.inr hq), hqva⟩

/-- Releasing a surface of `count` pages of which only the first `part` have records gives
them all back, and succeeds only if none is missing. -/
theorem SurfacePart.release {part : ℕ} (h : SurfacePart others s₀ s part) (hs₀ : s₀.process.Wf)
    (hle : part ≤ count) (hfree : ∀ q ∈ s₀.process.pages,
      ¬ OnPages nativeSurfaceBase (List.range count) q.virtualAddress) :
    ∃ all any, s.releaseSurfacePages nativeSurfaceBase (List.range count) = ((all, any), s₀) ∧
      (all ↔ part = count) := by
  obtain ⟨extra, hgrown, hin, hall⟩ := h.grown
  have hwiden : ∀ r ∈ extra, OnPages nativeSurfaceBase (List.range count) r.virtualAddress := by
    intro r hr
    obtain ⟨-, j, hj, hva⟩ := hin r hr
    exact ⟨j, mem_range.mpr (lt_of_lt_of_le (mem_range.mp hj) hle), hva⟩
  obtain ⟨all, any, s', hrelease, hswept, hiff⟩ := releaseSurfacePages_spec h.sound (by decide)
    (List.range count) nodup_range fun q hq hon =>
      (hgrown.mem.mp hq).elim (fun hr => (hin q hr).1) fun hq => absurd hon (hfree q hq)
  rw [hswept.restores hgrown hs₀ hwiden hfree] at hrelease
  refine ⟨all, any, hrelease, hiff.trans ⟨fun hevery => ?_, ?_⟩⟩
  · -- the page after the last record would have one too
    by_contra hne
    have hlt : part < count := lt_of_le_of_ne hle hne
    obtain ⟨q, hq, hva⟩ := hevery part (mem_range.mpr hlt)
    rcases hgrown.mem.mp hq with hq | hq
    · obtain ⟨-, j, hj, hqva⟩ := hin q hq
      exact (mem_range.mp hj).ne (page_inj (hqva.symm.trans hva))
    · exact hfree q hq ⟨part, mem_range.mpr hlt, hva⟩
  · rintro rfl j hj
    obtain ⟨r, hr, hva⟩ := hall j (mem_range.mp hj)
    exact ⟨r, hgrown.mem.mpr (.inl hr), hva⟩

/-- How the pages of a surface were not all built: the leaf of page `k` was refused after
its record was made, or there was no record for page `k`. -/
inductive SurfaceRefused (s₀ : State) (answers : PageAnswers) (k : ℕ) : ℕ → Prop
  | map : SurfaceGranted s₀ answers (k + 1) → (∀ j < k, answers.maps j = true) →
      answers.maps k = false → SurfaceRefused s₀ answers k (k + 1)
  | page : ¬ SurfaceGranted s₀ answers (k + 1) → SurfaceRefused s₀ answers k k

/-- The loop builds the whole surface, or it stops at a page with what there is so far. -/
theorem buildSurface_cases (hs₀ : s₀.process.Wf)
    (hroom : s₀.process.pages.length + count ≤ processPageLimit) (hfree : ∀ q ∈ s₀.process.pages,
      ¬ OnPages nativeSurfaceBase (List.range count) q.virtualAddress) (left page : ℕ)
    (hcount : page + left = count) (h : SurfaceBuilt others s₀ s answers page) :
    (∃ s', s.buildSurface answers page left = (true, s') ∧
      SurfaceBuilt others s₀ s' answers count) ∨
    ∃ k part s', k < count ∧ s.buildSurface answers page left = (false, s') ∧
      SurfaceRefused s₀ answers k part ∧ SurfacePart others s₀ s' part := by
  induction left generalizing s page with
  | zero => exact .inl ⟨s, rfl, by rwa [← hcount]⟩
  | succ left ih =>
    have hlt : page < count := by omega
    have hpage : page < processPageLimit := by omega
    have hlookup : s₀.process.lookup (nativeSurfaceBase + page * pageSize) = none :=
      hs₀.lookup_eq_none.mpr fun q hq hva => hfree q hq ⟨page, mem_range.mpr hlt, hva⟩
    have hgranted := allocatePage_surface h (by omega) hlookup hs₀
    unfold State.buildSurface
    rcases buildPage_cases h.sound .nativeSurface (nativeSurfaceBase + page * pageSize)
      (answers.frame page) (answers.maps page) with
      ⟨hbuild, hnone⟩ | ⟨frame, s₁, hsome, hsound, ⟨hbuild, hmaps, hgrown⟩ | ⟨hbuild, hmaps, hgrown⟩⟩
    · rw [hbuild]
      refine .inr ⟨page, page, s, hlt, rfl, .page fun hmore => ?_, h.part⟩
      obtain ⟨frame, hframe, -⟩ := hmore.frames page (Nat.lt_succ_self page)
      have hsome := (hgranted frame).mpr ⟨hmore, hframe⟩
      rw [hnone] at hsome
      cases hsome
    · rw [hbuild]
      rw [surface_valid hpage, Bool.and_true] at hmaps
      exact .inr ⟨page, page + 1, s₁, hlt, rfl, .map ((hgranted frame).mp hsome).1 h.maps hmaps,
        h.part.succ hsound hgrown rfl rfl⟩
    · rw [hbuild]
      rw [surface_valid hpage, Bool.and_true] at hmaps
      obtain ⟨hmore, hframe⟩ := (hgranted frame).mp hsome
      obtain ⟨frames, hsofar, hframes⟩ := h.grown
      have hnext := hsofar.trans hgrown
      rw [built_succ] at hnext
      refine ih (page + 1) (by omega) ⟨hsound, hmore, Nat.forall_lt_succ_right.mpr ⟨h.maps, hmaps⟩, _,
        hnext, Nat.forall_lt_succ_right.mpr ⟨fun j hj => ?_, ?_⟩⟩
      · rw [Function.update_of_ne hj.ne, hframes j hj]
      · rw [Function.update_self, hframe]

end OpenRFS.NativeProcess
