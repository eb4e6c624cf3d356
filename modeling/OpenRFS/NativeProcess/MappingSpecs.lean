import OpenRFS.NativeProcess.MemoryCalls
import OpenRFS.NativeProcess.PageSpecs

/-!
# Building a mapping and sweeping it away

A loop that builds pages adds exactly these pages, or ends in the state it began in. A
loop that removes pages, be it a rollback or an unmap, leaves no record at the
addresses it went over and all others alone (`Swept`). If one has built pages where no
record was, then what is swept away is what was built.
-/

namespace OpenRFS.NativeProcess

open Paging List Process

variable {s s' s₀ : State} {others : Multiset Hold} {page : NativePage} {kind : MappingKind}
  {extra : Multiset NativePage} {A B : ℕ → Prop} {base : ℕ}

/-- The records at the addresses `A` are gone, with their frames. -/
structure Swept (others : Multiset Hold) (A : ℕ → Prop) (s s' : State) : Prop where
  sound : s'.Sound others
  removed : ∃ removed, Grown s' s removed ∧ ∀ r ∈ removed, A r.virtualAddress
  clear : ∀ q ∈ s'.process.pages, ¬ A q.virtualAddress

theorem Grown.mem (h : Grown s s' extra) {q : NativePage} :
    q ∈ s'.process.pages ↔ q ∈ extra ∨ q ∈ s.process.pages := by
  rw [← Multiset.mem_coe, h.pages, Multiset.mem_add, Multiset.mem_coe]

theorem Swept.mem (h : Swept others A s s') {q : NativePage} :
    q ∈ s'.process.pages ↔ q ∈ s.process.pages ∧ ¬ A q.virtualAddress := by
  obtain ⟨removed, hgrown, hremoved⟩ := h.removed
  rw [hgrown.mem]
  constructor
  · exact fun hq => ⟨.inr hq, h.clear q hq⟩
  · rintro ⟨hq | hq, hA⟩
    · exact absurd (hremoved q hq) hA
    · exact hq

theorem Swept.refl (h : s.Sound others) (hA : ∀ q ∈ s.process.pages, ¬ A q.virtualAddress) :
    Swept others A s s :=
  ⟨h, ⟨0, .refl s, fun _ hr => absurd hr (Multiset.notMem_zero _)⟩, hA⟩

theorem Swept.trans {s'' : State} (h : Swept others A s s') (h' : Swept others B s' s'') :
    Swept others (fun va => A va ∨ B va) s s'' := by
  obtain ⟨removed, hgrown, hremoved⟩ := h.removed
  obtain ⟨removed', hgrown', hremoved'⟩ := h'.removed
  refine ⟨h'.sound, ⟨removed + removed', hgrown'.trans hgrown, fun r hr => ?_⟩, fun q hq hA => ?_⟩
  · exact (Multiset.mem_add.mp hr).imp (hremoved r) (hremoved' r)
  · obtain ⟨hq', hB⟩ := h'.mem.mp hq
    exact hA.elim (h.clear q hq') hB

theorem Swept.congr (h : Swept others A s s') (hAB : ∀ va, A va ↔ B va) : Swept others B s s' := by
  obtain ⟨removed, hgrown, hremoved⟩ := h.removed
  exact ⟨h.sound, ⟨removed, hgrown, fun r hr => (hAB _).mp (hremoved r hr)⟩,
    fun q hq hB => h.clear q hq ((hAB _).mpr hB)⟩

theorem Swept.restores (h : Swept others A s s') (hgrown : Grown s₀ s extra) (hs₀ : s₀.process.Wf)
    (hextra : ∀ r ∈ extra, A r.virtualAddress)
    (hfree : ∀ q ∈ s₀.process.pages, ¬ A q.virtualAddress) : s' = s₀ := by
  classical
  obtain ⟨removed, hremoved, hin⟩ := h.removed
  have hsame := hgrown.pages.symm.trans hremoved.pages
  -- both are the records of `s` at the addresses
  have hall : ∀ {l : Multiset NativePage}, (∀ r ∈ l, A r.virtualAddress) →
      l.filter (fun r => A r.virtualAddress) = l := Multiset.filter_eq_self.mpr
  have hnone : ∀ {l : List NativePage}, (∀ r ∈ l, ¬ A r.virtualAddress) →
      (l : Multiset NativePage).filter (fun r => A r.virtualAddress) = 0 := fun hl =>
    Multiset.filter_eq_nil.mpr hl
  have heq : extra = removed := by
    have hfilter := congrArg (Multiset.filter fun r => A r.virtualAddress) hsame
    rwa [Multiset.filter_add, Multiset.filter_add, hall hextra, hall hin, hnone hfree,
      hnone h.clear, add_zero, add_zero] at hfilter
  subst heq
  have hzero : Grown s₀ s' 0 := Grown.cancel (by rwa [add_zero]) hremoved
  exact hzero.eq_of_zero hs₀ h.sound.wf

/-! ### One page less -/

theorem isAnonymous_iff (h : s.process.Wf) {va : ℕ} (haligned : va % pageSize = 0) :
    s.process.isAnonymous va ↔
      ∃ q ∈ s.process.pages, q.virtualAddress = va ∧ q.mapped ∧ q.kind = .nativeAnon := by
  unfold isAnonymous
  rw [pageAt_of_aligned haligned]
  cases hlookup : s.process.lookup va with
  | none =>
    refine ⟨nofun, ?_⟩
    rintro ⟨q, hq, hva, -⟩
    exact absurd hva (h.lookup_eq_none.mp hlookup q hq)
  | some record =>
    obtain ⟨hmem, hva⟩ := h.lookup_eq_some.mp hlookup
    simp only [Bool.and_eq_true, decide_eq_true_eq]
    constructor
    · exact fun ⟨hmapped, hkind⟩ => ⟨record, hmem, hva, hmapped, hkind⟩
    · rintro ⟨q, hq, hqva, hrest⟩
      rwa [h.sorted.eq_of_key hmem hq (hva.trans hqva.symm)]

variable (h : s.Sound others)
include h

variable (hmem : page ∈ s.process.pages)
include hmem

theorem State.Sound.swept (hkind : page.kind ≠ .nativeImage) :
    ∃ m, s.memory.releasePageFrame page = some m ∧
      Swept others (· = page.virtualAddress) s ⟨m, s.process.without page⟩ := by
  obtain ⟨m, hrelease, hsound, hgrown⟩ := h.without hmem
  have hprivate : page.sharedCodeSlot = none := by
    by_contra hshared
    exact hkind (h.wf.shared page hmem hshared)
  refine ⟨m, hrelease, hsound, ⟨{page}, hgrown hprivate, fun r hr => ?_⟩, fun q hq hva => ?_⟩
  · rw [Multiset.mem_singleton.mp hr]
  · exact ((h.wf.mem_without hmem).mp hq).2 hva

theorem releaseRecord_eq
    (leaves : ℕ → Option Leaf) {m : Memory} (hrelease : s.memory.releasePageFrame page = some m) :
    State.releaseRecord ⟨s.memory, { s.process with leaves := leaves }⟩ page.virtualAddress =
      (true, ⟨m, { s.process.without page with leaves := leaves }⟩) := by
  unfold State.releaseRecord
  rw [h.wf.removePageRecord hmem]
  simp only [hrelease]

theorem releaseRecord_unmapped
    (hmapped : page.mapped = false) {m : Memory}
    (hrelease : s.memory.releasePageFrame page = some m) :
    s.releaseRecord page.virtualAddress = (true, ⟨m, s.process.without page⟩) := by
  have heq := releaseRecord_eq h hmem s.process.leaves hrelease
  rwa [h.wf.without_unmapped hmem hmapped] at heq

omit hmem

theorem swept_rollbackPage (hkind : kind ≠ .nativeImage) {va : ℕ} (haligned : va % pageSize = 0)
    (hof : ∀ q ∈ s.process.pages, q.virtualAddress = va → q.kind = kind) :
    Swept others (· = va) s (s.rollbackPage kind va) := by
  unfold State.rollbackPage
  rw [pageAt_of_aligned haligned]
  cases hlookup : s.process.lookup va with
  | none => exact .refl h fun q hq => h.wf.lookup_eq_none.mp hlookup q hq
  | some record =>
    obtain ⟨hmem, rfl⟩ := h.wf.lookup_eq_some.mp hlookup
    have hrecord := hof record hmem rfl
    obtain ⟨m, hrelease, hswept⟩ := h.swept hmem (hrecord ▸ hkind)
    dsimp only
    cases hmapped : record.mapped with
    | true =>
      rw [if_pos rfl, ← hrecord, h.wf.unmapUserPage hmem hmapped, Option.getD_some,
        releaseRecord_eq h hmem _ hrelease]
      exact hswept
    | false =>
      rw [if_neg Bool.false_ne_true, releaseRecord_unmapped h hmem hmapped hrelease]
      exact hswept

theorem swept_unmapPage (hmem : page ∈ s.process.pages)
    (hmapped : page.mapped) (hkind : page.kind = .nativeAnon) :
    ∃ s', s.unmapPage page.virtualAddress = (true, s') ∧
      Swept others (· = page.virtualAddress) s s' := by
  obtain ⟨m, hrelease, hswept⟩ := h.swept hmem (by rw [hkind]; exact nofun)
  have hunmap := h.wf.unmapUserPage hmem hmapped
  rw [hkind] at hunmap
  refine ⟨_, ?_, hswept⟩
  unfold State.unmapPage
  rw [hunmap]
  exact releaseRecord_eq h hmem _ hrelease

/-! ### Whole spans -/

omit h

def OnPages (base : ℕ) (pages : List ℕ) (va : ℕ) : Prop := ∃ j ∈ pages, va = base + j * pageSize

theorem onPages_cons {j : ℕ} {pages : List ℕ} (va : ℕ) :
    va = base + j * pageSize ∨ OnPages base pages va ↔ OnPages base (j :: pages) va := by
  simp [OnPages]

theorem aligned_page (h : base % pageSize = 0) (j : ℕ) : (base + j * pageSize) % pageSize = 0 := by
  rw [Nat.add_mul_mod_self_right, h]

theorem page_inj {i j : ℕ} (h : base + i * pageSize = base + j * pageSize) : i = j :=
  Nat.eq_of_mul_eq_mul_right (by decide) (Nat.add_left_cancel h)

/-- The records that a later step finds are records of the state before. -/
theorem Swept.of_cons {j : ℕ} {pages : List ℕ} (h : Swept others (· = base + j * pageSize) s s')
    {s'' : State} (hrest : Swept others (OnPages base pages) s' s'') :
    Swept others (OnPages base (j :: pages)) s s'' :=
  (h.trans hrest).congr onPages_cons

theorem Swept.left {P : NativePage → Prop} {j : ℕ} {pages : List ℕ}
    (h : Swept others (· = base + j * pageSize) s s') (hj : j ∉ pages)
    (hof : ∀ i ∈ j :: pages, ∃ q ∈ s.process.pages, q.virtualAddress = base + i * pageSize ∧ P q) :
    ∀ i ∈ pages, ∃ q ∈ s'.process.pages, q.virtualAddress = base + i * pageSize ∧ P q := by
  intro i hi
  obtain ⟨q, hq, hva, hkept⟩ := hof i (mem_cons_of_mem _ hi)
  refine ⟨q, h.mem.mpr ⟨hq, fun hsame => ?_⟩, hva, hkept⟩
  rw [hva] at hsame
  exact hj (page_inj hsame ▸ hi)

theorem swept_rollback (h : s.Sound others) (hkind : kind ≠ .nativeImage)
    (haligned : base % pageSize = 0) (pages : List ℕ)
    (hof : ∀ q ∈ s.process.pages, OnPages base pages q.virtualAddress → q.kind = kind) :
    Swept others (OnPages base pages) s (s.rollback kind base pages) := by
  induction pages generalizing s with
  | nil => exact .refl h fun q _ ⟨_, hj, _⟩ => nomatch hj
  | cons j pages ih =>
    have hpage := swept_rollbackPage h hkind (aligned_page haligned j) fun q hq hva =>
      hof q hq ⟨j, mem_cons_self, hva⟩
    refine hpage.of_cons (ih hpage.sound fun q hq hon => ?_)
    exact hof q (hpage.mem.mp hq).1 ((onPages_cons _).mp (.inr hon))

theorem swept_unmapPages (h : s.Sound others) (pages : List ℕ) (hnodup : pages.Nodup)
    (hwrap : ∀ j ∈ pages, base + j * pageSize < 2 ^ 64)
    (hof : ∀ j ∈ pages, ∃ q ∈ s.process.pages, q.virtualAddress = base + j * pageSize ∧
      q.mapped ∧ q.kind = .nativeAnon) :
    ∃ s', s.unmapPages base pages = (.ok (), s') ∧ Swept others (OnPages base pages) s s' := by
  induction pages generalizing s with
  | nil => exact ⟨s, rfl, .refl h fun q _ ⟨_, hj, _⟩ => nomatch hj⟩
  | cons j pages ih =>
    obtain ⟨hj, hnodup⟩ := nodup_cons.mp hnodup
    obtain ⟨q, hq, hva, hmapped, hkind⟩ := hof j mem_cons_self
    obtain ⟨s₁, hunmap, hswept⟩ := swept_unmapPage h hq hmapped hkind
    rw [hva] at hunmap hswept
    obtain ⟨s', hrest, hswept'⟩ := ih hswept.sound hnodup
      (fun i hi => hwrap i (mem_cons_of_mem _ hi)) (hswept.left hj hof)
    refine ⟨s', ?_, hswept.of_cons hswept'⟩
    unfold State.unmapPages spanAddress
    rw [Nat.mod_eq_of_lt (hwrap j mem_cons_self), hunmap]
    exact hrest

/-! ### Building -/

def builtPage (kind : MappingKind) (address frame : ℕ) : NativePage :=
  ⟨address, frame, none, pagingWrite, kind, true⟩

theorem buildPage_cases (h : s.Sound others) (kind : MappingKind) (va : ℕ) (answer : Option ℕ)
    (maps : Bool) :
    (s.buildPage kind va answer maps = (false, s) ∧
      (s.allocatePage va pagingWrite kind answer).1 = none) ∨
    ∃ frame s', (s.allocatePage va pagingWrite kind answer).1 = some frame ∧ s'.Sound others ∧
      (s.buildPage kind va answer maps = (false, s') ∧
          (maps && mappingRequestValid kind va pagingWrite) = false ∧
          Grown s s' {NativePage.ofPrivate va frame pagingWrite kind} ∨
        s.buildPage kind va answer maps = (true, s') ∧
          (maps && mappingRequestValid kind va pagingWrite) ∧
          Grown s s' {builtPage kind va frame}) := by
  unfold State.buildPage
  rcases allocatePage_cases h va pagingWrite kind answer with
    hnone | ⟨frame, s₁, hsome, hsound, hfresh, hgrown⟩
  · rw [hnone]
    exact .inl ⟨rfl, rfl⟩
  · rw [hsome]
    dsimp only
    have hmem : NativePage.ofPrivate va frame pagingWrite kind ∈ s₁.process.pages :=
      hgrown.mem.mpr (.inl (Multiset.mem_singleton_self _))
    -- the new record has no leaf, so that only the answer and the region decide
    have hleaf : s₁.process.leaves va = none := by
      refine hsound.wf.leaves_eq_none fun q hq hva => ?_
      rw [hsound.wf.sorted.eq_of_key hq hmem hva]
      rfl
    cases hmaps : (maps && mappingRequestValid kind va pagingWrite) with
    | false =>
      have hmap : s₁.process.mapUserPage kind va frame pagingWrite maps = none := by
        rw [mapUserPage, hmaps]
        rfl
      rw [hmap]
      exact .inr ⟨frame, s₁, rfl, hsound, .inl ⟨rfl, rfl, hgrown⟩⟩
    | true =>
      cases hmap : s₁.process.mapUserPage kind va frame pagingWrite maps with
      | none =>
        rw [mapUserPage, hmaps, hleaf] at hmap
        cases hmap
      | some p =>
        obtain ⟨hwf, hpages, hframe⟩ := hsound.wf.mapUserPage hmem hmap
        have hset : (p.setMapped va true).pages = (s₁.process.setMapped va true).pages :=
          congrArg (List.map _) hpages
        have hholds : (p.setMapped va true).holds = s₁.process.holds := by
          rw [holds_setMapped, holds, hpages, holds]
        -- the records of `s` are those of `s₁` without the new one
        have hrest : ((s₁.process.without (.ofPrivate va frame pagingWrite kind)).pages :
            Multiset NativePage) = s.process.pages := by
          have hperm := Multiset.coe_eq_coe.mpr (hsound.wf.cons_without hmem)
          rw [← Multiset.cons_coe, hgrown.pages, Multiset.singleton_add] at hperm
          exact (Multiset.cons_inj_right _).mp hperm
        have hpages' := hsound.wf.setMapped_pages hmem true
        rw [hrest, ← Multiset.singleton_add] at hpages'
        exact .inr ⟨frame, _, rfl, ⟨hwf, hholds ▸ hsound.balanced⟩, .inr ⟨rfl, rfl,
          (congrArg _ hset).trans hpages', hgrown.frames, hgrown.cache, hgrown.livePages,
          hframe.trans hgrown.frame⟩⟩

theorem buildPage_outcome (h : s.Sound others) (kind : MappingKind) (va : ℕ) (answer : Option ℕ)
    (maps : Bool) :
    (∃ frame s', s.buildPage kind va answer maps = (true, s') ∧ s'.Sound others ∧
      Grown s s' {builtPage kind va frame}) ∨
    ∃ s' extra, s.buildPage kind va answer maps = (false, s') ∧ s'.Sound others ∧
      Grown s s' extra ∧ ∀ r ∈ extra, r.virtualAddress = va ∧ r.kind = kind := by
  rcases buildPage_cases h kind va answer maps with
    ⟨hnone, -⟩ | ⟨frame, s', -, hsound, ⟨hrecord, -, hgrown⟩ | ⟨hbuilt, -, hgrown⟩⟩
  · exact .inr ⟨s, 0, hnone, h, .refl s, fun r hr => absurd hr (Multiset.notMem_zero r)⟩
  · refine .inr ⟨s', _, hrecord, hsound, hgrown, fun r hr => ?_⟩
    rw [Multiset.mem_singleton.mp hr]
    exact ⟨rfl, rfl⟩
  · exact .inl ⟨frame, s', hbuilt, hsound, hgrown⟩

def built (kind : MappingKind) (base : ℕ) (frames : ℕ → ℕ) (count : ℕ) : Multiset NativePage :=
  (Multiset.range count).map fun j => builtPage kind (base + j * pageSize) (frames j)

theorem built_succ (kind : MappingKind) (base : ℕ) (frames : ℕ → ℕ) (count frame : ℕ) :
    {builtPage kind (base + count * pageSize) frame} + built kind base frames count =
      built kind base (Function.update frames count frame) (count + 1) := by
  unfold built
  rw [Multiset.range_succ, Multiset.map_cons, Function.update_self, Multiset.singleton_add]
  congr 1
  refine Multiset.map_congr rfl fun j hj => ?_
  rw [Function.update_of_ne (Multiset.mem_range.mp hj).ne]

theorem mem_built {frames : ℕ → ℕ} {count : ℕ} {r : NativePage} :
    r ∈ built kind base frames count ↔
      ∃ j < count, r = builtPage kind (base + j * pageSize) (frames j) := by
  simp only [built, Multiset.mem_map, Multiset.mem_range, eq_comm]

theorem Swept.restores_built {frames : ℕ → ℕ} {count : ℕ}
    (h : Swept others (OnPages base (List.range count)) s s')
    (hgrown : Grown s₀ s (built kind base frames count)) (hs₀ : s₀.process.Wf)
    (hfree : ∀ j < count, s₀.process.lookup (base + j * pageSize) = none) : s' = s₀ := by
  refine h.restores hgrown hs₀ (fun r hr => ?_) ?_
  · obtain ⟨j, hj, rfl⟩ := mem_built.mp hr
    exact ⟨j, mem_range.mpr hj, rfl⟩
  · rintro q hq ⟨j, hj, hva⟩
    exact hs₀.lookup_eq_none.mp (hfree j (mem_range.mp hj)) q hq hva

/-- The loop builds all pages, or it ends in the state it began in. A page has to be free
only if the loop reaches it, with all pages before it in the region of their kind. -/
theorem buildPages_cases {count : ℕ} (answers : PageAnswers) (hs₀ : s₀.Sound others)
    (hkind : kind ≠ .nativeImage) (haligned : base % pageSize = 0)
    (hfree : ∀ j < count, (∀ i < j, mappingRequestValid kind (base + i * pageSize) pagingWrite) →
        s₀.process.lookup (base + j * pageSize) = none)
    (left page : ℕ) (frames : ℕ → ℕ) (hcount : page + left = count) (h : s.Sound others)
    (hgrown : Grown s₀ s (built kind base frames page)) :
    (∃ s' frames', s.buildPages kind base answers page left = (true, s') ∧ s'.Sound others ∧
      Grown s₀ s' (built kind base frames' count)) ∨
    s.buildPages kind base answers page left = (false, s₀) := by
  induction left generalizing s page frames with
  | zero => exact .inl ⟨s, frames, rfl, h, by rwa [← hcount]⟩
  | succ left ih =>
    unfold State.buildPages
    rcases buildPage_outcome h kind (base + page * pageSize) (answers.frame page)
      (answers.maps page) with
      ⟨frame, s₁, hbuild, hsound, hone⟩ | ⟨s₁, extra, hbuild, hsound, hsome, hextra⟩
    · rw [hbuild]
      have hnext := hgrown.trans hone
      rw [built_succ] at hnext
      exact ih (page + 1) _ (by omega) hsound hnext
    · rw [hbuild]
      -- the pages before this one were mapped
      have hvalid : ∀ i < page,
          mappingRequestValid kind (base + i * pageSize) pagingWrite := fun i hi =>
        h.wf.valid _ (hgrown.mem.mpr (.inl (mem_built.mpr ⟨i, hi, rfl⟩))) rfl
      have hnone : ∀ q ∈ s₀.process.pages,
          ¬ OnPages base (List.range (page + 1)) q.virtualAddress := by
        rintro q hq ⟨j, hj, hva⟩
        have hle : j ≤ page := Nat.le_of_lt_succ (mem_range.mp hj)
        have hlookup := hfree j (by omega) fun i hi => hvalid i (by omega)
        exact hs₀.wf.lookup_eq_none.mp hlookup q hq hva
      have htotal := hgrown.trans hsome
      have hon : ∀ r ∈ extra + built kind base frames page,
          OnPages base (List.range (page + 1)) r.virtualAddress ∧ r.kind = kind := by
        intro r hr
        rcases Multiset.mem_add.mp hr with hr | hr
        · exact ⟨⟨page, self_mem_range_succ, (hextra r hr).1⟩, (hextra r hr).2⟩
        · obtain ⟨j, hj, rfl⟩ := mem_built.mp hr
          exact ⟨⟨j, mem_range.mpr (by omega), rfl⟩, rfl⟩
      have hswept := swept_rollback hsound hkind haligned (List.range (page + 1))
        fun q hq hva => (htotal.mem.mp hq).elim (fun hr => (hon q hr).2)
          fun hq => absurd hva (hnone q hq)
      right
      dsimp only
      rw [hswept.restores htotal hs₀.wf (fun r hr => (hon r hr).1) hnone]

end OpenRFS.NativeProcess
