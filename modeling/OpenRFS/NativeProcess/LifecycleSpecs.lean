import OpenRFS.NativeProcess.Lifecycle
import OpenRFS.NativeProcess.MemorySpecs

/-!
# What threads, loading and cleanup do

Between two steps all pages of a running process are mapped, and its stacks lie below
the region of the next thread (`Settled`). So the stack of a new thread meets no record,
and THREAD_CREATE adds exactly its pages or restores the state.
-/

namespace OpenRFS.NativeProcess

open Paging List Process State

structure Process.Settled (p : Process) : Prop where
  mapped : p.threadCount ≠ 0 → ∀ page ∈ p.pages, page.mapped = true
  below : ∀ page ∈ p.pages, page.kind = .nativeStack →
    page.virtualAddress < stackGuard (max p.threadCount 1)

variable {s s' : State} {p p' : Process} {others : Multiset Hold} {kind : MappingKind} {base : ℕ}

theorem Grown.threadCount {extra : Multiset NativePage} (h : Grown s s' extra) :
    s'.process.threadCount = s.process.threadCount := by
  have hcount := congrArg Process.threadCount h.frame
  exact hcount

theorem Process.Settled.grow {extra : Multiset NativePage} (h : s.process.Settled)
    (hgrown : Grown s s' extra)
    (hmapped : s.process.threadCount ≠ 0 → ∀ page ∈ extra, page.mapped)
    (hstacks : ∀ page ∈ extra, page.kind = .nativeStack →
      page.virtualAddress < stackGuard (max s.process.threadCount 1)) : s'.process.Settled := by
  refine ⟨fun hloaded page hpage => ?_, fun page hpage hkind => ?_⟩
  · rw [hgrown.threadCount] at hloaded
    exact (hgrown.mem.mp hpage).elim (hmapped hloaded page) (h.mapped hloaded page)
  · rw [hgrown.threadCount]
    exact (hgrown.mem.mp hpage).elim (fun hpage => hstacks page hpage hkind)
      fun hpage => h.below page hpage hkind

theorem Process.Settled.sweep {A : ℕ → Prop} (h : s.process.Settled)
    (hswept : Swept others A s s') : s'.process.Settled := by
  obtain ⟨removed, hgrown, -⟩ := hswept.removed
  have hcount : s'.process.threadCount = s.process.threadCount := hgrown.threadCount.symm
  refine ⟨fun hloaded page hpage => ?_, fun page hpage => ?_⟩
  · exact h.mapped (hcount ▸ hloaded) page (hswept.mem.mp hpage).1
  · rw [hcount]
    exact h.below page (hswept.mem.mp hpage).1

/-! ### THREAD_CREATE -/

theorem stackGuard_le {i j : ℕ} (h : i ≤ j) : stackGuard i ≤ stackGuard j := by
  unfold stackGuard
  have hle := Nat.mul_le_mul_right pageSize (Nat.mul_le_mul_right (stackPages + 1) h)
  omega

theorem stackGuard_succ (i : ℕ) : stackGuard (i + 1) = stackGuard i + (stackPages + 1) * pageSize := by
  unfold stackGuard
  rw [add_mul, one_mul, add_mul, add_assoc]

theorem kind_eq_nativeStack {va : ℕ} {permissions : UInt32}
    (h : mappingRequestValid kind va permissions) (hva : nativeStackBase ≤ va) :
    kind = .nativeStack := by
  simp only [mappingRequestValid, nativeStackBase] at h hva
  cases kind with
  | nativeStack => rfl
  | _ =>
    simp only [Bool.and_eq_true, pageWithin_iff, nativeImageEnd, nativeAnonEnd,
      nativeSurfaceEnd] at h
    omega

theorem Process.Settled.lookup_stack (h : p.Settled) (hwf : p.Wf) (hloaded : p.threadCount ≠ 0)
    {va : ℕ} (hva : stackGuard p.threadCount ≤ va) : p.lookup va = none := by
  refine hwf.lookup_eq_none.mpr fun page hpage hat => ?_
  have hlow : nativeStackBase ≤ page.virtualAddress := by
    unfold stackGuard at hva
    omega
  have hkind := kind_eq_nativeStack (hwf.valid page hpage (h.mapped hloaded page hpage)) hlow
  have hlt := h.below page hpage hkind
  rw [max_eq_left (Nat.one_le_iff_ne_zero.mpr hloaded)] at hlt
  omega

section Sound

variable (h : s.Sound others)
include h

theorem swept_releaseRuntimePage (hkind : kind ≠ .nativeImage)
    {page : NativePage} (hmem : page ∈ s.process.pages) (hof : page.kind = kind)
    (haligned : page.virtualAddress % pageSize = 0) :
    ∃ s', s.releaseRuntimePage kind page.virtualAddress = (true, s') ∧
      Swept others (· = page.virtualAddress) s s' := by
  subst hof
  obtain ⟨m, hrelease, hswept⟩ := h.swept hmem hkind
  refine ⟨_, ?_, hswept⟩
  unfold releaseRuntimePage
  rw [pageAt_of_aligned haligned, h.wf.lookup_eq_some.mpr ⟨hmem, rfl⟩]
  dsimp only
  rw [if_neg (not_not_intro rfl)]
  cases hmapped : page.mapped with
  | true =>
    rw [if_pos rfl, h.wf.unmapUserPage hmem hmapped]
    exact releaseRecord_eq h hmem _ hrelease
  | false =>
    exact releaseRecord_unmapped h hmem hmapped hrelease

theorem swept_releaseRuntimePages (hkind : kind ≠ .nativeImage)
    (haligned : base % pageSize = 0) (pages : List ℕ) (hnodup : pages.Nodup)
    (hof : ∀ j ∈ pages, ∃ page ∈ s.process.pages,
      page.virtualAddress = base + j * pageSize ∧ page.kind = kind) :
    ∃ s', s.releaseRuntimePages kind base pages = (true, s') ∧
      Swept others (OnPages base pages) s s' := by
  induction pages generalizing s with
  | nil => exact ⟨s, rfl, .refl h fun q _ ⟨_, hj, _⟩ => nomatch hj⟩
  | cons j pages ih =>
    obtain ⟨hj, hnodup⟩ := nodup_cons.mp hnodup
    obtain ⟨page, hmem, hva, hpage⟩ := hof j mem_cons_self
    obtain ⟨s₁, hrelease, hswept⟩ := swept_releaseRuntimePage h hkind hmem hpage
      (hva ▸ aligned_page haligned j)
    rw [hva] at hrelease hswept
    obtain ⟨s', hrest, hswept'⟩ := ih hswept.sound hnodup (hswept.left hj hof)
    refine ⟨s', ?_, hswept.of_cons hswept'⟩
    simp only [releaseRuntimePages, hrelease, hrest, Bool.and_self]

theorem releaseRuntimePages_built {frames : ℕ → ℕ} {count : ℕ}
    (h' : s'.Sound others) (hkind : kind ≠ .nativeImage) (haligned : base % pageSize = 0)
    (hgrown : Grown s s' (built kind base frames count))
    (hfree : ∀ j < count, s.process.lookup (base + j * pageSize) = none) :
    s'.releaseRuntimePages kind base (List.range count) = (true, s) := by
  obtain ⟨s'', hrelease, hswept⟩ := swept_releaseRuntimePages h' hkind haligned (List.range count)
    nodup_range fun j hj =>
      ⟨_, hgrown.mem.mpr (.inl (mem_built.mpr ⟨j, mem_range.mp hj, rfl⟩)), rfl, rfl⟩
  rw [hrelease, hswept.restores_built hgrown h.wf hfree]

variable (hsettled : s.process.Settled)
include hsettled

theorem startThread_cases (hloaded : s.process.threadCount ≠ 0) (input : ThreadInput) {count : ℕ}
    (hcount : count ≤ stackPages) :
    (∃ handle s', s.startThread count input = (.ok handle, s') ∧ s'.Sound others ∧
      s'.process.Settled) ∨
    ∃ e, s.startThread count input = (.error e, s) := by
  have hkind : MappingKind.nativeStack ≠ .nativeImage := by decide
  have haligned : (stackGuard s.process.threadCount + pageSize) % pageSize = 0 := by
    rw [Nat.add_mod_right, stackGuard, Nat.add_mul_mod_self_right]
    rfl
  have hfree : ∀ j < count, s.process.lookup
      (stackGuard s.process.threadCount + pageSize + j * pageSize) = none := fun j _ =>
    hsettled.lookup_stack h.wf hloaded (by omega)
  unfold startThread
  dsimp only
  rcases buildPages_cases input.answers h hkind haligned (fun j hj _ => hfree j hj) count 0
    (fun _ => 0) (zero_add _) h (.refl s) with ⟨s', frames, hbuild, hsound, hgrown⟩ | hbuild
  · rw [hbuild]
    dsimp only
    have hback := releaseRuntimePages_built h hsound hkind haligned hgrown hfree
    split_ifs with hfpu
    · cases input.install with
      | error e =>
        rw [hback]
        exact .inr ⟨e, rfl⟩
      | ok handle =>
        have hwf := hsound.wf
        refine .inl ⟨handle, _, rfl, ⟨{ hwf with }, hsound.balanced⟩, fun _ page hpage => ?_,
          fun page hpage hstack => ?_⟩
        · rcases hgrown.mem.mp hpage with hpage | hpage
          · obtain ⟨j, -, rfl⟩ := mem_built.mp hpage
            rfl
          · exact hsettled.mapped hloaded page hpage
        · show page.virtualAddress < stackGuard (max (s'.process.threadCount + 1) 1)
          rw [hgrown.threadCount, max_eq_left (by omega), stackGuard_succ]
          rcases hgrown.mem.mp hpage with hpage | hpage
          · obtain ⟨j, hj, rfl⟩ := mem_built.mp hpage
            show stackGuard s.process.threadCount + pageSize + j * pageSize < _
            have hlt : (1 + j) * pageSize < (stackPages + 1) * pageSize :=
              Nat.mul_lt_mul_of_pos_right (by omega) (by decide)
            rw [add_mul, one_mul] at hlt
            omega
          · have hlt := hsettled.below page hpage hstack
            rw [max_eq_left (by omega)] at hlt
            omega
    · rw [hback]
      exact .inr ⟨_, rfl⟩
  · rw [hbuild]
    exact .inr ⟨_, rfl⟩

theorem threadCreate_cases (hloaded : s.process.threadCount ≠ 0) (input : ThreadInput) :
    (∃ handle s', s.threadCreate input = (.ok handle, s') ∧ s'.Sound others ∧ s'.process.Settled) ∨
    ∃ e, s.threadCreate input = (.error e, s) := by
  unfold threadCreate
  by_cases hcapability : s.process.capabilities &&& capThreads = 0
  · rw [if_pos hcapability]
    exact .inr ⟨_, rfl⟩
  rw [if_neg hcapability]
  cases input.request with
  | none => exact .inr ⟨_, rfl⟩
  | some request =>
    dsimp only
    split_ifs with hmalformed hfull hend
    · exact .inr ⟨_, rfl⟩
    · exact .inr ⟨_, rfl⟩
    · exact .inr ⟨_, rfl⟩
    · refine startThread_cases h hsettled hloaded input ?_
      simp only [ThreadCreateRequest.malformed, Bool.or_eq_true, decide_eq_true_eq,
        not_or] at hmalformed
      have hbytes := hmalformed.1.2
      simp only [ThreadCreateRequest.pageCount, stackPages, pageSize] at hbytes ⊢
      omega

/-! ### Loading -/

variable (hloading : s.process.threadCount = 0)
include hloading

/-- While a process is loaded it may get any page that is not a stack in the wrong
place. -/
theorem settled_allocatePage (va : ℕ) (permissions : UInt32) (kind : MappingKind)
    (answer : Option ℕ) (hstack : kind = .nativeStack → va < stackGuard 1) :
    let s' := (s.allocatePage va permissions kind answer).2
    s'.Sound others ∧ s'.process.Settled ∧ s'.process.threadCount = 0 := by
  rcases allocatePage_cases h va permissions kind answer with
    hnone | ⟨frame, s', hsome, hsound, -, hgrown⟩
  · rw [hnone]
    exact ⟨h, hsettled, hloading⟩
  · rw [hsome]
    refine ⟨hsound, hsettled.grow hgrown (fun hloaded => absurd hloading hloaded) ?_,
      hgrown.threadCount.trans hloading⟩
    intro page hpage hkind
    rw [Multiset.mem_singleton.mp hpage] at hkind ⊢
    exact lt_of_lt_of_le (hstack hkind) (stackGuard_le (le_max_right _ _))

theorem settled_preparePages (permissions : UInt32) (frame : ℕ → Option ℕ) (pages : List ℕ)
    (hstack : kind = .nativeStack → ∀ j ∈ pages, base + j * pageSize < stackGuard 1) :
    let s' := (s.preparePages kind permissions base frame pages).2
    s'.Sound others ∧ s'.process.Settled ∧ s'.process.threadCount = 0 := by
  induction pages generalizing s with
  | nil => exact ⟨h, hsettled, hloading⟩
  | cons j pages ih =>
    have hpage := settled_allocatePage h hsettled hloading (base + j * pageSize) permissions kind
      (frame j) fun hkind => hstack hkind j mem_cons_self
    unfold preparePages
    rcases hresult : s.allocatePage (base + j * pageSize) permissions kind (frame j) with
      ⟨_ | physicalAddress, s'⟩
    · rw [hresult] at hpage
      exact hpage
    · rw [hresult] at hpage
      obtain ⟨hsound, hsettled', hloading'⟩ := hpage
      exact ih hsound hsettled' hloading' fun hkind i hi =>
        hstack hkind i (mem_cons_of_mem _ hi)

theorem settled_prepareMainStack (frame : ℕ → Option ℕ) :
    let s' := (s.prepareMainStack frame).2
    s'.Sound others ∧ s'.process.Settled ∧ s'.process.threadCount = 0 := by
  refine settled_preparePages h hsettled hloading pagingWrite frame _ fun _ j hj => ?_
  have hlt := mem_range.mp hj
  simp only [stackGuard, stackPages, pageSize] at hlt ⊢
  omega

theorem settled_prepareMainTls (pageCount : ℕ) (frame : ℕ → Option ℕ) :
    let s' := (s.prepareMainTls pageCount frame).2
    s'.Sound others ∧ s'.process.Settled ∧ s'.process.threadCount = 0 := by
  dsimp only [prepareMainTls]
  split_ifs with hrefuse
  · exact ⟨h, hsettled, hloading⟩
  · exact settled_preparePages h hsettled hloading pagingWrite frame _ nofun

theorem settled_acquireSharedCodePage (va : ℕ) (key : CodeKey) (same : Bool) (answer : Option ℕ) :
    let s' := (s.acquireSharedCodePage va key same answer).2
    s'.Sound others ∧ s'.process.Settled := by
  rcases acquireSharedCodePage_cases h va key same answer with
    hnone | ⟨frame, slot, s', hsome, hsound, hrecorded⟩
  · rw [hnone]
    exact ⟨h, hsettled⟩
  · rw [hsome]
    have hcount : s'.process.threadCount = s.process.threadCount := by
      have hframe := congrArg Process.threadCount hrecorded.frame
      exact hframe
    refine ⟨hsound, fun hloaded => absurd (hcount.trans hloading) hloaded, fun page hpage hkind => ?_⟩
    rcases mem_cons.mp (hrecorded.pages.mem_iff.mp hpage) with rfl | hpage
    · cases hkind
    · rw [hcount]
      exact hsettled.below page hpage hkind

end Sound

/-- The records are the same but for their flags. -/
structure Remapped (p p' : Process) : Prop where
  wf : p'.Wf
  holds : p'.holds = p.holds
  frame : p'.frame = p.frame
  kinds : ∀ q ∈ p'.pages, ∃ r ∈ p.pages, r.virtualAddress = q.virtualAddress ∧ r.kind = q.kind

theorem Remapped.trans {p'' : Process} (h : Remapped p p') (h' : Remapped p' p'') :
    Remapped p p'' where
  wf := h'.wf
  holds := h'.holds.trans h.holds
  frame := h'.frame.trans h.frame
  kinds q hq := by
    obtain ⟨r, hr, hva, hkind⟩ := h'.kinds q hq
    obtain ⟨t, ht, htva, htkind⟩ := h.kinds r hr
    exact ⟨t, ht, htva.trans hva, htkind.trans hkind⟩

theorem remapped_mapUserPage (h : p.Wf) {page : NativePage} (hmem : page ∈ p.pages) {maps : Bool}
    (hmap : p.mapUserPage page.kind page.virtualAddress page.physicalAddress page.permissions
      maps = some p') :
    Remapped p (p'.setMapped page.virtualAddress true) ∧
      ∀ q, q ∈ (p'.setMapped page.virtualAddress true).pages ↔ q = { page with mapped := true } ∨
          q ∈ p.pages ∧ q.virtualAddress ≠ page.virtualAddress := by
  obtain ⟨hwf, hpages, hframe⟩ := h.mapUserPage hmem hmap
  have hset : (p'.setMapped page.virtualAddress true).pages =
      (p.setMapped page.virtualAddress true).pages := congrArg (List.map _) hpages
  have hmem' : ∀ q, q ∈ (p'.setMapped page.virtualAddress true).pages ↔
      q = { page with mapped := true } ∨
        q ∈ p.pages ∧ q.virtualAddress ≠ page.virtualAddress := fun q => by
    rw [hset]
    exact h.mem_setMapped hmem true
  refine ⟨⟨hwf, ?_, hframe, fun q hq => ?_⟩, hmem'⟩
  · rw [holds_setMapped, holds, hpages, holds]
  · rcases (hmem' q).mp hq with rfl | ⟨hq, -⟩
    · exact ⟨page, hmem, rfl, rfl⟩
    · exact ⟨q, hq, rfl, rfl⟩

theorem remapped_mapRecords (h : p.Wf) (maps : ℕ → Bool) (pages : List NativePage)
    (hsorted : Sorted.Increasing NativePage.virtualAddress pages)
    (hsub : ∀ page ∈ pages, page ∈ p.pages) :
    Remapped p (p.mapRecords maps pages).2 ∧
      ((p.mapRecords maps pages).1 → ∀ q ∈ (p.mapRecords maps pages).2.pages,
        q.mapped ∨ q ∈ p.pages ∧ ∀ page ∈ pages, q.virtualAddress ≠ page.virtualAddress) := by
  induction pages generalizing p with
  | nil =>
    exact ⟨⟨h, rfl, rfl, fun q hq => ⟨q, hq, rfl, rfl⟩⟩,
      fun _ q hq => .inr ⟨hq, fun _ hpage => absurd hpage not_mem_nil⟩⟩
  | cons page pages ih =>
    obtain ⟨hfirst, hsorted⟩ := pairwise_cons.mp hsorted
    unfold mapRecords
    cases hmap : p.mapUserPage page.kind page.virtualAddress page.physicalAddress
        page.permissions (maps page.virtualAddress) with
    | none =>
      exact ⟨⟨h, rfl, rfl, fun q hq => ⟨q, hq, rfl, rfl⟩⟩, nofun⟩
    | some p' =>
      obtain ⟨hone, hmem⟩ := remapped_mapUserPage h (hsub page mem_cons_self) hmap
      obtain ⟨hrest, hall⟩ := ih hone.wf hsorted fun q hq =>
        (hmem q).mpr (.inr ⟨hsub q (mem_cons_of_mem _ hq), (hfirst q hq).ne'⟩)
      refine ⟨hone.trans hrest, fun htrue q hq => ?_⟩
      rcases hall htrue q hq with hmapped | ⟨hq, hne⟩
      · exact .inl hmapped
      · rcases (hmem q).mp hq with rfl | ⟨hq, hne'⟩
        · exact .inl rfl
        · exact .inr ⟨hq, forall_mem_cons.mpr ⟨hne', hne⟩⟩

theorem settled_finishLoad (h : s.Sound others) (hsettled : s.process.Settled)
    (hloading : s.process.threadCount = 0) (spaceBuilt : Bool) (maps : ℕ → Bool)
    (validated : Bool) :
    (s.finishLoad spaceBuilt maps validated).Sound others ∧
      (s.finishLoad spaceBuilt maps validated).process.Settled := by
  unfold finishLoad mapPreparedPages
  by_cases hbuilt : spaceBuilt
  swap
  · rw [if_neg hbuilt]
    exact ⟨h, hsettled⟩
  rw [if_pos hbuilt]
  obtain ⟨hremapped, hall⟩ :=
    remapped_mapRecords h.wf maps s.process.pages h.wf.sorted fun _ hpage => hpage
  rcases hresult : s.process.mapRecords maps s.process.pages with ⟨success, p⟩
  rw [hresult] at hremapped hall
  have hcount : p.threadCount = s.process.threadCount := by
    have hframe := congrArg Process.threadCount hremapped.frame
    exact hframe
  have hbalanced : Balanced s.memory (p.holds + others) := hremapped.holds ▸ h.balanced
  have hbelow : ∀ page ∈ p.pages, page.kind = .nativeStack →
      page.virtualAddress < stackGuard 1 := by
    intro page hpage hkind
    obtain ⟨r, hr, hva, hrkind⟩ := hremapped.kinds page hpage
    have hlt := hsettled.below r hr (hrkind.trans hkind)
    rwa [hva, hloading] at hlt
  dsimp only
  cases hvalid : (success && validated) with
  | false =>
    refine ⟨⟨hremapped.wf, hbalanced⟩, fun hloaded => ?_, fun page hpage hkind => ?_⟩
    · exact absurd (hcount.trans hloading) hloaded
    · exact lt_of_lt_of_le (hbelow page hpage hkind) (stackGuard_le (le_max_right _ _))
  | true =>
    have hsuccess : success := (Bool.and_eq_true_iff.mp hvalid).1
    have hwf := hremapped.wf
    refine ⟨⟨{ hwf with }, hbalanced⟩, fun _ page hpage => ?_, hbelow⟩
    rcases hall hsuccess page hpage with hmapped | ⟨hmem, hne⟩
    · exact hmapped
    · exact absurd rfl (hne page hmem)

/-! ### Cleanup -/

theorem balanced_releaseAll {m : Memory} (pages : List NativePage)
    (h : Balanced m ((pages : Multiset NativePage).map NativePage.hold + others)) :
    (m.releaseAll pages).1 ∧ Balanced (m.releaseAll pages).2 others := by
  induction pages generalizing m with
  | nil =>
    rw [Multiset.coe_nil, Multiset.map_zero, zero_add] at h
    exact ⟨rfl, h⟩
  | cons page pages ih =>
    rw [← Multiset.cons_coe, Multiset.map_cons, Multiset.cons_add] at h
    obtain ⟨m', hrelease, hafter⟩ := h.releasePageFrame
    unfold Memory.releaseAll
    rw [hrelease]
    exact ih hafter

theorem unmapAll_eq_true (pages : List NativePage)
    (hdistinct : pages.Pairwise fun a b => a.virtualAddress ≠ b.virtualAddress)
    (hleaf : ∀ page ∈ pages, page.mapped → unmapRequestValid page.kind page.virtualAddress ∧
        (p.leaves page.virtualAddress).isSome) : (p.unmapAll pages).1 := by
  induction pages generalizing p with
  | nil => rfl
  | cons page pages ih =>
    obtain ⟨hfirst, hdistinct⟩ := pairwise_cons.mp hdistinct
    unfold unmapAll
    split_ifs with hmapped
    · obtain ⟨hvalid, hsome⟩ := hleaf page mem_cons_self hmapped
      rw [unmapUserPage, if_pos (by rw [hvalid, hsome]; rfl)]
      refine ih hdistinct fun q hq hqmapped => ?_
      obtain ⟨hqvalid, hqsome⟩ := hleaf q (mem_cons_of_mem _ hq) hqmapped
      refine ⟨hqvalid, ?_⟩
      show (Function.update p.leaves page.virtualAddress none q.virtualAddress).isSome = true
      rwa [Function.update_of_ne (hfirst q hq).symm]
    · exact ih hdistinct fun q hq => hleaf q (mem_cons_of_mem _ hq)

theorem cleanup_eq (h : s.Sound others) :
    ∃ m, s.cleanup false = (true, ⟨m, .zero⟩) ∧ Balanced m others := by
  have hholds : ((s.process.pages.reverse : List NativePage) : Multiset NativePage).map
      NativePage.hold + others = s.process.holds + others := by
    rw [Multiset.coe_reverse]
    rfl
  obtain ⟨hreleased, hbalanced⟩ := balanced_releaseAll s.process.pages.reverse
    (hholds ▸ h.balanced)
  have hunmapped : (s.process.unmapAll s.process.pages.reverse).1 := by
    refine unmapAll_eq_true _ ?_ fun page hpage hmapped => ?_
    · exact pairwise_reverse.mpr (h.wf.sorted.imp fun hlt => hlt.ne')
    · have hmem := mem_reverse.mp hpage
      have hleaf := h.wf.leaf.mpr ⟨page, hmem, rfl, hmapped, rfl⟩
      exact ⟨unmapRequestValid_of_mapping (h.wf.valid page hmem hmapped), by rw [hleaf]; rfl⟩
  refine ⟨(s.memory.releaseAll s.process.pages.reverse).2, ?_, hbalanced⟩
  unfold cleanup
  rw [if_neg Bool.false_ne_true]
  simp only [hunmapped, hreleased, Bool.and_self]

end OpenRFS.NativeProcess
