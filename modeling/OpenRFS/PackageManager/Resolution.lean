import OpenRFS.PackageManager.Solver
import OpenRFS.PackageManager.Publish
import OpenRFS.Codec.Checked

/-!
# The solver is sound

The tables of the solver only grow during a search, so that cutting them back undoes
it. A search that succeeds leaves every selected version with its dependencies bound to
selected packages that meet them, and nothing selected in conflict.
-/

namespace OpenRFS.PackageManager

open Codec PackageState List Prod

variable {requested constraint : Bytes}

structure Extends (s s' : Solver) : Prop where
  selected : s.selected <+: s'.selected
  bindings : s.bindings <+: s'.bindings

/-- A dependency is bound to a selected package that meets it. -/
def Satisfied (s : Solver) (dependency : Relation) : Prop :=
  ∃ item ∈ s.selected, bindingFor s dependency.identifier = some item.entry.identifier ∧
    item.meets dependency.identifier dependency.value = true

/-- The tables of the solver fit each other and the catalog. -/
structure Consistent (catalog : List Item) (s : Solver) : Prop where
  offered : ∀ item ∈ s.selected, item ∈ catalog
  distinct : (s.selected.map (·.entry.identifier)).Nodup
  functional : (s.bindings.map (·.requested)).Nodup
  bound : ∀ binding ∈ s.bindings, ∃ item ∈ s.selected, item.entry.identifier = binding.provider

variable {provider : Bytes} {item : Item} {levels : ℕ}

section Extends

variable {s s' s'' : Solver}

theorem Extends.refl (s : Solver) : Extends s s := ⟨prefix_refl _, prefix_refl _⟩

variable (h : Extends s s')
include h

theorem Extends.trans (h' : Extends s' s'') : Extends s s'' :=
  ⟨h.selected.trans h'.selected, h.bindings.trans h'.bindings⟩

theorem Extends.cutBack : s'.cutBack s = s := by
  simp only [Solver.cutBack, ← prefix_iff_eq_take.mp h.selected, ← prefix_iff_eq_take.mp h.bindings]

theorem Extends.bindingFor {requested : Bytes}
    (hb : bindingFor s requested = some provider) : bindingFor s' requested = some provider := by
  obtain ⟨more, hmore⟩ := h.bindings
  obtain ⟨binding, hfind, hprovider⟩ := Option.map_eq_some_iff.mp hb
  rw [PackageManager.bindingFor, ← hmore, find?_append, hfind]
  exact congrArg some hprovider

theorem Extends.satisfied {dependency : Relation}
    (hd : Satisfied s dependency) : Satisfied s' dependency := by
  obtain ⟨item, hitem, hbinding, hmeets⟩ := hd
  exact ⟨item, h.selected.subset hitem, h.bindingFor hbinding, hmeets⟩

omit h

open Extends

theorem extends_addBinding (requested provider : Bytes) (s : Solver) :
    Extends s (addBinding requested provider s).2 := by
  rw [addBinding]
  split
  · exact refl s
  · split_ifs
    · exact refl s
    · exact ⟨prefix_refl _, prefix_append _ _⟩

variable {solve : Bytes → Bytes → Solver → Status × Solver}

variable (hsolve : ∀ r c s, Extends s (solve r c s).2)
include hsolve

theorem extends_solveDependencies
    (dependencies : List Relation) (s : Solver) :
    Extends s (solveDependencies solve dependencies s).2 := by
  induction dependencies generalizing s with
  | nil => exact refl s
  | cons dependency dependencies ih =>
    have hfirst := hsolve dependency.identifier dependency.value s
    rw [solveDependencies]
    split
    · rename_i s' heq
      rw [heq] at hfirst
      exact hfirst.trans (ih s')
    · rename_i heq
      rw [heq] at hfirst
      exact hfirst

theorem extends_tryItem (requested : Bytes)
    (item : Item) (s : Solver) : Extends s (tryItem solve requested item s).2 := by
  have hselect : Extends s { s with selected := s.selected ++ [item] } :=
    ⟨prefix_append _ _, prefix_refl _⟩
  have hbind := extends_addBinding requested item.entry.identifier
    { s with selected := s.selected ++ [item] }
  rw [tryItem]
  split
  · rename_i s₁ heq₁
    rw [heq₁] at hbind
    have hself := extends_addBinding item.entry.identifier item.entry.identifier s₁
    split
    · rename_i s₂ heq₂
      rw [heq₂] at hself
      have hrest := extends_solveDependencies hsolve item.dependencies s₂
      split
      all_goals
        rename_i heq₃
        rw [heq₃] at hrest
        exact ((hselect.trans hbind).trans hself).trans hrest
    · rename_i heq₂
      rw [heq₂] at hself
      exact (hselect.trans hbind).trans hself
  · rename_i heq₁
    rw [heq₁] at hbind
    exact hselect.trans hbind

theorem extends_tryVersions (catalog : List Item)
    (requested constraint : Bytes) (attempts : ℕ) (ceiling : Option Bytes) (best : Status)
    (s : Solver) :
    Extends s (tryVersions solve catalog requested constraint attempts ceiling best s).2 := by
  induction attempts generalizing ceiling best with
  | zero => exact refl s
  | succ attempts ih =>
    rw [tryVersions]
    split
    · exact refl s
    · rename_i item _
      have htried := extends_tryItem hsolve requested item s
      split_ifs
      · exact refl s
      · split
        · rename_i heq
          rw [heq] at htried
          exact htried
        · rename_i heq
          rw [heq] at htried
          rw [htried.cutBack]
          exact ih _ _

omit hsolve

theorem extends_solveRequirement (catalog : List Item) (levels : ℕ) (requested constraint : Bytes)
    (s : Solver) : Extends s (solveRequirement catalog levels requested constraint s).2 := by
  induction levels generalizing requested constraint s with
  | zero => exact refl s
  | succ levels ih =>
    rw [solveRequirement]
    split
    · exact refl s
    · split_ifs
      · exact refl s
      · split
        · split_ifs
          · exact extends_addBinding _ _ s
          · exact refl s
        · exact extends_tryVersions ih catalog requested constraint _ _ _ s

end Extends

section Sound

variable {catalog : List Item} {s s' : Solver}

theorem mem_of_newestBelow {ceiling : Option Bytes}
    (h : newestBelow catalog requested constraint ceiling = some item) :
    item ∈ catalog ∧ item.meets requested constraint := by
  suffices hmem : item ∈ catalog.filter (·.meets requested constraint) from mem_filter.mp hmem
  revert h
  -- the best candidate so far is always one of the candidates
  refine List.foldlRecOn (motive := fun best => best = some item → item ∈ _) _ _ nofun ?_
  intro best hbest candidate hcandidate h
  simp only [newer] at h
  split_ifs at h
  · exact hbest h
  · split at h
    · cases h
      exact hcandidate
    · split_ifs at h
      · cases h
        exact hcandidate
      · exact hbest h

theorem identifier_of_uniqueProvider {requested constraint : Bytes}
    (h : uniqueProvider catalog requested constraint = .ok provider) (hitem : item ∈ catalog)
    (hmeets : item.meets requested constraint) : item.entry.identifier = provider := by
  have hmem : item ∈ catalog.filter (·.meets requested constraint) := mem_filter.mpr ⟨hitem, hmeets⟩
  rw [uniqueProvider] at h
  split at h
  · cases h
  · rename_i first rest hfilter
    split_ifs at h with hall
    cases h
    rw [hfilter] at hmem
    rcases mem_cons.mp hmem with rfl | hrest
    · rfl
    · exact beq_iff_eq.mp (all_eq_true.mp hall item hrest)

theorem not_mem_of_bindingFor_eq_none {requested : Bytes} (h : bindingFor s requested = none) :
    requested ∉ s.bindings.map (·.requested) := by
  rw [bindingFor, Option.map_eq_none_iff, find?_eq_none] at h
  rintro hmem
  obtain ⟨binding, hbinding, rfl⟩ := mem_map.mp hmem
  exact h binding hbinding (beq_self_eq_true _)

/-- A binding that is added, or was there already. -/
theorem addBinding_eq_ok (catalog : List Item) {requested : Bytes}
    (h : addBinding requested provider s = (.ok, s')) :
    s'.selected = s.selected ∧ bindingFor s' requested = some provider ∧
      ((∃ item ∈ s.selected, item.entry.identifier = provider) → Consistent catalog s →
        Consistent catalog s') := by
  rw [addBinding] at h
  split at h
  · rename_i existing hexisting
    split_ifs at h with heq
    · cases h
      exact ⟨rfl, heq ▸ hexisting, fun _ hc => hc⟩
    · cases h
  · rename_i hnone
    split_ifs at h
    · cases h
    · cases h
      refine ⟨rfl, ?_, fun hprovider hc => ⟨hc.offered, hc.distinct, ?_, ?_⟩⟩
      · have hfind : s.bindings.find? (·.requested == requested) = none := by
          simpa [bindingFor] using hnone
        simp [bindingFor, find?_append, hfind]
      · rw [map_append, map_singleton]
        exact hc.functional.append (nodup_singleton _)
          (disjoint_singleton.mpr (not_mem_of_bindingFor_eq_none hnone))
      · exact forall_mem_append.mpr ⟨hc.bound, forall_mem_singleton.mpr hprovider⟩

/-- What a search that succeeds has established: the tables are consistent, the
requirement is satisfied, and so are the dependencies of all that was newly selected. -/
structure Solved (catalog : List Item) (requested constraint : Bytes) (s s' : Solver) : Prop where
  consistent : Consistent catalog s'
  satisfied : Satisfied s' ⟨requested, constraint⟩
  dependencies : ∀ item ∈ s'.selected, item ∈ s.selected ∨
    ∀ dependency ∈ item.dependencies, Satisfied s' dependency

variable {solve : Bytes → Bytes → Solver → Status × Solver}

theorem solveDependencies_eq_ok (hextends : ∀ r c s, Extends s (solve r c s).2)
    (hsolve : ∀ r c s s', Consistent catalog s → solve r c s = (.ok, s') →
      Solved catalog r c s s') {dependencies : List Relation} (hs : Consistent catalog s)
    (h : solveDependencies solve dependencies s = (.ok, s')) :
    Consistent catalog s' ∧ (∀ dependency ∈ dependencies, Satisfied s' dependency) ∧
      ∀ item ∈ s'.selected, item ∈ s.selected ∨
        ∀ dependency ∈ item.dependencies, Satisfied s' dependency := by
  induction dependencies generalizing s with
  | nil =>
    cases h
    exact ⟨hs, fun _ hd => absurd hd not_mem_nil, fun _ hitem => .inl hitem⟩
  | cons dependency dependencies ih =>
    rw [solveDependencies] at h
    split at h
    · rename_i s₁ heq
      have hfirst := hsolve _ _ s s₁ hs heq
      obtain ⟨hconsistent, hrest, hselected⟩ := ih hfirst.consistent h
      have hgrown : Extends s₁ s' := by
        have := extends_solveDependencies hextends dependencies s₁
        rwa [h] at this
      refine ⟨hconsistent, forall_mem_cons.mpr ⟨hgrown.satisfied hfirst.satisfied, hrest⟩,
        fun item hitem => ?_⟩
      rcases hselected item hitem with hold | hnew
      · rcases hfirst.dependencies item hold with hold | hnew
        · exact .inl hold
        · exact .inr fun d hd => hgrown.satisfied (hnew d hd)
      · exact .inr hnew
    · rename_i status _ heq hfailed
      cases h
      exact absurd rfl heq

/-- No conflict of a selected entry is met by a selected entry. -/
def ConflictFree (s : Solver) : Prop :=
  ∀ source ∈ s.selected, ∀ conflict ∈ source.conflicts, ∀ target ∈ s.selected,
    target.meets conflict.identifier conflict.value = false

theorem selectedConflict_eq_ok (h : selectedConflict s = .ok) : ConflictFree s := by
  rw [selectedConflict] at h
  split_ifs at h with hany
  intro source hsource conflict hconflict target htarget
  have hnone := any_eq_false.mp (Bool.eq_false_iff.mpr hany) source hsource
  rw [conflictsAny, Bool.not_eq_true, any_eq_false] at hnone
  have := any_eq_false.mp (Bool.eq_false_iff.mpr (hnone conflict hconflict)) target htarget
  simpa using this

/-- The steps of a choice that succeeds. -/
theorem tryItem_cases (h : tryItem solve requested item s = (.ok, s')) :
    ∃ s₁ s₂, addBinding requested item.entry.identifier
        { s with selected := s.selected ++ [item] } = (.ok, s₁) ∧
      addBinding item.entry.identifier item.entry.identifier s₁ = (.ok, s₂) ∧
      solveDependencies solve item.dependencies s₂ = (.ok, s') ∧ selectedConflict s' = .ok := by
  rw [tryItem] at h
  split at h
  · rename_i s₁ heq₁
    split at h
    · rename_i s₂ heq₂
      split at h
      · rename_i s₃ heq₃
        obtain ⟨hconflict, rfl⟩ := mk.inj h
        exact ⟨s₁, s₂, heq₁, heq₂, heq₃, hconflict⟩
      · rename_i hfailed _
        exact absurd (mk.inj h).1 hfailed
    · rename_i hfailed _
      exact absurd (mk.inj h).1 hfailed
  · rename_i hfailed _
    exact absurd (mk.inj h).1 hfailed

/-- A choice that fails is undone, so that the one that succeeds starts from the same state. -/
theorem tryVersions_cases (hextends : ∀ r c s, Extends s (solve r c s).2) {attempts : ℕ}
    {ceiling : Option Bytes} {best : Status} (hbest : best ≠ .ok)
    (h : tryVersions solve catalog requested constraint attempts ceiling best s = (.ok, s')) :
    ∃ item ∈ catalog, item.meets requested constraint ∧
      tryItem solve requested item s = (.ok, s') := by
  induction attempts generalizing ceiling best with
  | zero => exact absurd (mk.inj h).1 hbest
  | succ attempts ih =>
    rw [tryVersions] at h
    split at h
    · exact absurd (mk.inj h).1 hbest
    · rename_i item hnewest
      obtain ⟨hitem, hmeets⟩ := mem_of_newestBelow hnewest
      split_ifs at h
      · cases h
      · split at h
        · rename_i tried heq
          cases h
          exact ⟨item, hitem, hmeets, heq⟩
        · rename_i status tried hstatus heq
          have htried := extends_tryItem hextends requested item s
          rw [heq] at htried
          rw [htried.cutBack] at h
          refine ih ?_ h
          split_ifs
          · exact hstatus
          · exact hbest

theorem uniqueProvider_ne_ok {status : Status}
    (h : uniqueProvider catalog requested constraint = .error status) : status ≠ .ok := by
  rw [uniqueProvider] at h
  split at h
  · cases h
    nofun
  · split_ifs at h
    cases h
    nofun

/-- A search succeeds with a version that is selected, or with one that it selects. -/
theorem solveRequirement_cases
    (h : solveRequirement catalog (levels + 1) requested constraint s = (.ok, s')) :
    ∃ provider, uniqueProvider catalog requested constraint = .ok provider ∧
      ((∃ item ∈ s.selected, item.entry.identifier = provider ∧
          item.meets requested constraint ∧ addBinding requested provider s = (.ok, s')) ∨
        (∀ item ∈ s.selected, item.entry.identifier ≠ provider) ∧
          ∃ item ∈ catalog, item.meets requested constraint ∧
            tryItem (solveRequirement catalog levels) requested item s = (.ok, s')) := by
  rw [solveRequirement] at h
  split at h
  · rename_i status hfailed
    exact absurd (mk.inj h).1 (uniqueProvider_ne_ok hfailed)
  · rename_i provider hprovider
    refine ⟨provider, hprovider, ?_⟩
    split_ifs at h
    · cases h
    · split at h
      · rename_i item hselected
        split_ifs at h with hmeets
        · exact .inl ⟨item, mem_of_find?_eq_some hselected,
            by simpa using find?_some hselected, hmeets, h⟩
        · cases h
      · rename_i hnone
        refine .inr ⟨fun item hitem heq => ?_, tryVersions_cases
          (extends_solveRequirement catalog levels) Status.noConfusion h⟩
        exact find?_eq_none.mp hnone item hitem (beq_iff_eq.mpr heq)

theorem tryItem_eq_ok (hextends : ∀ r c s, Extends s (solve r c s).2)
    (hsolve : ∀ r c s s', Consistent catalog s → solve r c s = (.ok, s') →
      Solved catalog r c s s') (hs : Consistent catalog s) (hitem : item ∈ catalog)
    (hmeets : item.meets requested constraint)
    (hfresh : item.entry.identifier ∉ s.selected.map (·.entry.identifier))
    (h : tryItem solve requested item s = (.ok, s')) :
    Solved catalog requested constraint s s' ∧ ConflictFree s' := by
  have hselected : Consistent catalog { s with selected := s.selected ++ [item] } := by
    refine ⟨forall_mem_append.mpr ⟨hs.offered, forall_mem_singleton.mpr hitem⟩, ?_, hs.functional,
      fun binding hbinding => ?_⟩
    · rw [map_append, map_singleton]
      exact hs.distinct.append (nodup_singleton _) (disjoint_singleton.mpr hfresh)
    · obtain ⟨other, hother, heq⟩ := hs.bound binding hbinding
      exact ⟨other, mem_append_left _ hother, heq⟩
  have hself : item ∈ s.selected ++ [item] := mem_append_right _ (mem_singleton_self _)
  obtain ⟨s₁, s₂, heq₁, heq₂, heq₃, hconflict⟩ := tryItem_cases h
  obtain ⟨hselected₁, hbound₁, hconsistent₁⟩ := addBinding_eq_ok catalog heq₁
  obtain ⟨hselected₂, -, hconsistent₂⟩ := addBinding_eq_ok catalog heq₂
  have hs₂ : s₂.selected = s.selected ++ [item] := hselected₂.trans hselected₁
  have hgrown₂ := extends_addBinding item.entry.identifier item.entry.identifier s₁
  have hgrown₃ := extends_solveDependencies hextends item.dependencies s₂
  rw [heq₂] at hgrown₂
  rw [heq₃] at hgrown₃
  have hc₂ := hconsistent₂ ⟨item, hselected₁ ▸ hself, rfl⟩
    (hconsistent₁ ⟨item, hself, rfl⟩ hselected)
  obtain ⟨hc₃, hdependencies, hnew⟩ := solveDependencies_eq_ok hextends hsolve hc₂ heq₃
  have hitem₃ : item ∈ s'.selected := hgrown₃.selected.subset (hs₂ ▸ hself)
  refine ⟨⟨hc₃, ⟨item, hitem₃, (hgrown₂.trans hgrown₃).bindingFor hbound₁, hmeets⟩,
    fun other hother => ?_⟩, selectedConflict_eq_ok hconflict⟩
  rcases hnew other hother with hold | hsatisfied
  · rw [hs₂] at hold
    rcases mem_append.mp hold with hold | hlast
    · exact .inl hold
    · cases mem_singleton.mp hlast
      exact .inr hdependencies
  · exact .inr hsatisfied

/-- A search that succeeds is sound. If nothing was selected before it, then it has
checked all that is selected now for conflicts. -/
theorem solveRequirement_eq_ok (hs : Consistent catalog s)
    (h : solveRequirement catalog levels requested constraint s = (.ok, s')) :
    Solved catalog requested constraint s s' ∧ (s.selected = [] → ConflictFree s') := by
  induction levels generalizing requested constraint s s' with
  | zero => cases h
  | succ levels ih =>
    obtain ⟨provider, hprovider, ⟨item, hitem, hidentifier, hmeets, hadd⟩ |
      ⟨hnone, item, hitem, hmeets, htry⟩⟩ := solveRequirement_cases h
    · obtain ⟨hsame, hbound, hconsistent⟩ := addBinding_eq_ok catalog hadd
      refine ⟨⟨hconsistent ⟨item, hitem, hidentifier⟩ hs,
        ⟨item, hsame ▸ hitem, hidentifier ▸ hbound, hmeets⟩,
        fun other hother => .inl (hsame ▸ hother)⟩, fun hempty => ?_⟩
      rw [hempty] at hitem
      exact absurd hitem not_mem_nil
    · have hfresh : item.entry.identifier ∉ s.selected.map (·.entry.identifier) := by
        intro hmem
        obtain ⟨other, hother, heq⟩ := mem_map.mp hmem
        exact hnone other hother
          (heq.trans (identifier_of_uniqueProvider hprovider hitem hmeets))
      have hsolved := tryItem_eq_ok (extends_solveRequirement catalog levels)
        (fun r c s s' hs h => (ih hs h).1) hs hitem hmeets hfresh htry
      exact ⟨hsolved.1, fun _ => hsolved.2⟩

theorem solveTarget_eq_ok (h : solveTarget catalog requested = (.ok, s)) :
    Consistent catalog s ∧ ConflictFree s ∧ Satisfied s ⟨requested, [ascii '*']⟩ ∧
      ∀ item ∈ s.selected, ∀ dependency ∈ item.dependencies, Satisfied s dependency := by
  have hempty : Consistent catalog ⟨[], []⟩ := ⟨nofun, nodup_nil, nodup_nil, nofun⟩
  obtain ⟨hsolved, hfree⟩ := solveRequirement_eq_ok hempty h
  exact ⟨hsolved.consistent, hfree rfl, hsolved.satisfied, fun item hitem =>
    (hsolved.dependencies item hitem).resolve_left not_mem_nil⟩

/-! ### Providers -/

/-- One package provides what a dependency asks for. -/
def Resolvable (catalog : List Item) (dependency : Relation) : Prop :=
  ∃ provider, uniqueProvider catalog dependency.identifier dependency.value = .ok provider

/-- Whatever was newly selected has dependencies with one provider each. -/
def SelectsResolvable (catalog : List Item) (s s' : Solver) : Prop :=
  ∀ item ∈ s'.selected, item ∈ s.selected ∨
    ∀ dependency ∈ item.dependencies, Resolvable catalog dependency

theorem solveDependencies_resolvable {dependencies : List Relation}
    (hsolve : ∀ r c s s', solve r c s = (.ok, s') →
      Resolvable catalog ⟨r, c⟩ ∧ SelectsResolvable catalog s s')
    (h : solveDependencies solve dependencies s = (.ok, s')) :
    (∀ dependency ∈ dependencies, Resolvable catalog dependency) ∧
      SelectsResolvable catalog s s' := by
  induction dependencies generalizing s with
  | nil =>
    cases h
    exact ⟨nofun, fun _ hitem => .inl hitem⟩
  | cons dependency dependencies ih =>
    rw [solveDependencies] at h
    split at h
    · rename_i s₁ heq
      obtain ⟨hfirst, hselects⟩ := hsolve _ _ s s₁ heq
      obtain ⟨hrest, hselects'⟩ := ih h
      exact ⟨forall_mem_cons.mpr ⟨hfirst, hrest⟩, fun item hitem =>
        (hselects' item hitem).elim (hselects item) .inr⟩
    · rename_i hfailed _
      exact absurd (mk.inj h).1 hfailed

theorem solveRequirement_resolvable
    (h : solveRequirement catalog levels requested constraint s = (.ok, s')) :
    Resolvable catalog ⟨requested, constraint⟩ ∧ SelectsResolvable catalog s s' := by
  induction levels generalizing requested constraint s s' with
  | zero => cases h
  | succ levels ih =>
    obtain ⟨provider, hprovider, ⟨item, -, -, -, hadd⟩ | ⟨-, item, -, -, htry⟩⟩ :=
      solveRequirement_cases h
    · exact ⟨⟨provider, hprovider⟩, fun other hother =>
        .inl ((addBinding_eq_ok catalog hadd).1 ▸ hother)⟩
    · obtain ⟨s₁, s₂, heq₁, heq₂, heq₃, -⟩ := tryItem_cases htry
      obtain ⟨hdependencies, hselects⟩ := solveDependencies_resolvable (fun r c s s' h => ih h) heq₃
      refine ⟨⟨provider, hprovider⟩, fun other hother => ?_⟩
      rcases hselects other hother with hold | hnew
      · rw [(addBinding_eq_ok catalog heq₂).1, (addBinding_eq_ok catalog heq₁).1] at hold
        rcases mem_append.mp hold with hold | hlast
        · exact .inl hold
        · cases mem_singleton.mp hlast
          exact .inr hdependencies
      · exact .inr hnew

end Sound

section Catalog

variable {repository : RepositoryView} {entry : CatalogEntry}

theorem relationAt_of_checkRelations {group first : ℕ} {offsets : List ℕ} {previous : Option Bytes}
    (h : checkRelations repository entry group first offsets previous = .ok ()) :
    ∀ offset ∈ offsets, ∃ relation, relationAt repository (first + offset) (group == 2) =
      .ok relation := by
  induction offsets generalizing previous with
  | nil => exact fun _ hoffset => absurd hoffset not_mem_nil
  | cons offset offsets ih =>
    rw [checkRelations] at h
    split at h
    · cases h
    · rename_i relation hrelation
      split_ifs at h
      exact forall_mem_cons.mpr ⟨⟨relation, hrelation⟩, ih h⟩

theorem readItem_of_checkEntries {indices : List ℕ} {previous : Option (Bytes × Bytes)}
    {cursor result : ℕ} (h : checkEntries repository indices previous cursor = .ok result) :
    ∀ index ∈ indices, ∃ item, readItem repository index = .ok item := by
  induction indices generalizing previous cursor with
  | nil => exact fun _ hindex => absurd hindex not_mem_nil
  | cons index indices ih =>
    rw [checkEntries] at h
    split at h
    · cases h
    · rename_i entry hentry
      iterate 3
        split at h
        · cases h
      obtain ⟨⟨⟩, hdependencies, h⟩ := bind_eq_ok.mp h
      obtain ⟨⟨⟩, hconflicts, h⟩ := bind_eq_ok.mp h
      obtain ⟨⟨⟩, hprovides, h⟩ := bind_eq_ok.mp h
      dsimp only at h
      split_ifs at h
      refine forall_mem_cons.mpr ⟨?_, ih h⟩
      obtain ⟨dependencies, hd⟩ := mapM_isOk (relationAt_of_checkRelations hdependencies)
      obtain ⟨conflicts, hc⟩ := mapM_isOk (relationAt_of_checkRelations hconflicts)
      obtain ⟨provides, hp⟩ := mapM_isOk (relationAt_of_checkRelations hprovides)
      refine ⟨⟨entry, dependencies, conflicts, provides⟩, bind_eq_ok.mpr ⟨entry, hentry, ?_⟩⟩
      exact bind_eq_ok.mpr ⟨_, hd, bind_eq_ok.mpr ⟨_, hc, bind_eq_ok.mpr ⟨_, hp, rfl⟩⟩⟩

theorem readCatalog_of_repositoryOpen {bytes : Bytes} {policy : Policy} {trust : Option Trust}
    (h : repositoryOpen bytes policy trust = .ok repository) :
    ∃ catalog, readCatalog repository = .ok catalog := by
  obtain ⟨parsed, -, h⟩ := bind_eq_ok.mp h
  obtain ⟨cursor, hentries, h⟩ := bind_eq_ok.mp h
  split_ifs at h
  obtain ⟨-, -, h⟩ := bind_eq_ok.mp h
  cases h
  exact mapM_isOk (readItem_of_checkEntries hentries)

/-- For an accepted index, a search for a target that succeeds has selected at most one
version of each package, has bound each requested identifier to one package, and has
bound every dependency of a selected entry to a selected entry that meets it. No conflict
of a selected entry is met by a selected entry. -/
theorem solveTarget_sound {bytes : Bytes} {policy : Policy} {trust : Option Trust}
    (hopen : repositoryOpen bytes policy trust = .ok repository) (requested : Bytes) :
    ∃ catalog, readCatalog repository = .ok catalog ∧
      ∀ s, solveTarget catalog requested = (.ok, s) → (s.selected.map (·.entry.identifier)).Nodup ∧
        (s.bindings.map (·.requested)).Nodup ∧
        (∀ item ∈ s.selected, ∀ dependency ∈ item.dependencies, Satisfied s dependency) ∧
        ConflictFree s ∧ Satisfied s ⟨requested, [ascii '*']⟩ := by
  obtain ⟨catalog, hcatalog⟩ := readCatalog_of_repositoryOpen hopen
  refine ⟨catalog, hcatalog, fun s h => ?_⟩
  obtain ⟨hconsistent, hfree, htarget, hdependencies⟩ := solveTarget_eq_ok h
  exact ⟨hconsistent.distinct, hconsistent.functional, hdependencies, hfree, htarget⟩

end Catalog

section Sample

abbrev sampleKey : Bytes := List.replicate 32 5

abbrev samplePublisher : Publisher := ⟨(sha256Of sampleKey).val, List.replicate 64 1, 1⟩

abbrev sampleTrust : Trust := ⟨fun _ => (.trusted, sampleKey), fun _ _ _ _ _ => true⟩

abbrev samplePolicy : Policy := ⟨5, 1, 1, false⟩

abbrev sampleFreshness : Freshness := ⟨1, 1, 10⟩

abbrev sampleRepository : Bytes := asciiText ['r', '.', 'x']

abbrev versionOne : Bytes := asciiText ['1', '.', '0', '.', '0']

abbrev versionTwo : Bytes := asciiText ['2', '.', '0', '.', '0']

abbrev compatibleOne : Bytes := asciiText ['^', '1', '.', '0', '.', '0']

abbrev sampleIndex : Bytes :=
  buildRepository samplePublisher sampleFreshness sampleRepository
    [⟨asciiText ['a', '.', 'p'], versionOne, asciiText ['a'], 1000, zeros 32,
        [⟨asciiText ['l', '.', 'b'], compatibleOne⟩], [], []⟩,
      ⟨asciiText ['l', '.', 'b'], versionOne, asciiText ['b'], 1000, zeros 32, [], [], []⟩]

set_option maxRecDepth 4000 in
theorem solveTarget_sample :
    (do
      let repository ← repositoryOpen sampleIndex samplePolicy (some sampleTrust)
      let catalog ← readCatalog repository
      .ok ((solveTarget catalog (asciiText ['a', '.', 'p'])).1,
        (solveTarget catalog (asciiText ['a', '.', 'p'])).2.selected.length) :
      Except Status (Status × ℕ)).toOption = some (.ok, 2) := by
  decide +kernel

/-- The application is selected with its library. -/
theorem solveTarget_sound_sample :
    ∃ repository catalog s,
      repositoryOpen sampleIndex samplePolicy (some sampleTrust) = .ok repository ∧
      readCatalog repository = .ok catalog ∧
      solveTarget catalog (asciiText ['a', '.', 'p']) = (.ok, s) ∧ s.selected.length = 2 ∧
      ConflictFree s := by
  have hsample := solveTarget_sample
  cases hopen : repositoryOpen sampleIndex samplePolicy (some sampleTrust) with
  | error status =>
    rw [hopen] at hsample
    cases hsample
  | ok repository =>
    obtain ⟨catalog, hcatalog, hsound⟩ := solveTarget_sound hopen (asciiText ['a', '.', 'p'])
    rw [hopen] at hsample
    simp only [bind, Except.bind, hcatalog, Except.toOption, Option.some.injEq, mk.injEq] at hsample
    have hsolved : solveTarget catalog (asciiText ['a', '.', 'p']) =
        (.ok, (solveTarget catalog (asciiText ['a', '.', 'p'])).2) := Prod.ext hsample.1 rfl
    exact ⟨repository, catalog, _, rfl, hcatalog, hsolved, hsample.2, (hsound _ hsolved).2.2.2.1⟩

end Sample

end OpenRFS.PackageManager
