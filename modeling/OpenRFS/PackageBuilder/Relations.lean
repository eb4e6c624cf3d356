import OpenRFS.PackageBuilder.Built

/-!
# Conflicts and dependents in a built generation

The search for the packages of a plan looks at conflicts among the packages it selects.
The builder then merges them with the installed packages and does not look at conflicts
again. So a built generation is free of conflicts of the planned packages if, and only
if, none of them is matched by an installed package that is kept.

The dependencies of the planned packages are met by what the search has selected. The
dependencies of the installed packages that are kept were met by the versions that were
installed; a plan can replace such a version, and nothing compares the new one with the
constraints of its dependents.
-/

namespace OpenRFS

namespace PackageManager

open Codec PackageState

theorem planDependencyBinding_eq_ok {catalog : List Item} {plan : Plan}
    {planIndex dependencyIndex : ℕ} {dependency : DependencyRecord}
    (h : planDependencyBinding catalog plan planIndex dependencyIndex = .ok dependency) :
    ∃ item consumer declared, plan.items[planIndex]? = some item ∧
      catalog[item.sourceIndex]? = some consumer ∧ declared ∈ consumer.dependencies ∧
      uniqueProvider catalog declared.identifier declared.value = .ok dependency.provider ∧
      dependency.requested = declared.identifier ∧ dependency.constraint = declared.value := by
  obtain ⟨-, h⟩ := ite_error_eq_ok.mp h
  split at h
  · cases h
  rename_i item hitem
  split at h
  · cases h
  rename_i consumer hconsumer
  obtain ⟨-, h⟩ := ite_error_eq_ok.mp h
  split at h
  · cases h
  rename_i declared hdeclared
  obtain ⟨provider, hprovider, h⟩ := bind_eq_ok.mp h
  cases h
  exact ⟨item, consumer, declared, hitem, hconsumer, List.mem_of_getElem? hdeclared, hprovider,
    rfl, rfl⟩

theorem semanticVersion_of_databasePackage {view : DatabaseView} {index : ℕ}
    {package : PackageRecord} (h : databasePackage view index = .ok package) :
    semanticVersion package.version := by
  rw [databasePackage] at h
  split_ifs at h
  obtain ⟨identifier, -, h⟩ := bind_eq_ok.mp h
  obtain ⟨version, hversion, h⟩ := bind_eq_ok.mp h
  obtain ⟨-, h⟩ := ite_error_eq_ok.mp h
  cases h
  exact (textField_eq_ok.mp hversion).2

end PackageManager

namespace PackageBuilder

open Codec PackageState PackageManager PackageGeneration List

/-- A recorded package matches a relation of an entry. -/
def Matches (identifier version : Bytes) (relation : Relation) : Prop :=
  identifier = relation.identifier ∧ versionSatisfies version relation.value = true

/-- The conflicts of the entries that a plan installs. -/
def PlannedConflict (catalog : List Item) (plan : Plan) (conflict : Relation) : Prop :=
  ∃ item ∈ plan.items, ∃ entry, catalog[item.sourceIndex]? = some entry ∧ conflict ∈ entry.conflicts

/-- No conflict of a planned entry is matched by a package of the generation, or met by
what a planned entry provides. -/
def NoConflict (catalog : List Item) (plan : Plan) (spec : GenerationSpec) : Prop :=
  ∀ conflict, PlannedConflict catalog plan conflict →
    (∀ package ∈ spec.packages, ¬ Matches package.identifier package.version conflict) ∧
    ∀ item ∈ plan.items, ∀ entry, catalog[item.sourceIndex]? = some entry →
      entry.meets conflict.identifier conflict.value = false

/-- No conflict of a planned entry is matched by an installed package that the plan does
not name and that the merged packages need. -/
def KeptApart (catalog : List Item) (plan : Plan) (installed : Option DatabaseView)
    (selected : List Output) : Prop :=
  ∀ view, installed = some view → ∀ index package, databasePackage view index = .ok package →
    keepInstalledPackage plan package = true → Needed selected package.identifier →
    ∀ conflict, PlannedConflict catalog plan conflict →
      ¬ Matches package.identifier package.version conflict

theorem meets_of_matches {entry : Item} {relation : Relation}
    (h : Matches entry.entry.identifier entry.entry.version relation) :
    entry.meets relation.identifier relation.value := by
  rw [Item.meets, entryProvides, if_pos h.1]
  exact h.2

/-- Every dependency in a database on a package under its own name is satisfied by the
version recorded for it. -/
def EdgesSatisfied (view : DatabaseView) : Prop :=
  ∀ position dependency, databaseDependency view position = .ok dependency →
    dependency.requested = dependency.provider →
    ∀ index package, databasePackage view index = .ok package →
      package.identifier = dependency.provider →
      versionSatisfies package.version dependency.constraint = true

theorem edgesSatisfied_iff {view : DatabaseView} : EdgesSatisfied view ↔
    ∀ position < view.edgeCount, ∀ dependency ∈ (databaseDependency view position).toOption,
      dependency.requested = dependency.provider →
      ∀ index < view.packageCount, ∀ package ∈ (databasePackage view index).toOption,
        package.identifier = dependency.provider →
        versionSatisfies package.version dependency.constraint := by
  constructor
  · intro h position _ dependency hdependency hself index _ package hpackage
    exact h position dependency (eq_ok_of_toOption hdependency) hself index package
      (eq_ok_of_toOption hpackage)
  · intro h position dependency hdependency hself index package hpackage
    have hposition : position < view.edgeCount := by
      by_contra hnot
      rw [databaseDependency, if_pos (.inr (le_of_not_gt hnot))] at hdependency
      cases hdependency
    have hindex : index < view.packageCount := by
      by_contra hnot
      rw [databasePackage, if_pos (.inr (le_of_not_gt hnot))] at hpackage
      cases hpackage
    exact h position hposition dependency (by rw [hdependency]; rfl) hself index hindex package
      (by rw [hpackage]; rfl)

set_option synthInstance.maxSize 512 in
instance (view : DatabaseView) : Decidable (EdgesSatisfied view) :=
  decidable_of_iff' _ edgesSatisfied_iff

/-- The same for a generation, in which the provider must be recorded. -/
def GenerationSatisfied (spec : GenerationSpec) : Prop :=
  ∀ dependency ∈ spec.dependencies, dependency.requested = dependency.provider →
    ∃ package ∈ spec.packages, package.identifier = dependency.provider ∧
      versionSatisfies package.version dependency.constraint = true

/-- Every planned version satisfies the dependencies on it of the installed packages that
the plan does not name and that the merged packages need. -/
def DependentsMet (plan : Plan) (installed : Option DatabaseView) (selected : List Output) :
    Prop :=
  ∀ view, installed = some view → ∀ index package, databasePackage view index = .ok package →
    keepInstalledPackage plan package = true → Needed selected package.identifier →
    ∀ offset < package.dependencyCount.toNat, ∀ dependency,
      databaseDependency view (package.dependencyStart.toNat + offset) = .ok dependency →
      dependency.requested = dependency.provider →
      ∀ item ∈ plan.items, item.identifier = dependency.provider →
        versionSatisfies item.version dependency.constraint = true

namespace BuildSteps

variable {repositoryBytes : Bytes} {plan : Plan} {policy : Policy} {trust : Trust} {built : Built}
  {repository : RepositoryView} {catalog : List Item} {solver : Solver}
  {selected retained : List Output}
  (h : BuildSteps repositoryBytes plan policy trust built repository catalog solver selected
    retained)
include h

theorem exists_record {output : Output} (hselected : output ∈ selected)
    (hneeded : Needed selected output.identifier) : ∃ record ∈ built.spec.packages,
      record.identifier = output.identifier ∧ record.version = output.version := by
  rw [h.packages]
  exact exists_mem_right_of_forall₂ (forall₂_packageRecordsFrom 0 _)
    ((h.prunes.needed output).mpr ⟨hselected, hneeded⟩)

theorem exists_output {record : PackageRecord} (hrecord : record ∈ built.spec.packages) :
    ∃ output ∈ selected, Needed selected output.identifier ∧
      record.identifier = output.identifier ∧ record.version = output.version := by
  rw [h.packages] at hrecord
  obtain ⟨output, hretained, hsame⟩ :=
    exists_mem_left_of_forall₂ (forall₂_packageRecordsFrom 0 _) hrecord
  obtain ⟨hselected, hneeded⟩ := (h.prunes.needed output).mp hretained
  exact ⟨output, hselected, hneeded, hsame⟩

theorem planned_meets_eq_false {conflict : Relation}
    (hconflict : PlannedConflict catalog plan conflict) {item : PlanItem}
    (hitem : item ∈ plan.items) {entry : Item} (hentry : catalog[item.sourceIndex]? = some entry) :
    entry.meets conflict.identifier conflict.value = false := by
  obtain ⟨owner, howner, source, hsource, hmem⟩ := hconflict
  obtain ⟨source', hselected, -, hsource', -⟩ := h.entry howner
  obtain ⟨entry', hselected', -, hentry', -⟩ := h.entry hitem
  cases hsource.symm.trans hsource'
  cases hentry.symm.trans hentry'
  exact h.solved.2.1 source hselected conflict hmem entry hselected'

theorem noConflict_iff :
    NoConflict catalog plan built.spec ↔
      KeptApart catalog plan built.workspace.installed selected := by
  constructor
  · intro hfree view hview index package hstored hkeep hneeded conflict hconflict
    obtain ⟨output, houtput, htaken⟩ := h.exists_takenOver hview hstored hkeep
    obtain ⟨record, hrecord, hidentifier, hversion⟩ :=
      h.exists_record houtput (by rwa [htaken.identifier])
    have hnot := (hfree conflict hconflict).1 record hrecord
    rwa [hidentifier, hversion, htaken.identifier, htaken.version] at hnot
  · intro hkept conflict hconflict
    refine ⟨fun record hrecord hmatches => ?_, fun item hitem entry hentry =>
      h.planned_meets_eq_false hconflict hitem hentry⟩
    obtain ⟨output, hselected, hneeded, hidentifier, hversion⟩ := h.exists_output hrecord
    rw [hidentifier, hversion] at hmatches
    rcases h.output_cases hselected with ⟨view, index, package, htaken⟩ | ⟨index, item, hstaged⟩
    · rw [htaken.identifier, htaken.version] at hmatches
      rw [htaken.identifier] at hneeded
      exact hkept view htaken.installed index package htaken.stored
        (h.plan_eq ▸ htaken.kept) hneeded conflict hconflict hmatches
    · rw [hstaged.identifier, hstaged.version] at hmatches
      have hitem : item ∈ plan.items := mem_of_getElem? (h.plan_eq ▸ hstaged.planned)
      obtain ⟨entry, -, heq, hentry, -⟩ := h.entry hitem
      subst heq
      have hmeets := meets_of_matches hmatches
      rw [h.planned_meets_eq_false hconflict hitem hentry] at hmeets
      cases hmeets

/-- A dependency of a planned package on a package under its own name is satisfied by the
version that was selected. -/
theorem staged_edge {index : ℕ} {item : PlanItem} {output : Output}
    (hstaged : Staged built.workspace catalog index item output) {dependency : DependencyRecord}
    (hedge : dependency ∈ output.dependencies)
    (hself : dependency.requested = dependency.provider) :
    ∃ target ∈ solver.selected, target.entry.identifier = dependency.provider ∧
      versionSatisfies target.entry.version dependency.constraint := by
  obtain ⟨offset, hbinding⟩ := hstaged.edges dependency hedge
  obtain ⟨item', consumer, declared, hitem, hconsumer, hdeclared, hprovider, hrequested,
    hconstraint⟩ := planDependencyBinding_eq_ok hbinding
  rw [h.plan_eq] at hitem
  obtain ⟨entry, hselected, -, hentry, -⟩ := h.entry (List.mem_of_getElem? hitem)
  cases hconsumer.symm.trans hentry
  obtain ⟨hconsistent, -, hsatisfied⟩ := h.solved
  obtain ⟨target, htarget, -, hmeets⟩ := hsatisfied consumer hselected declared hdeclared
  have hidentifier := identifier_of_uniqueProvider hprovider (hconsistent.offered target htarget)
    hmeets
  refine ⟨target, htarget, hidentifier, ?_⟩
  rw [Item.meets, entryProvides, if_pos (by rw [hidentifier, ← hself, hrequested])] at hmeets
  rw [hconstraint]
  exact hmeets

theorem planned_version {item : PlanItem} (hitem : item ∈ plan.items) {output : Output}
    (houtput : output ∈ selected) (hidentifier : output.identifier = item.identifier) :
    output.version = item.version := by
  rcases h.output_cases houtput with ⟨view, index, package, htaken⟩ | ⟨index, other, hstaged⟩
  · have hkeep := htaken.kept
    have hnamed : plan.items.any (·.identifier == package.identifier) :=
      any_eq_true.mpr ⟨item, hitem, beq_iff_eq.mpr (htaken.identifier ▸ hidentifier.symm)⟩
    rw [h.plan_eq, keepInstalledPackage, hnamed] at hkeep
    cases hkeep
  · have hother : other ∈ plan.items := List.mem_of_getElem? (h.plan_eq ▸ hstaged.planned)
    obtain ⟨entry, hentry, rfl, -⟩ := h.entry hitem
    obtain ⟨entry', hentry', rfl, -⟩ := h.entry hother
    have hsame : entry' = entry := by
      refine inj_on_of_nodup_map h.solved.1.distinct hentry' hentry ?_
      exact hstaged.identifier.symm.trans hidentifier
    rw [hstaged.version, hsame]

theorem selected_version {target : Item} (htarget : target ∈ solver.selected) {output : Output}
    (houtput : output ∈ selected) (hidentifier : output.identifier = target.entry.identifier)
    {constraint : Bytes} (hversion : versionSatisfies target.entry.version constraint) :
    versionSatisfies output.version constraint := by
  by_cases hplanned : planItem target.entry ∈ plan.items
  · rw [h.planned_version hplanned houtput hidentifier]
    exact hversion
  · obtain ⟨index, package, hfound, hequal⟩ :=
      (h.planned.selected target htarget).resolve_left hplanned
    obtain ⟨view, hview, hstored, hname⟩ := installedPackage_eq_some hfound
    -- no item of the plan has the name of the entry, so the installed package is kept
    have hkeep : keepInstalledPackage plan package := by
      rw [keepInstalledPackage, Bool.not_eq_true', any_eq_false]
      intro item hitem hsame
      obtain ⟨entry, hentry, rfl, -⟩ := h.entry hitem
      have hentry' : entry = target := inj_on_of_nodup_map h.solved.1.distinct hentry htarget
          ((beq_iff_eq.mp hsame).trans hname)
      exact hplanned (hentry' ▸ hitem)
    obtain ⟨kept, hkept, htaken⟩ := h.exists_takenOver hview hstored hkeep
    have hsame : kept = output := by
      refine inj_on_of_nodup_map h.nodup hkept houtput ?_
      rw [htaken.identifier, hname, hidentifier]
    rw [← hsame, htaken.version]
    exact versionSatisfies_of_compareSemverText (semanticVersion_of_databasePackage hstored)
      hequal hversion

theorem generationSatisfied_iff
    (hinstalled : ∀ view, built.workspace.installed = some view → EdgesSatisfied view) :
    GenerationSatisfied built.spec ↔ DependentsMet plan built.workspace.installed selected := by
  constructor
  · intro hsatisfied view hview index package hstored hkeep hneeded offset hoffset dependency hedge
      hself item hitem hname
    obtain ⟨owner, howner, htaken⟩ := h.exists_takenOver hview hstored hkeep
    have hretained : owner ∈ retained := by
      refine (h.prunes.needed owner).mpr ⟨howner, ?_⟩
      rw [htaken.identifier]
      exact hneeded
    have hmem : dependency ∈ built.spec.dependencies := by
      rw [h.dependencies]
      exact mem_flatMap.mpr ⟨owner, hretained, (htaken.edges _).mpr ⟨offset, hoffset, hedge⟩⟩
    obtain ⟨provider, hprovider, hidentifier, hversion⟩ := hsatisfied dependency hmem hself
    obtain ⟨output, houtput, -, hname', hversion'⟩ := h.exists_output hprovider
    rwa [hversion', h.planned_version hitem houtput
      (hname'.symm.trans (hidentifier.trans hname.symm))] at hversion
  · intro hmet dependency hmem hself
    rw [h.dependencies] at hmem
    obtain ⟨owner, howner, hedge⟩ := mem_flatMap.mp hmem
    obtain ⟨hselected, hneeded⟩ := (h.prunes.needed owner).mp howner
    obtain ⟨provider, hprovider, hname⟩ := h.prunes.provided owner hselected dependency hedge
    obtain ⟨record, hrecord, hidentifier, hversion⟩ :=
      h.exists_record hprovider (hname ▸ .dependency hselected hneeded hedge)
    refine ⟨record, hrecord, hidentifier.trans hname, ?_⟩
    rw [hversion]
    rcases h.output_cases hselected with ⟨view, index, package, htaken⟩ | ⟨index, item, hstaged⟩
    · obtain ⟨offset, hoffset, hstored⟩ := (htaken.edges dependency).mp hedge
      rcases h.output_cases hprovider with ⟨view', index', package', htaken'⟩ |
        ⟨index', item, hstaged⟩
      · -- both were installed before
        cases htaken.installed.symm.trans htaken'.installed
        rw [htaken'.version]
        exact hinstalled view htaken.installed _ dependency hstored hself index' package'
          htaken'.stored (htaken'.identifier ▸ hname)
      · rw [hstaged.version]
        exact hmet view htaken.installed index package htaken.stored (h.plan_eq ▸ htaken.kept)
          (htaken.identifier ▸ hneeded) offset hoffset dependency hstored hself item
          (List.mem_of_getElem? (h.plan_eq ▸ hstaged.planned)) (hstaged.identifier ▸ hname)
    · obtain ⟨target, htarget, hidentifier, hversion⟩ := h.staged_edge hstaged hedge hself
      exact h.selected_version htarget hprovider (hname.trans hidentifier.symm) hversion

end BuildSteps

section

variable {repositoryBytes : Bytes} {installed : Option Bytes} {plan : Plan} {packages : List Bytes}
  {policy : Policy} {trust : Trust} {built : Built}

/-- A built generation has no conflict with a planned package exactly if none of the
conflicts is matched by an installed package that is kept. -/
theorem noConflict_iff_keptApart
    (hplan : plan.operation = .install ∨ plan.operation = .update)
    (h : packageBuilderBuild (some repositoryBytes) installed plan packages (some policy)
      (some trust) = .ok built) :
    ∃ repository catalog selected,
      repositoryOpen repositoryBytes policy (some trust) = .ok repository ∧
      readCatalog repository = .ok catalog ∧
      selectPackages built.workspace catalog = .ok selected ∧
      (NoConflict catalog plan built.spec ↔
        KeptApart catalog plan built.workspace.installed selected) := by
  obtain ⟨-, repository, catalog, solver, selected, retained, hsteps⟩ :=
    packageBuilderBuild_eq_ok hplan h
  exact ⟨repository, catalog, selected, hsteps.opened, hsteps.read, hsteps.select,
    hsteps.noConflict_iff⟩

/-- If the installed dependencies are satisfied, then those of a built generation are
exactly if the planned versions satisfy the installed packages that depend on them. -/
theorem generationSatisfied_iff_dependentsMet
    (hplan : plan.operation = .install ∨ plan.operation = .update)
    (hinstalled : ∀ bytes view, installed = some bytes → databaseParse bytes = .ok view →
      EdgesSatisfied view)
    (h : packageBuilderBuild (some repositoryBytes) installed plan packages (some policy)
      (some trust) = .ok built) :
    ∃ repository catalog selected,
      repositoryOpen repositoryBytes policy (some trust) = .ok repository ∧
      readCatalog repository = .ok catalog ∧
      selectPackages built.workspace catalog = .ok selected ∧
      (GenerationSatisfied built.spec ↔ DependentsMet plan built.workspace.installed selected) := by
  obtain ⟨hparsed, repository, catalog, solver, selected, retained, hsteps⟩ :=
    packageBuilderBuild_eq_ok hplan h
  refine ⟨repository, catalog, selected, hsteps.opened, hsteps.read, hsteps.select,
    hsteps.generationSatisfied_iff fun view hview => ?_⟩
  rw [hview] at hparsed
  cases installed with
  | none => cases hparsed
  | some bytes =>
    rw [parseInstalled] at hparsed
    split at hparsed
    · cases hparsed
    · rename_i parsed hparse
      cases hparsed
      exact hinstalled bytes view rfl hparse

end

section Sample

/-- The tool is built next to the application. -/
theorem noConflict_iff_keptApart_sample :
    ∃ built repository catalog selected, sampleBuild = .ok built ∧
      repositoryOpen toolIndex samplePolicy (some sampleTrust) = .ok repository ∧
      readCatalog repository = .ok catalog ∧
      selectPackages built.workspace catalog = .ok selected ∧
      (NoConflict catalog samplePlan built.spec ↔
        KeptApart catalog samplePlan built.workspace.installed selected) := by
  obtain ⟨built, -, -, hbuilt, -⟩ := exists_sampleBuild
  obtain ⟨repository, catalog, selected, hopened, hread, hselected, hiff⟩ :=
    noConflict_iff_keptApart (.inl rfl) hbuilt
  exact ⟨built, repository, catalog, selected, hbuilt, hopened, hread, hselected, hiff⟩

/-- The application that the tool conflicts with is in the built generation. -/
theorem sampleBuild_conflicts :
    ∃ built repository catalog, sampleBuild = .ok built ∧
      repositoryOpen toolIndex samplePolicy (some sampleTrust) = .ok repository ∧
      readCatalog repository = .ok catalog ∧ ¬ NoConflict catalog samplePlan built.spec := by
  obtain ⟨built, repository, catalog, hbuilt, hopened, hread, hpackages, -, hconflicts⟩ :=
    exists_sampleBuild
  refine ⟨built, repository, catalog, hbuilt, hopened, hread, fun hfree => ?_⟩
  obtain ⟨application, happlication, hsame⟩ : ∃ p ∈ built.spec.packages,
      (p.identifier, p.version) = (appName, versionOne) := by
    refine mem_map.mp ?_
    rw [hpackages]
    exact mem_cons_self
  obtain ⟨hidentifier, hversion⟩ := Prod.mk.inj hsame
  obtain ⟨library, tool, rfl⟩ : ∃ library tool, catalog = [library, tool] := by
    refine length_eq_two.mp ?_
    simpa using congrArg List.length hconflicts
  have htool : ⟨appName, [ascii '*']⟩ ∈ tool.conflicts := by
    have hlist : tool.conflicts = [⟨appName, [ascii '*']⟩] :=
      (List.cons.inj (List.cons.inj hconflicts).2).1
    rw [hlist]
    exact mem_singleton_self _
  refine (hfree _ ⟨_, mem_cons_of_mem _ mem_cons_self, tool, rfl, htool⟩).1 application
    happlication ⟨hidentifier, ?_⟩
  rw [hversion]
  decide

set_option maxRecDepth 8000 in
theorem edgesSatisfied_sampleGeneration :
    ∀ view ∈ (databaseParse (databaseOf sampleGeneration)).toOption, EdgesSatisfied view := by
  decide +kernel

/-- The tool is built next to the application. -/
theorem generationSatisfied_iff_dependentsMet_sample :
    (∀ view ∈ (databaseParse (databaseOf sampleGeneration)).toOption, EdgesSatisfied view) ∧
      ∃ built repository catalog selected, sampleBuild = .ok built ∧
        repositoryOpen toolIndex samplePolicy (some sampleTrust) = .ok repository ∧
        readCatalog repository = .ok catalog ∧
        selectPackages built.workspace catalog = .ok selected ∧
        (GenerationSatisfied built.spec ↔
          DependentsMet samplePlan built.workspace.installed selected) := by
  refine ⟨edgesSatisfied_sampleGeneration, ?_⟩
  obtain ⟨built, -, -, hbuilt, -⟩ := exists_sampleBuild
  have hinstalled : ∀ bytes view, some (databaseOf sampleGeneration) = some bytes →
      databaseParse bytes = .ok view → EdgesSatisfied view := by
    intro bytes view hbytes hview
    refine edgesSatisfied_sampleGeneration view ?_
    rw [Option.some.inj hbytes, hview]
    rfl
  obtain ⟨repository, catalog, selected, hopened, hread, hselected, hiff⟩ :=
    generationSatisfied_iff_dependentsMet (.inl rfl) hinstalled hbuilt
  exact ⟨built, repository, catalog, selected, hbuilt, hopened, hread, hselected, hiff⟩

/-- The application keeps its dependency on the first version of the library, and the
generation has the second. -/
theorem sampleBuild_breaks :
    (∀ view ∈ (databaseParse (databaseOf sampleGeneration)).toOption, EdgesSatisfied view) ∧
      ∃ built, sampleBuild = .ok built ∧ ¬ GenerationSatisfied built.spec := by
  refine ⟨edgesSatisfied_sampleGeneration, ?_⟩
  obtain ⟨built, -, -, hbuilt, -, -, hpackages, hdependencies, -⟩ := exists_sampleBuild
  refine ⟨built, hbuilt, fun hsatisfied => ?_⟩
  obtain ⟨package, hpackage, hidentifier, hversion⟩ :=
    hsatisfied ⟨libName, compatibleOne, libName⟩ (hdependencies ▸ mem_cons_self) rfl
  have hmem : (package.identifier, package.version) ∈
      [(appName, versionOne), (libName, versionTwo), (toolName, versionOne)] := by
    rw [← hpackages]
    exact mem_map.mpr ⟨package, hpackage, rfl⟩
  rw [hidentifier] at hmem
  have hrecorded : package.version = versionTwo := by
    simpa [asciiText, ascii] using hmem
  rw [hrecorded] at hversion
  exact absurd hversion (by decide)

end Sample

end PackageBuilder

end OpenRFS
