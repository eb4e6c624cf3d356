import OpenRFS.PackageBuilder.Merge
import OpenRFS.PackageManager.Planned

/-!
# What a build is made from

A successful build of an installation or an update goes back to an accepted index, a
search in it that succeeded, and the installed database. Each package of the new
generation is either one of the installed packages, unchanged, or has the identity of a
planned entry.
-/

namespace OpenRFS.PackageBuilder

open Codec PackageState PackageManager PackageGeneration List

/-- The steps of a successful build of an installation or an update. -/
structure BuildSteps (repositoryBytes : Bytes) (plan : Plan) (policy : Policy) (trust : Trust)
    (built : Built) (repository : RepositoryView) (catalog : List Item) (solver : Solver)
    (selected retained : List Output) : Prop where
  opened : repositoryOpen repositoryBytes policy (some trust) = .ok repository
  read : readCatalog repository = .ok catalog
  planned : Planned catalog built.workspace.installed plan solver
  plan_eq : built.workspace.plan = plan
  admitted : ∃ packages : List Bytes, packages.length = plan.items.length ∧
    admitPackages repository policy trust plan.items packages = .ok built.workspace.admitted
  select : selectPackages built.workspace catalog = .ok selected
  prune : pruneAndValidateGraph selected = .ok retained
  packages : built.spec.packages = packageRecordsFrom 0 retained
  dependencies : built.spec.dependencies = retained.flatMap (·.dependencies)

section Steps

variable {repositoryBytes : Bytes} {installed : Option Bytes} {plan : Plan}
  {packages : List Bytes} {policy : Policy} {trust : Trust} {built : Built}

theorem buildFrom_eq_ok {workspace : Workspace} {abi : UInt32} {repository : RepositoryView}
    (hrepository : workspace.repository = some repository)
    (h : buildFrom workspace abi = .ok built) :
    built.workspace = workspace ∧ ∃ catalog selected retained,
      readCatalog repository = .ok catalog ∧ selectPackages workspace catalog = .ok selected ∧
      pruneAndValidateGraph selected = .ok retained ∧
      built.spec.packages = packageRecordsFrom 0 retained ∧
      built.spec.dependencies = retained.flatMap (·.dependencies) := by
  rw [buildFrom, hrepository] at h
  obtain ⟨catalog, hcatalog, h⟩ := bind_eq_ok.mp h
  obtain ⟨selected, hselected, h⟩ := bind_eq_ok.mp h
  obtain ⟨retained, hretained, h⟩ := bind_eq_ok.mp h
  obtain ⟨files, -, h⟩ := bind_eq_ok.mp h
  obtain ⟨-, h⟩ := ite_error_eq_ok.mp h
  dsimp only at h
  split at h
  · cases h
  · cases h
    exact ⟨rfl, catalog, selected, retained, hcatalog, hselected, hretained, rfl, rfl⟩

theorem packageBuilderBuild_eq_ok (hplan : plan.operation = .install ∨ plan.operation = .update)
    (h : packageBuilderBuild (some repositoryBytes) installed plan packages (some policy)
      (some trust) = .ok built) :
    parseInstalled installed = .ok built.workspace.installed ∧
      ∃ repository catalog solver selected retained,
        BuildSteps repositoryBytes plan policy trust built repository catalog solver selected
          retained := by
  obtain ⟨workspace, hworkspace, h⟩ := bind_eq_ok.mp h
  obtain ⟨view, hparsed, hworkspace⟩ := bind_eq_ok.mp hworkspace
  rcases hplan with hop | hop
  all_goals
    rw [hop] at hworkspace
    obtain ⟨hcount, hworkspace⟩ := ite_error_eq_ok.mp hworkspace
    obtain ⟨-, hworkspace⟩ := ite_error_eq_ok.mp hworkspace
    obtain ⟨repository, hopened, hworkspace⟩ := bind_eq_ok.mp hworkspace
    obtain ⟨verified, hverified, hworkspace⟩ := bind_eq_ok.mp hworkspace
    obtain ⟨hsame, hworkspace⟩ := ite_error_eq_ok.mp hworkspace
    obtain ⟨admitted, hadmitted, hworkspace⟩ := bind_eq_ok.mp hworkspace
    obtain rfl := not_not.mp hsame
    cases hworkspace
    obtain ⟨hbuilt, catalog, selected, retained, hcatalog, hselected, hretained, hpackages,
      hdependencies⟩ := buildFrom_eq_ok rfl h
    obtain ⟨catalog', solver, hcatalog', -, -, hplanned⟩ := planInstall_eq_ok hverified
    obtain rfl := Except.ok.inj (hcatalog.symm.trans hcatalog')
    refine ⟨by rw [hbuilt]; exact hparsed, repository, catalog, solver, selected, retained, hopened,
      hcatalog, ?_, ?_, ⟨packages, not_not.mp hcount, ?_⟩, ?_, hretained, hpackages, hdependencies⟩
    · rw [hbuilt]
      exact hplanned
    · rw [hbuilt]
    · rw [hbuilt]
      exact hadmitted
    · rw [hbuilt]
      exact hselected

end Steps

variable {view : DatabaseView} {index count : ℕ} {package : PackageRecord} {item : PlanItem}
  {output : Output}

section Candidates

variable {workspace : Workspace} {catalog : List Item} {plan : Plan}

theorem indexedPackage_eq_ok {entry : ℕ × PackageRecord} :
    (match databasePackage view index with
      | .error _ => .error .state
      | .ok package => .ok (index, package) : Except Status (ℕ × PackageRecord)) = .ok entry ↔
      entry.1 = index ∧ databasePackage view index = .ok entry.2 := by
  obtain ⟨other, package⟩ := entry
  cases databasePackage view index with
  | error status => simp
  | ok found => simp [eq_comm]

theorem mem_keptPackages {kept : List Candidate} (h : keptPackages workspace = .ok kept)
    (candidate : Candidate) :
    candidate ∈ kept ↔ ∃ view index package, workspace.installed = some view ∧
      index < view.packageCount ∧ databasePackage view index = .ok package ∧
      keepInstalledPackage workspace.plan package ∧
      candidate = .installed index package := by
  rw [keptPackages] at h
  split at h
  · rename_i hnone
    cases h
    simp [hnone]
  · rename_i view hview
    obtain ⟨packages, hpackages, h⟩ := bind_eq_ok.mp h
    cases h
    have hread := mapM_eq_ok_iff.mp hpackages
    simp only [mem_map, mem_filter, hview, Option.some.injEq]
    constructor
    · rintro ⟨⟨index, package⟩, ⟨hmem, hkeep⟩, rfl⟩
      obtain ⟨index', hindex, hok⟩ := exists_mem_left_of_forall₂ hread hmem
      obtain ⟨rfl, hpackage⟩ := indexedPackage_eq_ok.mp hok
      exact ⟨view, index, package, rfl, mem_range.mp hindex, hpackage, hkeep, rfl⟩
    · rintro ⟨view, index, package, rfl, hindex, hpackage, hkeep, rfl⟩
      obtain ⟨⟨index', package'⟩, hmem, hok⟩ :=
        exists_mem_right_of_forall₂ hread (mem_range.mpr hindex)
      obtain ⟨rfl, hpackage'⟩ := indexedPackage_eq_ok.mp hok
      cases hpackage.symm.trans hpackage'
      exact ⟨_, ⟨hmem, hkeep⟩, rfl⟩

theorem mem_stagedPackages {candidate : Candidate} (h : candidate ∈ stagedPackages workspace) :
    ∃ index package item, workspace.admitted[index]? = some package ∧
      workspace.plan.items[index]? = some item ∧ candidate = .staged index package item := by
  rw [stagedPackages] at h
  split_ifs at h
  · cases h
  · obtain ⟨⟨index, package, item⟩, hmem, rfl⟩ := mem_map.mp h
    obtain ⟨i, hi⟩ := getElem?_of_mem hmem
    obtain ⟨hindex, hpair⟩ := getElem?_zip_eq_some.mp hi
    obtain ⟨hpackage, hitem⟩ := getElem?_zip_eq_some.mp hpair
    have heq : i = index := by
      obtain ⟨hlt, hget⟩ := List.getElem?_eq_some_iff.mp hindex
      rwa [List.getElem_range] at hget
    exact ⟨index, package, item, heq ▸ hpackage, heq ▸ hitem, rfl⟩

theorem nodup_sources {kept : List Candidate} (h : keptPackages workspace = .ok kept) :
    ((kept ++ stagedPackages workspace).map Candidate.source).Nodup := by
  have hkept : (kept.map Candidate.source).Nodup := by
    rw [keptPackages] at h
    split at h
    · cases h
      exact nodup_nil
    · rename_i view _
      obtain ⟨packages, hpackages, h⟩ := bind_eq_ok.mp h
      cases h
      have hindices : packages.map (·.1) = List.range view.packageCount := by
        rw [← forall₂_eq_eq_eq, forall₂_map_left_iff]
        exact (mapM_eq_ok_iff.mp hpackages).flip.imp fun _ _ hentry =>
          (indexedPackage_eq_ok.mp hentry).1
      have hnodup : (packages.map fun p => Source.installed p.1).Nodup := by
        have hmap : (packages.map fun p => Source.installed p.1) =
            (List.range view.packageCount).map .installed := by
          rw [← hindices, map_map]
          rfl
        rw [hmap]
        exact nodup_range.map fun _ _ h => Source.installed.inj h
      rw [map_map]
      exact (filter_sublist.map _).nodup hnodup
  have hstaged : ((stagedPackages workspace).map Candidate.source).Nodup := by
    rw [stagedPackages]
    split_ifs
    · exact nodup_nil
    · rw [map_map, zip_eq_zip_take_min]
      set indices := List.take _ (List.range workspace.admitted.length) with hindices
      have hmap : ∀ others : List (PackageView × PlanItem), indices.length ≤ others.length →
          (indices.zip others).map (Candidate.source ∘ fun p => .staged p.1 p.2.1 p.2.2) =
            indices.map .staged := by
        intro others hlength
        nth_rewrite 2 [← map_fst_zip hlength]
        rw [map_map]
        rfl
      rw [hmap _ (by simp [hindices])]
      exact ((take_sublist _ _).nodup nodup_range).map fun _ _ h => Source.staged.inj h
  rw [map_append]
  refine hkept.append hstaged fun source hleft hright => ?_
  obtain ⟨left, hkeptLeft, rfl⟩ := mem_map.mp hleft
  obtain ⟨right, hstagedRight, heq⟩ := mem_map.mp hright
  obtain ⟨view, index, package, -, -, -, -, rfl⟩ := (mem_keptPackages h left).mp hkeptLeft
  obtain ⟨index', package', item, -, -, rfl⟩ := mem_stagedPackages hstagedRight
  cases heq

/-- A package of the new generation that is taken over from the installed database. -/
structure TakenOver (workspace : Workspace) (view : DatabaseView) (index : ℕ)
    (package : PackageRecord) (output : Output) : Prop where
  installed : workspace.installed = some view
  stored : databasePackage view index = .ok package
  kept : keepInstalledPackage workspace.plan package = true
  identifier : output.identifier = package.identifier
  version : output.version = package.version
  edges : ∀ dependency, dependency ∈ output.dependencies ↔ ∃ offset < package.dependencyCount.toNat,
      databaseDependency view (package.dependencyStart.toNat + offset) = .ok dependency

/-- A package of the new generation that was planned. -/
structure Staged (workspace : Workspace) (catalog : List Item) (index : ℕ) (item : PlanItem)
    (output : Output) : Prop where
  planned : workspace.plan.items[index]? = some item
  source : output.source = .staged index
  identifier : output.identifier = item.identifier
  version : output.version = item.version
  edges : ∀ dependency ∈ output.dependencies, ∃ offset,
    planDependencyBinding catalog workspace.plan index offset = .ok dependency

theorem mem_installedDependencies {offsets : List ℕ} {dependencies : List DependencyRecord}
    (h : installedDependencies view package offsets count = .ok dependencies)
    (dependency : DependencyRecord) : dependency ∈ dependencies ↔ ∃ offset ∈ offsets,
      databaseDependency view (package.dependencyStart.toNat + offset) = .ok dependency := by
  induction offsets generalizing count dependencies with
  | nil =>
    cases h
    simp
  | cons offset offsets ih =>
    rw [installedDependencies] at h
    split at h
    · cases h
    · split at h
      · cases h
      · rename_i found hfound
        obtain ⟨rest, hrest, h⟩ := bind_eq_ok.mp h
        cases h
        rw [mem_cons, ih hrest]
        simp only [mem_cons, exists_eq_or_imp, hfound, Except.ok.injEq, @eq_comm _ found]

theorem mem_stagedDependencies {plan : Plan} {package : PackageView} {offsets : List ℕ}
    {dependencies : List DependencyRecord}
    (h : stagedDependencies catalog plan index package offsets count = .ok dependencies)
    {dependency : DependencyRecord} (hmem : dependency ∈ dependencies) :
    ∃ offset, planDependencyBinding catalog plan index offset = .ok dependency := by
  induction offsets generalizing count dependencies with
  | nil =>
    cases h
    cases hmem
  | cons offset offsets ih =>
    obtain ⟨-, h⟩ := ite_error_eq_ok.mp h
    obtain ⟨declared, -, h⟩ := bind_eq_ok.mp h
    split at h
    · cases h
    · rename_i binding hbinding
      obtain ⟨-, h⟩ := ite_error_eq_ok.mp h
      obtain ⟨rest, hrest, h⟩ := bind_eq_ok.mp h
      cases h
      rcases mem_cons.mp hmem with rfl | hmem
      · exact ⟨offset, hbinding⟩
      · exact ih hrest hmem

theorem admitPackages_identity {repository : RepositoryView} {policy : Policy} {trust : Trust}
    {items : List PlanItem} {packages : List Bytes} {admitted : List PackageView}
    (hentry : ∀ item ∈ items, ∃ entry, repositoryEntry repository item.sourceIndex = .ok entry ∧
      item.identifier = entry.identifier ∧ item.version = entry.version)
    (h : admitPackages repository policy trust items packages = .ok admitted)
    {package : PackageView} (hitem : items[index]? = some item)
    (hpackage : admitted[index]? = some package) :
    package.identifier = item.identifier ∧ package.version = item.version := by
  induction items generalizing packages admitted index with
  | nil => cases hitem
  | cons first items ih =>
    cases packages with
    | nil =>
      cases h
      cases hpackage
    | cons bytes packages =>
      obtain ⟨expected, hexpected, h⟩ := bind_eq_ok.mp h
      obtain ⟨opened, hopened, h⟩ := bind_eq_ok.mp h
      obtain ⟨others, hothers, h⟩ := bind_eq_ok.mp h
      cases h
      cases index with
      | zero =>
        cases hitem
        cases hpackage
        obtain ⟨entry, hfound, hidentifier, hversion⟩ := hentry _ mem_cons_self
        obtain rfl := Except.ok.inj (hexpected.symm.trans hfound)
        obtain ⟨hi, hv⟩ := packageOpen_identity hopened
        exact ⟨hi.trans hidentifier.symm, hv.trans hversion.symm⟩
      | succ index =>
        exact ih (fun other hother => hentry other (mem_cons_of_mem _ hother)) hothers
          hitem hpackage

theorem outputFor_installed
    (h : outputFor workspace catalog count (.installed index package) = .ok output)
    (hview : workspace.installed = some view) (hstored : databasePackage view index = .ok package)
    (hkept : keepInstalledPackage workspace.plan package) :
    TakenOver workspace view index package output := by
  simp only [outputFor, hview] at h
  obtain ⟨dependencies, hdependencies, h⟩ := bind_eq_ok.mp h
  cases h
  refine ⟨hview, hstored, hkept, rfl, rfl, fun dependency => ?_⟩
  simp only [mem_installedDependencies hdependencies, mem_range]

theorem outputFor_staged {package : PackageView}
    (h : outputFor workspace catalog count (.staged index package item) = .ok output)
    (hplanned : workspace.plan.items[index]? = some item)
    (hidentity : package.identifier = item.identifier ∧ package.version = item.version) :
    Staged workspace catalog index item output := by
  obtain ⟨dependencies, hdependencies, h⟩ := bind_eq_ok.mp h
  cases h
  exact ⟨hplanned, rfl, hidentity.1, hidentity.2, fun dependency hmem =>
    mem_stagedDependencies hdependencies hmem⟩

theorem forall₂_packageRecordsFrom (start : ℕ) (outputs : List Output) :
    List.Forall₂ (fun output package => package.identifier = output.identifier ∧
      package.version = output.version) outputs (packageRecordsFrom start outputs) := by
  induction outputs generalizing start with
  | nil => exact .nil
  | cons output outputs ih => exact .cons ⟨rfl, rfl⟩ (ih _)

end Candidates

namespace BuildSteps

variable {repositoryBytes : Bytes} {plan : Plan} {policy : Policy} {trust : Trust} {built : Built}
  {repository : RepositoryView} {catalog : List Item} {solver : Solver}
  {selected retained : List Output}
  (h : BuildSteps repositoryBytes plan policy trust built repository catalog solver selected
    retained)
include h

theorem solved :
    Consistent catalog solver ∧ ConflictFree solver ∧
      ∀ item ∈ solver.selected, ∀ dependency ∈ item.dependencies, Satisfied solver dependency := by
  obtain ⟨hconsistent, hfree, -, hdependencies⟩ := solveTarget_eq_ok h.planned.solved
  exact ⟨hconsistent, hfree, hdependencies⟩

theorem entry (hitem : item ∈ plan.items) :
    ∃ entry ∈ solver.selected, item = planItem entry.entry ∧
      catalog[item.sourceIndex]? = some entry ∧
      repositoryEntry repository item.sourceIndex = .ok entry.entry := by
  obtain ⟨entry, hentry, rfl⟩ := h.planned.items item hitem
  exact ⟨entry, hentry, rfl, catalog_repositoryIndex h.read (h.solved.1.offered entry hentry)⟩

theorem merges :
    ∃ kept, keptPackages built.workspace = .ok kept ∧
      Merges built.workspace catalog (kept ++ stagedPackages built.workspace) selected := by
  obtain ⟨kept, hkept, hselect⟩ := bind_eq_ok.mp h.select
  obtain ⟨-, hloop⟩ := ite_error_eq_ok.mp hselect
  exact ⟨kept, hkept, (merges_selectLoop (nodup_sources hkept) rfl hloop).1⟩

theorem nodup : (selected.map (·.identifier)).Nodup := by
  obtain ⟨kept, -, hmerges⟩ := h.merges
  refine (pairwise_of_isChain hmerges.ascending).imp fun hlt heq => ?_
  exact List.lt_irrefl _ (heq ▸ hlt)

theorem prunes : Prunes selected retained :=
  pruneAndValidateGraph_eq_ok h.nodup h.prune

theorem output_cases (houtput : output ∈ selected) :
    (∃ view index package, TakenOver built.workspace view index package output) ∨
      ∃ index item, Staged built.workspace catalog index item output := by
  obtain ⟨kept, hkept, hmerges⟩ := h.merges
  obtain ⟨candidate, hcandidate, count, hfor⟩ := hmerges.sound output houtput
  rcases mem_append.mp hcandidate with hcandidate | hcandidate
  · obtain ⟨view, index, package, hview, -, hstored, hkeep, rfl⟩ :=
      (mem_keptPackages hkept candidate).mp hcandidate
    exact .inl ⟨view, index, package, outputFor_installed hfor hview hstored hkeep⟩
  · obtain ⟨index, package, item, hpackage, hitem, rfl⟩ := mem_stagedPackages hcandidate
    obtain ⟨packages, -, hadmitted⟩ := h.admitted
    refine .inr ⟨index, item, outputFor_staged hfor hitem ?_⟩
    rw [h.plan_eq] at hitem
    refine admitPackages_identity (fun other hother => ?_) hadmitted hitem hpackage
    obtain ⟨entry, -, rfl, -, hread⟩ := h.entry hother
    exact ⟨entry.entry, hread, rfl, rfl⟩

theorem exists_takenOver (hview : built.workspace.installed = some view)
    (hstored : databasePackage view index = .ok package)
    (hkeep : keepInstalledPackage plan package) :
    ∃ output ∈ selected, TakenOver built.workspace view index package output := by
  obtain ⟨kept, hkept, hmerges⟩ := h.merges
  rw [← h.plan_eq] at hkeep
  have hindex : index < view.packageCount := by
    rw [databasePackage] at hstored
    split_ifs at hstored with hshape
    exact lt_of_not_ge fun hle => hshape (.inr hle)
  obtain ⟨output, houtput, count, hfor⟩ := hmerges.complete (.installed index package)
    (mem_append_left _ ((mem_keptPackages hkept _).mpr
      ⟨view, index, package, hview, hindex, hstored, hkeep, rfl⟩))
  exact ⟨output, houtput, outputFor_installed hfor hview hstored hkeep⟩

end BuildSteps

section Sample

abbrev appName : Bytes := asciiText ['a', '.', 'p']

abbrev libName : Bytes := asciiText ['l', '.', 'b']

abbrev toolName : Bytes := asciiText ['t', '.', 'l']

abbrev compatibleTwo : Bytes := asciiText ['^', '2', '.', '0', '.', '0']

abbrev databaseOf (spec : GenerationSpec) : Bytes :=
  (((generationSize spec).bind (generationEncode spec)).toOption.map (·.1)).getD []

abbrev sampleGeneration : GenerationSpec where
  generation := 1
  abi := 1
  packages := [⟨appName, versionOne, sha256Of [], sha256Of sampleKey, true, 0, 1, 1⟩,
    ⟨libName, versionOne, sha256Of [], sha256Of sampleKey, false, 1, 0, 1⟩]
  dependencies := [⟨libName, compatibleOne, libName⟩]
  files := [⟨asciiText ['y'], 1, 3, 0o444, 1, sha256Of [1], []⟩,
    ⟨asciiText ['z'], 0, 3, 0o444, 1, sha256Of [1], []⟩]

abbrev libraryArchive : Bytes :=
  buildPackage samplePublisher libName versionTwo [⟨asciiText ['y'], 3, 0o444, [1]⟩] [] []

abbrev toolArchive : Bytes :=
  buildPackage samplePublisher toolName versionOne [⟨asciiText ['x'], 3, 0o444, [1]⟩]
    [⟨libName, compatibleTwo⟩] [⟨appName, [ascii '*']⟩]

abbrev toolIndex : Bytes :=
  buildRepository samplePublisher sampleFreshness sampleRepository
    [⟨libName, versionTwo, asciiText ['b'], libraryArchive.length, (sha256Of libraryArchive).val,
        [], [], []⟩,
      ⟨toolName, versionOne, asciiText ['t'], toolArchive.length, (sha256Of toolArchive).val,
        [⟨libName, compatibleTwo⟩], [⟨appName, [ascii '*']⟩], []⟩]

abbrev samplePlan : Plan where
  operation := .install
  target := toolName
  root := toolName
  items := [⟨0, libName, versionTwo, asciiText ['b'], libraryArchive.length,
      (sha256Of libraryArchive).val, samplePublisher.keyId⟩,
    ⟨1, toolName, versionOne, asciiText ['t'], toolArchive.length, (sha256Of toolArchive).val,
      samplePublisher.keyId⟩]

abbrev sampleBuild : Except Status Built :=
  packageBuilderBuild (some toolIndex) (some (databaseOf sampleGeneration)) samplePlan
    [libraryArchive, toolArchive] (some samplePolicy) (some sampleTrust)

set_option maxRecDepth 8000 in
theorem sampleBuild_eq_ok :
    (do
      let built ← sampleBuild
      let repository ← repositoryOpen toolIndex samplePolicy (some sampleTrust)
      let catalog ← readCatalog repository
      .ok (built.spec.packages.map fun p => (p.identifier, p.version), built.spec.dependencies,
        catalog.map (·.conflicts)) :
      Except Status (List (Bytes × Bytes) × List DependencyRecord × List (List Relation))).toOption =
      some ([(appName, versionOne), (libName, versionTwo), (toolName, versionOne)],
        [⟨libName, compatibleOne, libName⟩, ⟨libName, compatibleTwo, libName⟩],
        [[], [⟨appName, [ascii '*']⟩]]) := by
  decide +kernel

theorem exists_sampleBuild :
    ∃ built repository catalog, sampleBuild = .ok built ∧
      repositoryOpen toolIndex samplePolicy (some sampleTrust) = .ok repository ∧
      readCatalog repository = .ok catalog ∧
      (built.spec.packages.map fun p => (p.identifier, p.version)) =
        [(appName, versionOne), (libName, versionTwo), (toolName, versionOne)] ∧
      built.spec.dependencies =
        [⟨libName, compatibleOne, libName⟩, ⟨libName, compatibleTwo, libName⟩] ∧
      catalog.map (·.conflicts) = [[], [⟨appName, [ascii '*']⟩]] := by
  obtain ⟨built, hbuilt, h⟩ := bind_eq_ok.mp (eq_ok_of_toOption sampleBuild_eq_ok)
  obtain ⟨repository, hopened, h⟩ := bind_eq_ok.mp h
  obtain ⟨catalog, hread, h⟩ := bind_eq_ok.mp h
  obtain ⟨hpackages, hrest⟩ := Prod.mk.inj (Except.ok.inj h)
  obtain ⟨hdependencies, hconflicts⟩ := Prod.mk.inj hrest
  exact ⟨built, repository, catalog, hbuilt, hopened, hread, hpackages, hdependencies, hconflicts⟩

end Sample

end OpenRFS.PackageBuilder
