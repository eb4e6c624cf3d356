import OpenRFS.PackageManager.Repository

/-!
# The dependency solver

`solveRequirement` looks for the packages that a request needs. One package must
provide what is requested; its versions are tried from the newest on, and each choice
is undone if the dependencies of the version cannot be met or if the selected packages
conflict. The solver adds to two tables: the selected entries, and the bindings of
requested identifiers to packages. Undoing cuts both back to their old lengths.

The source reads an entry from the accepted index each time it looks at it. Here the
entries are read once, with their relations, into a catalog.
-/

namespace OpenRFS.PackageManager

open PackageState

structure Item where
  entry : CatalogEntry
  dependencies : List Relation
  conflicts : List Relation
  provides : List Relation
  deriving DecidableEq

def readRelations (repository : RepositoryView) (start count : ℕ) (provide : Bool) :
    Except Status (List Relation) :=
  (List.range count).mapM fun index => relationAt repository (start + index) provide

def readItem (repository : RepositoryView) (index : ℕ) : Except Status Item := do
  let entry ← repositoryEntry repository index
  let dependencies ← readRelations repository entry.dependencyStart entry.dependencyCount false
  let conflicts ← readRelations repository entry.conflictStart entry.conflictCount false
  let provides ← readRelations repository entry.provideStart entry.provideCount true
  .ok ⟨entry, dependencies, conflicts, provides⟩

def readCatalog (repository : RepositoryView) : Except Status (List Item) :=
  (List.range repository.packageCount).mapM (readItem repository)

/-- `entry_provides`: the version at which an entry provides an identifier. -/
def entryProvides (item : Item) (requested : Bytes) : Option Bytes :=
  if item.entry.identifier = requested then some item.entry.version
  else (item.provides.find? fun relation => relation.identifier == requested).map (·.value)

/-- The entry provides the identifier at a version that satisfies the constraint. -/
def Item.meets (item : Item) (requested constraint : Bytes) : Bool :=
  (entryProvides item requested).any (versionSatisfies · constraint)

structure Binding where
  requested : Bytes
  provider : Bytes
  deriving DecidableEq

structure Solver where
  selected : List Item
  bindings : List Binding
  deriving DecidableEq

def planMaxPackages : ℕ := 128
def solverMaxBindings : ℕ := 256
def dependencyDepthMax : ℕ := 16

def selectedForProvider (solver : Solver) (provider : Bytes) : Option Item :=
  solver.selected.find? (·.entry.identifier == provider)

def bindingFor (solver : Solver) (requested : Bytes) : Option Bytes :=
  (solver.bindings.find? (·.requested == requested)).map (·.provider)

def addBinding (requested provider : Bytes) (solver : Solver) : Status × Solver :=
  match bindingFor solver requested with
  | some existing => (if existing = provider then .ok else .ambiguousProvider, solver)
  | none =>
    if solver.bindings.length = solverMaxBindings then (.graphBound, solver)
    else (.ok, { solver with bindings := solver.bindings ++ [⟨requested, provider⟩] })

/-- Whether some conflict of an entry is met by one of the selected entries. -/
def conflictsAny (selected : List Item) (source : Item) : Bool :=
  source.conflicts.any fun conflict =>
    selected.any fun target => target.meets conflict.identifier conflict.value

def selectedConflict (solver : Solver) : Status :=
  if solver.selected.any (conflictsAny solver.selected) then .conflict else .ok

def statusPriority : Status → ℕ
  | .graphBound => 6
  | .ambiguousProvider => 5
  | .cycle => 4
  | .conflict => 3
  | .dependency => 2
  | _ => 1

/-- The first loop of `solve_requirement`: the entries that meet a requirement, and the
one package they are versions of. -/
def uniqueProvider (catalog : List Item) (requested constraint : Bytes) : Except Status Bytes :=
  match catalog.filter (·.meets requested constraint) with
  | [] => .error .dependency
  | first :: rest =>
    if rest.all (·.entry.identifier == first.entry.identifier) then .ok first.entry.identifier
    else .error .ambiguousProvider

/-- One turn of the loop that looks for the newest version below the last one tried. -/
def newer (ceiling : Option Bytes) (best : Option Item) (candidate : Item) : Option Item :=
  if ceiling.any (compareSemverText candidate.entry.version · != .lt) then best
  else
    match best with
    | none => some candidate
    | some item =>
      if compareSemverText candidate.entry.version item.entry.version = .gt then some candidate
      else best

def newestBelow (catalog : List Item) (requested constraint : Bytes) (ceiling : Option Bytes) :
    Option Item :=
  (catalog.filter (·.meets requested constraint)).foldl (newer ceiling) none

/-- The loop over the dependencies of a selected version. It ends with the first one
that cannot be met. -/
def solveDependencies (solve : Bytes → Bytes → Solver → Status × Solver) :
    List Relation → Solver → Status × Solver
  | [], solver => (.ok, solver)
  | dependency :: dependencies, solver =>
    match solve dependency.identifier dependency.value solver with
    | (.ok, solver) => solveDependencies solve dependencies solver
    | (status, solver) => (status, solver)

/-- One choice of a version: it is selected and bound, its dependencies are met, and
nothing selected conflicts. -/
def tryItem (solve : Bytes → Bytes → Solver → Status × Solver) (requested : Bytes) (item : Item)
    (solver : Solver) : Status × Solver :=
  let solver := { solver with selected := solver.selected ++ [item] }
  match addBinding requested item.entry.identifier solver with
  | (.ok, solver) =>
    match addBinding item.entry.identifier item.entry.identifier solver with
    | (.ok, solver) =>
      match solveDependencies solve item.dependencies solver with
      | (.ok, solver) => (selectedConflict solver, solver)
      | (status, solver) => (status, solver)
    | (status, solver) => (status, solver)
  | (status, solver) => (status, solver)

def Solver.cutBack (solver : Solver) (snapshot : Solver) : Solver :=
  ⟨solver.selected.take snapshot.selected.length, solver.bindings.take snapshot.bindings.length⟩

/-- The loop over the versions, from the newest on, with the best status so far. -/
def tryVersions (solve : Bytes → Bytes → Solver → Status × Solver) (catalog : List Item)
    (requested constraint : Bytes) : ℕ → Option Bytes → Status → Solver → Status × Solver
  | 0, _, best, solver => (best, solver)
  | attempts + 1, ceiling, best, solver =>
    match newestBelow catalog requested constraint ceiling with
    | none => (best, solver)
    | some item =>
      if solver.selected.length = planMaxPackages then (.graphBound, solver)
      else
        match tryItem solve requested item solver with
        | (.ok, solver) => (.ok, solver)
        | (status, tried) =>
          tryVersions solve catalog requested constraint attempts (some item.entry.version)
            (if statusPriority best < statusPriority status then status else best)
            (tried.cutBack solver)

/-- `solve_requirement`, with the number of levels that are left; the source counts the
depth up to `PACKAGE_MANAGER_DEPENDENCY_DEPTH_MAX`. -/
def solveRequirement (catalog : List Item) : ℕ → Bytes → Bytes → Solver → Status × Solver
  | 0, _, _, solver => (.graphBound, solver)
  | levels + 1, requested, constraint, solver =>
    match uniqueProvider catalog requested constraint with
    | .error status => (status, solver)
    | .ok provider =>
      if (bindingFor solver requested).any (· != provider) then (.ambiguousProvider, solver)
      else
        match selectedForProvider solver provider with
        | some item =>
          if item.meets requested constraint then addBinding requested provider solver
          else (.dependency, solver)
        | none =>
          tryVersions (solveRequirement catalog levels) catalog requested constraint
            (catalog.countP (·.meets requested constraint)) none .dependency solver

/-- The solver as `package_manager_plan_install` starts it. -/
def solveTarget (catalog : List Item) (requested : Bytes) : Status × Solver :=
  solveRequirement catalog (dependencyDepthMax + 1) requested [ascii '*'] ⟨[], []⟩

end OpenRFS.PackageManager
