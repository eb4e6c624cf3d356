import OpenRFS.PackageManager.Solver

/-!
# Plans

A plan lists the packages an operation changes, dependencies first. `planInstall` solves
the request against the index, orders what was selected, and leaves out what is
installed at the same version. `planRemove` removes a package together with the
dependencies that nothing else needs.
-/

namespace OpenRFS.PackageManager

open PackageState

def selectedPositionForProvider (solver : Solver) (provider : Bytes) : Option ℕ :=
  solver.selected.findIdx? (·.entry.identifier == provider)

/-- The loop of `order_packages` over the dependencies of one package: whether all are
emitted. -/
def dependenciesEmitted (solver : Solver) (states : List Bool) :
    List Relation → Except Status Bool
  | [] => .ok true
  | dependency :: dependencies =>
    match (bindingFor solver dependency.identifier).bind
        (selectedPositionForProvider solver) with
    | none => .error .dependency
    | some position =>
      if states.getD position false then dependenciesEmitted solver states dependencies
      else .ok false

def orderPass (solver : Solver) :
    List (ℕ × Item) → List Bool → List ℕ → Except Status (List Bool × List ℕ)
  | [], states, order => .ok (states, order)
  | (position, item) :: rest, states, order =>
    if states.getD position false then orderPass solver rest states order
    else do
      let ready ← dependenciesEmitted solver states item.dependencies
      if ready then orderPass solver rest (states.set position true) (order ++ [position])
      else orderPass solver rest states order

/-- The loop of `order_packages`. Every pass emits a package or is the last, so as many
passes as there are packages suffice. -/
def orderLoop (solver : Solver) : ℕ → List Bool → List ℕ → Except Status (List ℕ)
  | passes, states, order =>
    if solver.selected.length ≤ order.length then .ok order
    else
      match passes with
      | 0 => .error .cycle
      | passes + 1 => do
          let (states, emitted) ← orderPass solver
            ((List.range solver.selected.length).zip solver.selected) states order
          if emitted.length = order.length then .error .cycle
          else orderLoop solver passes states emitted

/-- `order_packages`: the positions of the selected entries, dependencies first. -/
def orderPackages (solver : Solver) : Except Status (List ℕ) :=
  orderLoop solver solver.selected.length (List.replicate solver.selected.length false) []

/-- The installed packages up to the first one that cannot be read. -/
def findInstalled (installed : DatabaseView) (identifier : Bytes) :
    List ℕ → Option (ℕ × PackageRecord)
  | [] => none
  | index :: indices =>
    match databasePackage installed index with
    | .error _ => none
    | .ok package =>
      if package.identifier = identifier then some (index, package)
      else findInstalled installed identifier indices

def installedPackage (installed : Option DatabaseView) (identifier : Bytes) :
    Option (ℕ × PackageRecord) :=
  match installed with
  | none => none
  | some installed => findInstalled installed identifier (List.range installed.packageCount)

def publisherKeyPolicy (keyId : Bytes) (trust : Option Trust) : Except Status Unit :=
  match trust with
  | none => .error .cryptoUnavailable
  | some trust =>
    match trust.lookup keyId with
    | (.revoked, _) => .error .revokedKey
    | (.unknown, _) => .error .unknownKey
    | (.trusted, publicKey) =>
      if (sha256 publicKey).toOption.map (·.val) = some keyId then .ok ()
      else .error .unknownKey

inductive PlanOperation
  | install | update | remove | repair
  deriving DecidableEq, Repr

structure PlanItem where
  sourceIndex : ℕ
  identifier : Bytes
  version : Bytes
  downloadPath : Bytes
  packageBytes : ℕ
  packageSha256 : Bytes
  publisherKeyId : Bytes
  deriving DecidableEq

structure Plan where
  operation : PlanOperation
  target : Bytes
  root : Bytes
  items : List PlanItem
  deriving DecidableEq

def planItem (entry : CatalogEntry) : PlanItem where
  sourceIndex := entry.repositoryIndex
  identifier := entry.identifier
  version := entry.version
  downloadPath := entry.downloadPath
  packageBytes := entry.packageBytes
  packageSha256 := entry.packageSha256
  publisherKeyId := entry.publisherKeyId

/-- The loop of `package_manager_plan_install` over the ordered entries, with the items
so far and, once the root was met among the installed packages, whether it is an
explicit root. -/
def planItems (installed : Option DatabaseView) (policy : Policy) (trust : Option Trust)
    (root : Bytes) : List Item → List PlanItem → Option Bool →
      Except Status (List PlanItem × Option Bool)
  | [], items, target => .ok (items, target)
  | item :: rest, items, target => do
      let entry := item.entry
      publisherKeyPolicy entry.publisherKeyId trust
      match installedPackage installed entry.identifier with
      | some (_, package) =>
        let comparison := compareSemverText entry.version package.version
        if package.publisherKeyId.val ≠ entry.publisherKeyId then .error .keyRotation
        else if comparison = .lt ∧ !policy.allowDowngrade then .error .downgrade
        else
          let target := if entry.identifier = root then some package.explicitRoot else target
          if comparison = .eq then planItems installed policy trust root rest items target
          else if items.length = planMaxPackages then .error .graphBound
          else planItems installed policy trust root rest (items ++ [planItem entry]) target
      | none =>
        if items.length = planMaxPackages then .error .graphBound
        else planItems installed policy trust root rest (items ++ [planItem entry]) target

/-- `package_manager_plan_install`, for an index whose entries can be read. -/
def planInstall (repository : RepositoryView) (installed : Option DatabaseView)
    (identifier : Bytes) (policy : Policy) (trust : Option Trust) : Except Status Plan :=
  if packageIdentifier identifier = false then .error .nullArgument
  else do
    let catalog ← readCatalog repository
    match solveTarget catalog identifier with
    | (.ok, solver) =>
      match bindingFor solver identifier with
      | none => .error .state
      | some root => do
          let order ← orderPackages solver
          let (items, target) ← planItems installed policy trust root
            (order.filterMap fun position => solver.selected[position]?) [] none
          if items = [] then
            if target = some false then .ok ⟨.install, identifier, root, []⟩
            else .error .alreadyInstalled
          else .ok ⟨if target.isSome then .update else .install, identifier, root, items⟩
    | (status, _) => .error status

/-- `package_manager_plan_dependency_binding`: what the dependency of a planned item is
bound to. The source compares the texts of the item with those of the entry by address;
both are slices of the index that the plan was made from. -/
def planDependencyBinding (catalog : List Item) (plan : Plan) (planIndex dependencyIndex : ℕ) :
    Except Status DependencyRecord :=
  if plan.operation ≠ .install ∧ plan.operation ≠ .update then .error .table
  else
    match plan.items[planIndex]? with
    | none => .error .table
    | some item =>
      match catalog[item.sourceIndex]? with
      | none => .error .state
      | some consumer =>
        if item ≠ planItem consumer.entry then .error .state
        else
          match consumer.dependencies[dependencyIndex]? with
          | none => .error .table
          | some dependency => do
              let provider ← uniqueProvider catalog dependency.identifier dependency.value
              .ok ⟨dependency.identifier, dependency.value, provider⟩

/-- The installed packages with the positions of the providers of their dependencies. -/
def installedGraph (installed : DatabaseView) : Except Status (List (PackageRecord × List ℕ)) :=
  (List.range installed.packageCount).mapM fun index =>
    match databasePackage installed index with
    | .error _ => .error .state
    | .ok package => do
        let providers ← (List.range package.dependencyCount.toNat).mapM fun offset =>
          match databaseDependency installed (package.dependencyStart.toNat + offset) with
          | .error _ => .error .state
          | .ok dependency =>
            match installedPackage (some installed) dependency.provider with
            | none => .error .state
            | some (provider, _) => .ok provider
        .ok (package, providers)

/-- The loop of `package_manager_plan_remove` that emits a package on which nothing that
is left depends. -/
def removalLoop (graph : List (List ℕ)) (reachable : List Bool) :
    ℕ → List ℕ → Except Status (List ℕ)
  | emissions, emitted =>
    let left := (List.range graph.length).filter fun index =>
      !reachable.getD index false && !emitted.contains index
    match left.find? fun candidate =>
        !left.any fun owner => owner != candidate &&
          (graph.getD owner []).contains candidate with
    | none => .ok emitted
    | some candidate =>
      if emitted.length = planMaxPackages then .error .graphBound
      else
        match emissions with
        | 0 => .ok emitted
        | emissions + 1 => removalLoop graph reachable emissions (emitted ++ [candidate])

def removalItem (index : ℕ) (package : PackageRecord) : PlanItem where
  sourceIndex := index
  identifier := package.identifier
  version := package.version
  downloadPath := []
  packageBytes := 0
  packageSha256 := package.packageSha256.val
  publisherKeyId := package.publisherKeyId.val

def planRemove (installed : DatabaseView) (identifier : Bytes) : Except Status Plan :=
  if packageIdentifier identifier = false then .error .nullArgument
  else
    match installedPackage (some installed) identifier with
    | none => .error .notFound
    | some (target, package) =>
      if package.explicitRoot = false then .error .inUse
      else do
        let installedPackages ← installedGraph installed
        let graph := installedPackages.map (·.2)
        let roots := (List.range graph.length).filter fun index =>
          index != target && (installedPackages[index]?).any (·.1.explicitRoot)
        let reachable := reachLoop graph (graph.length + 1) roots
          ((List.range graph.length).map roots.contains)
        if reachable.getD target false then .error .inUse
        else do
          let emitted ← removalLoop graph reachable graph.length []
          if (List.range graph.length).all fun index =>
              reachable.getD index false || emitted.contains index then
            .ok ⟨.remove, identifier, identifier, emitted.filterMap fun index =>
              (installedPackages[index]?).map fun p => removalItem index p.1⟩
          else .error .cycle

end OpenRFS.PackageManager
