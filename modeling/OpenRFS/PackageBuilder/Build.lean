import OpenRFS.PackageManager.Plan
import OpenRFS.PackageManager.Package
import OpenRFS.PackageGeneration.Encode

/-!
# Building the next generation

`packageBuilderBuild` makes the specification of the next generation from the installed
database and a plan. It authenticates all bytes again and repeats the planning, merges
the planned packages with the installed ones that the plan does not name, removes what no
explicit root needs, and sorts the files of what is left.

The source keeps the dependencies of all packages in one table, in which each package
has a range. Here each package has its own list, and the table is made at the end.
-/

namespace OpenRFS.PackageBuilder

open PackageState PackageManager PackageGeneration

abbrev Status := PackageManager.Status

/-- Where a package of the new generation comes from: its index among the installed
packages, or in the plan. -/
inductive Source
  | installed (index : ℕ)
  | staged (index : ℕ)
  deriving DecidableEq, Repr

structure Output where
  source : Source
  identifier : Bytes
  version : Bytes
  packageSha256 : Digest
  publisherKeyId : Digest
  explicitRoot : Bool
  fileCount : UInt32
  dependencies : List DependencyRecord
  deriving DecidableEq

structure Workspace where
  installed : Option DatabaseView
  repository : Option RepositoryView
  plan : Plan
  admitted : List PackageView

def admitPackages (repository : RepositoryView) (policy : Policy) (trust : Trust) :
    List PlanItem → List Bytes → Except Status (List PackageView)
  | item :: items, bytes :: packages => do
      let expected ← repositoryEntry repository item.sourceIndex
      let package ← packageOpen bytes expected policy (some trust)
      let admitted ← admitPackages repository policy trust items packages
      .ok (package :: admitted)
  | _, _ => .ok []

def parseInstalled : Option Bytes → Except Status (Option DatabaseView)
  | none => .ok none
  | some bytes =>
    match databaseParse bytes with
    | .error _ => .error .state
    | .ok view => .ok (some view)

/-- `authenticate_inputs`. Of the views of the caller only the bytes are used. -/
def authenticateInputs (repository : Option Bytes) (installed : Option Bytes) (plan : Plan)
    (packages : List Bytes) (policy : Option Policy) (trust : Option Trust) :
    Except Status Workspace := do
  let installed ← parseInstalled installed
  match plan.operation with
  | .remove =>
    match installed with
    | none => .error .nullArgument
    | some view =>
      if repository.isSome ∨ policy.isSome ∨ trust.isSome ∨ packages ≠ [] then
        .error .nullArgument
      else do
        let verified ← planRemove view plan.target
        if plan = verified then .ok ⟨some view, none, verified, []⟩ else .error .state
  | .install | .update =>
    match repository, policy, trust with
    | some bytes, some policy, some trust =>
      if packages.length ≠ plan.items.length then .error .nullArgument
      else if installed.any (·.abi != policy.abi) then .error .abi
      else do
        let repository ← repositoryOpen bytes policy (some trust)
        let verified ← planInstall repository installed plan.target policy (some trust)
        if plan ≠ verified then .error .state
        else do
          let admitted ← admitPackages repository policy trust verified.items packages
          .ok ⟨installed, some repository, verified, admitted⟩
    | _, _, _ => .error .nullArgument
  | .repair => .error .table

inductive Candidate
  | installed (index : ℕ) (package : PackageRecord)
  | staged (index : ℕ) (package : PackageView) (item : PlanItem)

def Candidate.identifier : Candidate → Bytes
  | .installed _ package => package.identifier
  | .staged _ package _ => package.identifier

def Candidate.source : Candidate → Source
  | .installed index _ => .installed index
  | .staged index _ _ => .staged index

def keepInstalledPackage (plan : Plan) (package : PackageRecord) : Bool :=
  !plan.items.any (·.identifier == package.identifier)

/-- The installed packages that the plan does not name. -/
def keptPackages (workspace : Workspace) : Except Status (List Candidate) :=
  match workspace.installed with
  | none => .ok []
  | some view => do
      let packages ← (List.range view.packageCount).mapM fun index =>
        match databasePackage view index with
        | .error _ => .error .state
        | .ok package => .ok (index, package)
      .ok ((packages.filter fun p => keepInstalledPackage workspace.plan p.2).map fun p =>
        .installed p.1 p.2)

def stagedPackages (workspace : Workspace) : List Candidate :=
  if workspace.plan.operation = .remove then []
  else ((List.range workspace.admitted.length).zip
    (workspace.admitted.zip workspace.plan.items)).map fun p => .staged p.1 p.2.1 p.2.2

/-- The inner loops of `select_packages`: the first candidate with the least identifier. -/
def leastCandidate : List Candidate → Option Candidate
  | [] => none
  | candidate :: candidates =>
    some (candidates.foldl (fun least candidate =>
      if compareFields candidate.identifier least.identifier = .lt then candidate else least)
      candidate)

/-- The dependencies of an installed package, with the number of dependencies so far. -/
def installedDependencies (view : DatabaseView) (package : PackageRecord) :
    List ℕ → ℕ → Except Status (List DependencyRecord)
  | [], _ => .ok []
  | offset :: offsets, count =>
    if count = databaseMaxEdges then .error .dependency
    else
      match databaseDependency view (package.dependencyStart.toNat + offset) with
      | .error _ => .error .dependency
      | .ok dependency => do
          let dependencies ← installedDependencies view package offsets (count + 1)
          .ok (dependency :: dependencies)

/-- The dependencies of a planned package, each with the package it is bound to. -/
def stagedDependencies (catalog : List Item) (plan : Plan) (index : ℕ) (package : PackageView) :
    List ℕ → ℕ → Except Status (List DependencyRecord)
  | [], _ => .ok []
  | offset :: offsets, count =>
    if count = databaseMaxEdges then .error .graphBound
    else do
      let dependency ← packageDependency package offset
      match planDependencyBinding catalog plan index offset with
      | .error _ => .error .dependency
      | .ok binding =>
        if dependency.identifier ≠ binding.requested ∨ dependency.value ≠ binding.constraint then
          .error .dependency
        else do
          let dependencies ← stagedDependencies catalog plan index package offsets (count + 1)
          .ok (binding :: dependencies)

def outputFor (workspace : Workspace) (catalog : List Item) (count : ℕ) :
    Candidate → Except Status Output
  | .installed index package =>
    match workspace.installed with
    | none => .error .state
    | some view => do
        let dependencies ← installedDependencies view package
          (List.range package.dependencyCount.toNat) count
        .ok {
          source := .installed index
          identifier := package.identifier
          version := package.version
          packageSha256 := package.packageSha256
          publisherKeyId := package.publisherKeyId
          explicitRoot := package.explicitRoot || workspace.plan.operation != .remove &&
            package.identifier == workspace.plan.root
          fileCount := package.fileCount
          dependencies := dependencies }
  | .staged index package item => do
      let dependencies ← stagedDependencies catalog workspace.plan index package
        (List.range package.dependencyCount) count
      .ok {
        source := .staged index
        identifier := package.identifier
        version := package.version
        packageSha256 := digestAt item.packageSha256 0
        publisherKeyId := digestAt item.publisherKeyId 0
        explicitRoot := package.identifier == workspace.plan.root ||
          (installedPackage workspace.installed package.identifier).any (·.2.explicitRoot)
        fileCount := UInt32.ofNat package.fileCount
        dependencies := dependencies }

/-- The loop of `select_packages`: as long as candidates are left, the least is taken, and
identifiers must ascend. -/
def selectLoop (workspace : Workspace) (catalog : List Item) :
    ℕ → List Candidate → Option Bytes → ℕ → Except Status (List Output)
  | 0, _, _, _ => .ok []
  | outputs + 1, candidates, previous, count =>
    match leastCandidate candidates with
    | none => .error .state
    | some candidate =>
      if previous.any (compareFields · candidate.identifier != .lt) then .error .state
      else do
        let output ← outputFor workspace catalog count candidate
        let rest ← selectLoop workspace catalog outputs
          (candidates.eraseP (·.source == candidate.source)) (some candidate.identifier)
          (count + output.dependencies.length)
        .ok (output :: rest)

def selectPackages (workspace : Workspace) (catalog : List Item) :
    Except Status (List Output) := do
  let kept ← keptPackages workspace
  let candidates := kept ++ stagedPackages workspace
  if databaseMaxPackages < candidates.length then .error .graphBound
  else selectLoop workspace catalog candidates.length candidates none 0

def outputIndexFor (outputs : List Output) (identifier : Bytes) : Option ℕ :=
  outputs.findIdx? (·.identifier == identifier)

/-- The first loop of `prune_and_validate_graph` over the dependencies of one package: the
positions of the providers, with the incoming edges counted so far. -/
def resolveProviders (outputs : List Output) :
    List DependencyRecord → List ℕ → Except Status (List ℕ × List ℕ)
  | [], incoming => .ok ([], incoming)
  | dependency :: dependencies, incoming =>
    match outputIndexFor outputs dependency.provider with
    | none => .error .dependency
    | some provider =>
      if incoming.getD provider 0 = 65535 then .error .dependency
      else do
        let (providers, incoming) ← resolveProviders outputs dependencies
          (incoming.set provider (incoming.getD provider 0 + 1))
        .ok (provider :: providers, incoming)

/-- The first loop over all packages. The later loops of the source look the providers up
again; here they are kept. -/
def providerGraph (outputs : List Output) :
    List Output → List ℕ → Except Status (List (List ℕ) × List ℕ)
  | [], incoming => .ok ([], incoming)
  | output :: rest, incoming => do
      let (providers, incoming) ← resolveProviders outputs output.dependencies incoming
      let (graph, incoming) ← providerGraph outputs rest incoming
      .ok (providers :: graph, incoming)

/-- The removal loop: a package without incoming edges is removed with its edges. -/
def removeOwners (graph : List (List ℕ)) :
    ℕ → List ℕ → List ℕ → List Bool → ℕ → Except Status ℕ
  | _, [], _, _, removedCount => .ok removedCount
  | 0, _ :: _, _, _, _ => .error .cycle
  | passes + 1, owner :: queue, incoming, removed, removedCount =>
    if removed.getD owner false then .error .cycle
    else
      match releaseProviders (graph.getD owner []) incoming queue with
      | .error _ => .error .dependency
      | .ok (incoming, queue) =>
        removeOwners graph passes queue incoming (removed.set owner true) (removedCount + 1)

/-- The last loop: what is not reachable is left out, unless it was planned. -/
def retainReachable : List (Bool × Output) → Except Status (List Output)
  | [] => .ok []
  | (reachable, output) :: rest =>
    if reachable then do
      let retained ← retainReachable rest
      .ok (output :: retained)
    else
      match output.source with
      | .staged _ => .error .dependency
      | .installed _ => retainReachable rest

def pruneAndValidateGraph (outputs : List Output) : Except Status (List Output) := do
  let n := outputs.length
  let (graph, incoming) ← providerGraph outputs outputs (List.replicate n 0)
  let removedCount ← removeOwners graph (n + 1)
    ((List.range n).filter fun index => incoming.getD index 0 = 0) incoming
    (List.replicate n false) 0
  if removedCount ≠ n then .error .cycle
  else
    let roots := outputs.map (·.explicitRoot)
    let reachable := reachLoop graph (n + 1)
      ((List.range n).filter fun index => roots.getD index false) roots
    retainReachable (reachable.zip outputs)

structure FileSource where
  source : Source
  fileIndex : ℕ
  payload : Bytes
  deriving DecidableEq

abbrev OutputFile := FileRecord × FileSource

/-- `append_installed_files`: the files that an installed package owns, with the number of
files so far. -/
def installedFiles (view : DatabaseView) (outputOwner installedOwner : ℕ) :
    List ℕ → ℕ → Except Status (List OutputFile)
  | [], _ => .ok []
  | index :: indices, count =>
    match databaseFile view index with
    | .error _ => .error .state
    | .ok file =>
      if file.ownerIndex.toNat ≠ installedOwner then
        installedFiles view outputOwner installedOwner indices count
      else if count = databaseMaxFiles then .error .graphBound
      else do
        let files ← installedFiles view outputOwner installedOwner indices (count + 1)
        .ok (({ file with ownerIndex := UInt32.ofNat outputOwner },
          ⟨.installed installedOwner, index, []⟩) :: files)

def FileKind.code : FileKind → UInt16
  | .executable => 1
  | .library => 2
  | .resource => 3
  | .font => 4

def stagedFiles (package : PackageView) (outputOwner planIndex : ℕ) :
    List ℕ → ℕ → Except Status (List OutputFile)
  | [], _ => .ok []
  | index :: indices, count => do
      let file ← packageFile package index
      if count = databaseMaxFiles then .error .graphBound
      else do
        let files ← stagedFiles package outputOwner planIndex indices (count + 1)
        .ok (({
          path := file.path
          ownerIndex := UInt32.ofNat outputOwner
          kind := FileKind.code file.kind
          mode := file.mode
          length := UInt64.ofNat file.payload.length
          sha256 := digestAt file.sha256 0
          soname := file.soname }, ⟨.staged planIndex, index, file.payload⟩) :: files)

def filesFor (workspace : Workspace) (owner : ℕ) (output : Output) (count : ℕ) :
    Except Status (List OutputFile) :=
  match output.source, workspace.installed with
  | .installed _, none => .error .state
  | .installed index, some view => do
      let files ← installedFiles view owner index (List.range view.fileCount) count
      if files.length = output.fileCount.toNat then .ok files else .error .package
  | .staged index, _ =>
    match workspace.admitted[index]? with
    | none => .error .state
    | some package => stagedFiles package owner index (List.range package.fileCount) count

def appendFiles (workspace : Workspace) :
    List (ℕ × Output) → ℕ → Except Status (List OutputFile)
  | [], _ => .ok []
  | (owner, output) :: rest, count => do
      let files ← filesFor workspace owner output count
      let others ← appendFiles workspace rest (count + files.length)
      .ok (files ++ others)

/-- `compare_files`; behind the last file the comparison is not used. -/
def compareFilesAt (files : List OutputFile) (left right : ℕ) : Ordering :=
  match files[left]?, files[right]? with
  | some left, some right => compareFields left.1.path right.1.path
  | _, _ => .eq

def swapFiles (files : List OutputFile) (left right : ℕ) : List OutputFile :=
  match files[left]?, files[right]? with
  | some l, some r => (files.set left r).set right l
  | _, _ => files

/-- `sift_files`; the root at least doubles, so as many turns as there are files suffice. -/
def siftFiles : ℕ → ℕ → ℕ → List OutputFile → List OutputFile
  | 0, _, _, files => files
  | turns + 1, root, count, files =>
    let child := root * 2 + 1
    if count ≤ child then files
    else
      let child := if child + 1 < count ∧ compareFilesAt files child (child + 1) = .lt then
        child + 1 else child
      if compareFilesAt files root child ≠ .lt then files
      else siftFiles turns child count (swapFiles files root child)

def sortFiles (files : List OutputFile) : List OutputFile :=
  let count := files.length
  let heap := ((List.range (count / 2)).reverse).foldl
    (fun files start => siftFiles count start count files) files
  ((List.range (count - 1)).reverse).foldl
    (fun files last => siftFiles count 0 (last + 1) (swapFiles files 0 (last + 1))) heap

def buildFiles (workspace : Workspace) (outputs : List Output) :
    Except Status (List OutputFile) := do
  let files ← appendFiles workspace ((List.range outputs.length).zip outputs) 0
  let sorted := sortFiles files
  if (List.range (sorted.length - 1)).any fun index =>
      compareFilesAt sorted index (index + 1) = .eq then .error .conflict
  else .ok sorted

def packageRecordsFrom : ℕ → List Output → List PackageRecord
  | _, [] => []
  | start, output :: outputs =>
    { identifier := output.identifier
      version := output.version
      packageSha256 := output.packageSha256
      publisherKeyId := output.publisherKeyId
      explicitRoot := output.explicitRoot
      dependencyStart := UInt32.ofNat start
      dependencyCount := UInt32.ofNat output.dependencies.length
      fileCount := output.fileCount } ::
      packageRecordsFrom (start + output.dependencies.length) outputs

structure Built where
  workspace : Workspace
  spec : GenerationSpec
  fileSources : List FileSource

def buildFrom (workspace : Workspace) (abi : UInt32) : Except Status Built := do
  let catalog ← match workspace.repository with
    | none => .ok []
    | some repository => readCatalog repository
  let selected ← selectPackages workspace catalog
  let outputs ← pruneAndValidateGraph selected
  let files ← buildFiles workspace outputs
  if workspace.installed.any (·.generation == 0xFFFFFFFFFFFFFFFF) then .error .overflow
  else
    let spec : GenerationSpec := {
      generation := match workspace.installed with
        | none => 1
        | some view => view.generation + 1
      abi := match workspace.installed with
        | none => abi
        | some view => view.abi
      packages := packageRecordsFrom 0 outputs
      dependencies := outputs.flatMap (·.dependencies)
      files := files.map (·.1) }
    match generationSize spec with
    | .error _ => .error .state
    | .ok _ => .ok ⟨workspace, spec, files.map (·.2)⟩

def packageBuilderBuild (repository : Option Bytes) (installed : Option Bytes) (plan : Plan)
    (packages : List Bytes) (policy : Option Policy) (trust : Option Trust) :
    Except Status Built := do
  let workspace ← authenticateInputs repository installed plan packages policy trust
  buildFrom workspace (policy.elim 0 (·.abi))

end OpenRFS.PackageBuilder
