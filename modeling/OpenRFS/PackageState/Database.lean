import OpenRFS.PackageState.Text

/-!
# The installed database

A generation's database is a header of 512 bytes, a table of package records, a
table of dependency edges and a table of owned files. `databaseParse` is the
only way into it: it checks the header, the digest of the tables and every
record, and it accepts a dependency graph only if it has no cycle and every
package is reachable from an explicitly installed one.

The accessors `databasePackage`, `databaseDependency` and `databaseFile` read
one record of a view and check it once more. The records they return are the
records the encoder is given.
-/

namespace OpenRFS.PackageState

open Codec

def databaseHeaderBytes : ℕ := 512
def databasePackageRecordBytes : ℕ := 256
def databaseEdgeRecordBytes : ℕ := 192
def databaseFileRecordBytes : ℕ := 256
def databaseMaxBytes : ℕ := 32 * 1024 * 1024
def databaseMaxPackages : ℕ := 256
def databaseMaxEdges : ℕ := 4096
def databaseMaxFiles : ℕ := 4096
def packageMaxDependencies : ℕ := 64
def packageMaxFiles : ℕ := 256
def packageMaxFileBytes : ℕ := 64 * 1024 * 1024

/-- A parsed database: its bytes, the header's numbers and the table offsets. -/
structure DatabaseView where
  bytes : Bytes
  byteCount : ℕ
  generation : UInt64
  abi : UInt32
  packageCount : ℕ
  edgeCount : ℕ
  fileCount : ℕ
  packageOffset : ℕ
  edgeOffset : ℕ
  fileOffset : ℕ
  deriving DecidableEq

structure PackageRecord where
  identifier : Bytes
  version : Bytes
  packageSha256 : Digest
  publisherKeyId : Digest
  explicitRoot : Bool
  dependencyStart : UInt32
  dependencyCount : UInt32
  fileCount : UInt32
  deriving DecidableEq

structure DependencyRecord where
  requested : Bytes
  constraint : Bytes
  provider : Bytes
  deriving DecidableEq

structure FileRecord where
  path : Bytes
  ownerIndex : UInt32
  kind : UInt16
  mode : UInt32
  length : UInt64
  sha256 : Digest
  soname : Bytes
  deriving DecidableEq

theorem zeroDigest_length : (zeros 32).length = 32 := length_zeros 32

def digestAt (b : Bytes) (off : ℕ) : Digest :=
  if h : (slice b off 32).length = 32 then ⟨slice b off 32, h⟩
  else ⟨zeros 32, length_zeros 32⟩

def packageRecord (view : DatabaseView) (index : ℕ) : Bytes :=
  slice view.bytes (view.packageOffset + index * databasePackageRecordBytes)
    databasePackageRecordBytes

def edgeRecord (view : DatabaseView) (index : ℕ) : Bytes :=
  slice view.bytes (view.edgeOffset + index * databaseEdgeRecordBytes)
    databaseEdgeRecordBytes

def fileRecord (view : DatabaseView) (index : ℕ) : Bytes :=
  slice view.bytes (view.fileOffset + index * databaseFileRecordBytes)
    databaseFileRecordBytes

/-- A text field of a record that must also satisfy a grammar. Every refusal is
reported as the status of the record kind. -/
def textField (record : Bytes) (off width : ℕ) (allowEmpty : Bool)
    (valid : Bytes → Bool) (status : Status) : Except Status Bytes :=
  match fixedText (record.drop off) width allowEmpty with
  | .error _ => .error status
  | .ok text => if valid text then .ok text else .error status

/-- The loop of `validate_packages`. It carries the previous identifier and the
next free edge, and collects the owned-file counts. -/
def validatePackagesFrom (edgeCount : ℕ) :
    List Bytes → Option Bytes → ℕ → Except Status (List ℕ)
  | [], _, edgeCursor => if edgeCursor = edgeCount then .ok [] else .error .dependency
  | record :: records, previous, edgeCursor => do
      let identifier ← textField record 0 64 false packageIdentifier .package
      let _ ← textField record 64 64 false semanticVersion .package
      let flags := readU32 record 192
      let edgeStart := (readU32 record 196).toNat
      let edges := (readU32 record 200).toNat
      let files := (readU32 record 204).toNat
      if previous.any (fun p => compareFields p identifier != .lt) then .error .package
      else if flags &&& ~~~1 ≠ 0 ∨ edgeStart ≠ edgeCursor ∨ edges > packageMaxDependencies ∨
          edges > edgeCount - edgeCursor ∨ files > packageMaxFiles ∨
          isZero (slice record 208 48) = false then .error .package
      else do
        let counts ← validatePackagesFrom edgeCount records (some identifier)
          (edgeCursor + edges)
        .ok (files :: counts)

def packageRecords (view : DatabaseView) : List Bytes :=
  (List.range view.packageCount).map (packageRecord view)

def validatePackages (view : DatabaseView) : Except Status (List ℕ) :=
  validatePackagesFrom view.edgeCount (packageRecords view) none 0

def packageIndexFrom (identifier : Bytes) : List Bytes → ℕ → Option ℕ
  | [], _ => none
  | record :: records, index =>
    match fixedText record 64 false with
    | .error _ => none
    | .ok candidate =>
      if compareFields candidate identifier == .eq then some index
      else packageIndexFrom identifier records (index + 1)

def packageIndexFor (view : DatabaseView) (identifier : Bytes) : Option ℕ :=
  packageIndexFrom identifier (packageRecords view) 0

/-- The edges of one owner in `validate_dependencies`: the providers' indices,
and the incoming counts with these edges added. -/
def validateEdges (view : DatabaseView) :
    List Bytes → Option Bytes → List ℕ → Except Status (List ℕ × List ℕ)
  | [], _, incoming => .ok ([], incoming)
  | record :: records, previous, incoming => do
      let identifier ← textField record 0 64 false packageIdentifier .dependency
      let _ ← textField record 64 56 false versionConstraint .dependency
      let provider ← textField record 120 64 false packageIdentifier .dependency
      if isZero (slice record 184 8) = false then .error .dependency
      else
        match packageIndexFor view provider with
        | none => .error .dependency
        | some index =>
          if previous.any (fun p => compareFields p identifier != .lt) then
            .error .dependency
          else if incoming.getD index 0 = 65535 then .error .overflow
          else do
            let (providers, incoming) ← validateEdges view records (some identifier)
              (incoming.set index (incoming.getD index 0 + 1))
            .ok (index :: providers, incoming)

def ownedEdges (view : DatabaseView) (record : Bytes) : List Bytes :=
  (List.range (readU32 record 200).toNat).map fun offset =>
    edgeRecord view ((readU32 record 196).toNat + offset)

/-- The first pass of `validate_dependencies` over all owners. The later passes
of the source look the providers up again; here they are kept. -/
def dependencyGraph (view : DatabaseView) :
    List Bytes → List ℕ → Except Status (List (List ℕ) × List ℕ)
  | [], incoming => .ok ([], incoming)
  | record :: records, incoming => do
      let (providers, incoming) ← validateEdges view (ownedEdges view record) none incoming
      let (graph, incoming) ← dependencyGraph view records incoming
      .ok (providers :: graph, incoming)

/-- Takes the edges of a removed owner away. A provider that loses its last
incoming edge joins the queue. -/
def releaseProviders : List ℕ → List ℕ → List ℕ → Except Status (List ℕ × List ℕ)
  | [], incoming, queue => .ok (incoming, queue)
  | provider :: providers, incoming, queue =>
    if incoming.getD provider 0 = 0 then .error .dependency
    else
      let incoming := incoming.set provider (incoming.getD provider 0 - 1)
      releaseProviders providers incoming
        (if incoming.getD provider 0 = 0 then queue ++ [provider] else queue)

/-- The removal loop of `validate_dependencies`; its result is the number of
removed packages. Every pass removes another package, so one pass more than
there are packages is never needed. -/
def removeLoop (graph : List (List ℕ)) :
    ℕ → List ℕ → List ℕ → List Bool → ℕ → Except Status ℕ
  | _, [], _, _, removedCount => .ok removedCount
  | 0, _ :: _, _, _, _ => .error .dependency
  | passes + 1, owner :: queue, incoming, removed, removedCount =>
    if removed.getD owner false then .error .dependency
    else do
      let (incoming, queue) ← releaseProviders (graph.getD owner []) incoming queue
      removeLoop graph passes queue incoming (removed.set owner true) (removedCount + 1)

/-- Marks the providers of a reached owner. A newly reached provider joins the
queue. -/
def reachProviders : List ℕ → List Bool → List ℕ → List Bool × List ℕ
  | [], reachable, queue => (reachable, queue)
  | provider :: providers, reachable, queue =>
    if reachable.getD provider false then reachProviders providers reachable queue
    else reachProviders providers (reachable.set provider true) (queue ++ [provider])

/-- The reachability loop of `validate_dependencies`. A package joins the queue
once, so there are at most as many passes as packages. -/
def reachLoop (graph : List (List ℕ)) : ℕ → List ℕ → List Bool → List Bool
  | _, [], reachable => reachable
  | 0, _ :: _, reachable => reachable
  | passes + 1, owner :: queue, reachable =>
    let (reachable, queue) := reachProviders (graph.getD owner []) reachable queue
    reachLoop graph passes queue reachable

def explicitFlags (view : DatabaseView) : List Bool :=
  (packageRecords view).map fun record => readU32 record 192 &&& 1 != 0

def validateDependencies (view : DatabaseView) : Except Status Unit := do
  let n := view.packageCount
  let (graph, incoming) ← dependencyGraph view (packageRecords view) (List.replicate n 0)
  let removedCount ← removeLoop graph (n + 1)
    ((List.range n).filter fun index => incoming.getD index 0 = 0) incoming
    (List.replicate n false) 0
  if removedCount ≠ n then .error .dependency
  else
    let roots := explicitFlags view
    let reachable := reachLoop graph (n + 1)
      ((List.range n).filter fun index => roots.getD index false) roots
    if reachable.all id then .ok () else .error .dependency

/-- The loop of `validate_files`, with the previous path and the number of
files counted so far for every owner. -/
def validateFilesFrom (packageCount : ℕ) :
    List Bytes → Option Bytes → List ℕ → Except Status (List ℕ)
  | [], _, counts => .ok counts
  | record :: records, previous, counts => do
      let path ← textField record 0 128 false packagePath .file
      let owner := (readU32 record 128).toNat
      let kind := readU16 record 132
      let mode := readU32 record 136
      let length := (readU64 record 144).toNat
      if previous.any (fun p => compareFields p path != .lt || pathAncestor p path) then
        .error .file
      else if owner ≥ packageCount ∨ kind = 0 ∨ kind > 4 ∨ readU16 record 134 ≠ 0 ∨
          readU32 record 140 ≠ 0 ∨ (mode ≠ 0o444 ∧ mode ≠ 0o555) ∨
          (kind = 1 ∧ mode ≠ 0o555) ∨ length = 0 ∨ length > packageMaxFileBytes ∨
          isZero (slice record 248 8) = false ∨ counts.getD owner 0 = 65535 then
        .error .file
      else
        match fixedText (record.drop 184) 64 (kind != 2) with
        | .error _ => .error .file
        | .ok soname =>
          if (kind = 2 ∧ libraryName soname = false) ∨ (kind ≠ 2 ∧ soname ≠ []) then
            .error .file
          else
            validateFilesFrom packageCount records (some path)
              (counts.set owner (counts.getD owner 0 + 1))

def fileRecords (view : DatabaseView) : List Bytes :=
  (List.range view.fileCount).map (fileRecord view)

def validateFiles (view : DatabaseView) (ownedFileCounts : List ℕ) : Except Status Unit := do
  let counts ← validateFilesFrom view.packageCount (fileRecords view) none
    (List.replicate view.packageCount 0)
  if counts = ownedFileCounts then .ok () else .error .file

def databaseMagic : Bytes := asciiText ['R', 'S', 'D', 'D', 'B', '0', '0', '1']

def architecture : Bytes := asciiText ['x', '8', '6', '_', '6', '4'] ++ zeros 10

/-- The part of `package_state_database_parse` before the record tables. The
table sizes cannot overflow behind the bounds on the counts. -/
def databaseHeader (bytes : Bytes) : Except Status DatabaseView :=
  let packageCount := (readU32 bytes 64).toNat
  let edgeCount := (readU32 bytes 80).toNat
  let fileCount := (readU32 bytes 96).toNat
  let expectedEdge := databaseHeaderBytes + packageCount * databasePackageRecordBytes
  let expectedFile := expectedEdge + edgeCount * databaseEdgeRecordBytes
  let expectedTotal := expectedFile + fileCount * databaseFileRecordBytes
  if bytes.length < databaseHeaderBytes ∨ bytes.length > databaseMaxBytes then
    .error .length
  else if slice bytes 0 8 ≠ databaseMagic then .error .magic
  else if readU16 bytes 8 ≠ 1 ∨ (readU16 bytes 10).toNat ≠ databaseHeaderBytes ∨
      readU32 bytes 12 ≠ 0 ∨ (readU64 bytes 16).toNat ≠ bytes.length ∨
      readU64 bytes 24 = 0 ∨ readU32 bytes 32 = 0 ∨ readU32 bytes 36 ≠ 0 then
    .error .header
  else if slice bytes 40 16 ≠ architecture then .error .architecture
  else if isZero (slice bytes 136 376) = false then .error .reserved
  else if packageCount > databaseMaxPackages ∨ edgeCount > databaseMaxEdges ∨
      fileCount > databaseMaxFiles ∨
      (readU32 bytes 68).toNat ≠ databasePackageRecordBytes ∨
      (readU32 bytes 84).toNat ≠ databaseEdgeRecordBytes ∨
      (readU32 bytes 100).toNat ≠ databaseFileRecordBytes then
    .error .table
  else if (readU64 bytes 56).toNat ≠ databaseHeaderBytes ∨
      (readU64 bytes 72).toNat ≠ expectedEdge ∨ (readU64 bytes 88).toNat ≠ expectedFile ∨
      expectedTotal ≠ bytes.length then
    .error .table
  else
    match sha256 (bytes.drop databaseHeaderBytes) with
    | .error status => .error status
    | .ok digest =>
      if digest.val ≠ slice bytes 104 32 then .error .digest
      else
        .ok {
          bytes := bytes
          byteCount := bytes.length
          generation := readU64 bytes 24
          abi := readU32 bytes 32
          packageCount := packageCount
          edgeCount := edgeCount
          fileCount := fileCount
          packageOffset := databaseHeaderBytes
          edgeOffset := expectedEdge
          fileOffset := expectedFile }

def databaseParse (bytes : Bytes) : Except Status DatabaseView := do
  let view ← databaseHeader bytes
  let ownedFileCounts ← validatePackages view
  validateDependencies view
  validateFiles view ownedFileCounts
  .ok view

/-- `database_view_shape`: the offsets and counts of the view fit its bytes. -/
def databaseViewShape (view : DatabaseView) : Bool :=
  let expectedEdge := databaseHeaderBytes + view.packageCount * databasePackageRecordBytes
  let expectedFile := expectedEdge + view.edgeCount * databaseEdgeRecordBytes
  let expectedTotal := expectedFile + view.fileCount * databaseFileRecordBytes
  decide (view.byteCount ≥ databaseHeaderBytes) &&
    decide (view.byteCount ≤ databaseMaxBytes) &&
    decide (view.packageCount ≤ databaseMaxPackages) &&
    decide (view.edgeCount ≤ databaseMaxEdges) &&
    decide (view.fileCount ≤ databaseMaxFiles) &&
    view.packageOffset == databaseHeaderBytes && view.edgeOffset == expectedEdge &&
    view.fileOffset == expectedFile && view.byteCount == expectedTotal

def databasePackage (view : DatabaseView) (index : ℕ) : Except Status PackageRecord :=
  if databaseViewShape view = false ∨ index ≥ view.packageCount then .error .table
  else do
    let record := packageRecord view index
    let flags := readU32 record 192
    let dependencyStart := readU32 record 196
    let dependencyCount := readU32 record 200
    let fileCount := readU32 record 204
    let identifier ← textField record 0 64 false packageIdentifier .package
    let version ← textField record 64 64 false semanticVersion .package
    if flags > 1 ∨ dependencyStart.toNat > view.edgeCount ∨
        dependencyCount.toNat > view.edgeCount - dependencyStart.toNat ∨
        dependencyCount.toNat > packageMaxDependencies ∨
        fileCount.toNat > packageMaxFiles ∨ isZero (slice record 208 48) = false then
      .error .package
    else
      .ok {
        identifier := identifier
        version := version
        packageSha256 := digestAt record 128
        publisherKeyId := digestAt record 160
        explicitRoot := flags == 1
        dependencyStart := dependencyStart
        dependencyCount := dependencyCount
        fileCount := fileCount }

def databaseDependency (view : DatabaseView) (index : ℕ) : Except Status DependencyRecord :=
  if databaseViewShape view = false ∨ index ≥ view.edgeCount then .error .table
  else do
    let record := edgeRecord view index
    let requested ← textField record 0 64 false packageIdentifier .dependency
    let constraint ← textField record 64 56 false versionConstraint .dependency
    let provider ← textField record 120 64 false packageIdentifier .dependency
    if isZero (slice record 184 8) = false then .error .dependency
    else .ok { requested := requested, constraint := constraint, provider := provider }

def databaseFile (view : DatabaseView) (index : ℕ) : Except Status FileRecord :=
  if databaseViewShape view = false ∨ index ≥ view.fileCount then .error .table
  else do
    let record := fileRecord view index
    let owner := readU32 record 128
    let kind := readU16 record 132
    let mode := readU32 record 136
    let length := readU64 record 144
    let path ← textField record 0 128 false packagePath .file
    if owner.toNat ≥ view.packageCount ∨ kind = 0 ∨ kind > 4 ∨ readU16 record 134 ≠ 0 ∨
        readU32 record 140 ≠ 0 ∨ (mode ≠ 0o444 ∧ mode ≠ 0o555) ∨
        (kind = 1 ∧ mode ≠ 0o555) ∨ length.toNat = 0 ∨
        length.toNat > packageMaxFileBytes then
      .error .file
    else
      match fixedText (record.drop 184) 64 (kind != 2) with
      | .error _ => .error .file
      | .ok soname =>
        if (kind = 2 ∧ libraryName soname = false) ∨ (kind ≠ 2 ∧ soname ≠ []) ∨
            isZero (slice record 248 8) = false then
          .error .file
        else
          .ok {
            path := path
            ownerIndex := owner
            kind := kind
            mode := mode
            length := length
            sha256 := digestAt record 152
            soname := soname }

end OpenRFS.PackageState
