import OpenRFS.PackageManager.Version
import OpenRFS.PackageState.Database

/-!
# The repository index

A repository is a signed index: a header of 512 bytes, a table of package records
sorted by identifier and version, and a table of relations. Every package owns a run
of relations: what it depends on, what it conflicts with and what it provides besides
itself. `repositoryOpen` checks the whole index before anything of it is used.
-/

namespace OpenRFS.PackageManager

open Codec PackageState

inductive Status
  | ok | nullArgument | length | magic | header | reserved | overflow | digest | text
  | architecture | abi | freshness | rollback | table | package | dependency | conflict
  | ambiguousProvider | cycle | graphBound | notFound | alreadyInstalled | downgrade
  | keyRotation | unknownKey | revokedKey | cryptoUnavailable | signature | state | inUse
  deriving DecidableEq, Repr

def repositoryHeaderBytes : ℕ := 512
def repositoryPackageBytes : ℕ := 512
def repositoryRelationBytes : ℕ := 128
def repositorySignatureOffset : ℕ := 232
def repositoryMaxBytes : ℕ := 32 * 1024 * 1024
def repositoryMaxPackages : ℕ := 1024
def repositoryMaxRelationsPerPackage : ℕ := 64
def packageMaxBytes : ℕ := 256 * 1024 * 1024
def signatureBytes : ℕ := 64

inductive KeyStatus
  | trusted | unknown | revoked
  deriving DecidableEq, Repr

/-- The privileged trust store: the key with an identifier, and the verification of a
signature over a message in which a range counts as zero. -/
structure Trust where
  lookup : Bytes → KeyStatus × Bytes
  verify : Bytes → Bytes → Bytes → ℕ → ℕ → Bool

structure Policy where
  now : UInt64
  minimumRepositoryVersion : UInt64
  abi : UInt32
  allowDowngrade : Bool
  deriving DecidableEq, Repr

def verifySignedObject (bytes : Bytes) (signatureOffset : ℕ) (keyId : Bytes)
    (trust : Option Trust) : Except Status Unit :=
  match trust with
  | none => .error .cryptoUnavailable
  | some trust =>
    match trust.lookup keyId with
    | (.unknown, _) => .error .unknownKey
    | (.revoked, _) => .error .revokedKey
    | (.trusted, publicKey) =>
      match sha256 publicKey with
      | .error _ => .error .unknownKey
      | .ok derived =>
        if derived.val ≠ keyId then .error .unknownKey
        else if trust.verify publicKey (slice bytes signatureOffset signatureBytes) bytes
            signatureOffset signatureBytes then .ok ()
        else .error .signature

structure RepositoryView where
  bytes : Bytes
  byteCount : ℕ
  repositoryVersion : UInt64
  generatedAt : UInt64
  expiresAt : UInt64
  abiMin : UInt32
  abiMax : UInt32
  packageCount : ℕ
  relationCount : ℕ
  packageOffset : ℕ
  relationOffset : ℕ
  identifier : Bytes
  deriving DecidableEq

structure CatalogEntry where
  repository : RepositoryView
  repositoryIndex : ℕ
  identifier : Bytes
  version : Bytes
  downloadPath : Bytes
  packageBytes : ℕ
  packageSha256 : Bytes
  publisherKeyId : Bytes
  dependencyStart : ℕ
  dependencyCount : ℕ
  conflictStart : ℕ
  conflictCount : ℕ
  provideStart : ℕ
  provideCount : ℕ
  deriving DecidableEq

/-- A relation of a package: an identifier with a constraint, or with the version
that is provided. -/
structure Relation where
  identifier : Bytes
  value : Bytes
  deriving DecidableEq, Repr

def managerText (record : Bytes) (off width : ℕ) (allowEmpty : Bool) : Except Status Bytes :=
  match fixedText (record.drop off) width allowEmpty with
  | .error _ => .error .text
  | .ok text => .ok text

/-- A text field that must also satisfy a grammar, reported as the status of what it
belongs to. -/
def checkedText (record : Bytes) (off width : ℕ) (allowEmpty : Bool) (valid : Bytes → Bool)
    (status : Status) : Except Status Bytes :=
  match managerText record off width allowEmpty with
  | .error _ => .error status
  | .ok text => if valid text then .ok text else .error status

def repositoryRecord (repository : RepositoryView) (index : ℕ) : Bytes :=
  slice repository.bytes (repository.packageOffset + index * repositoryPackageBytes)
    repositoryPackageBytes

def relationRecord (record : Bytes) (valid : Bytes → Bool) : Except Status Relation := do
  let identifier ← checkedText record 0 64 false packageIdentifier .dependency
  let value ← checkedText record 64 56 false valid .dependency
  if isZero (slice record 120 8) then .ok ⟨identifier, value⟩ else .error .dependency

def relationAt (repository : RepositoryView) (index : ℕ) (provide : Bool) :
    Except Status Relation :=
  if repository.relationCount ≤ index then .error .table
  else
    relationRecord
      (slice repository.bytes (repository.relationOffset + index * repositoryRelationBytes)
        repositoryRelationBytes)
      (if provide then semanticVersion else versionConstraint)

def repositoryEntry (repository : RepositoryView) (index : ℕ) : Except Status CatalogEntry :=
  if repository.packageCount ≤ index then .error .notFound
  else do
    let record := repositoryRecord repository index
    let identifier ← managerText record 0 64 false
    let version ← managerText record 64 64 false
    let downloadPath ← managerText record 128 128 false
    .ok {
      repository := repository
      repositoryIndex := index
      identifier := identifier
      version := version
      downloadPath := downloadPath
      packageBytes := (readU64 record 256).toNat
      packageSha256 := slice record 264 32
      publisherKeyId := slice record 296 32
      dependencyStart := (readU32 record 328).toNat
      dependencyCount := (readU32 record 332).toNat
      conflictStart := (readU32 record 336).toNat
      conflictCount := (readU32 record 340).toNat
      provideStart := (readU32 record 344).toNat
      provideCount := (readU32 record 348).toNat }

def entryWellFormed (repository : RepositoryView) (entry : CatalogEntry) (relationCursor : ℕ) :
    Bool :=
  packageIdentifier entry.identifier && semanticVersion entry.version &&
    packagePath entry.downloadPath && entry.packageBytes != 0 &&
    decide (entry.packageBytes ≤ packageMaxBytes) &&
    decide (entry.dependencyCount ≤ repositoryMaxRelationsPerPackage) &&
    decide (entry.conflictCount ≤ repositoryMaxRelationsPerPackage) &&
    decide (entry.provideCount ≤ repositoryMaxRelationsPerPackage) &&
    entry.dependencyStart == relationCursor &&
    entry.conflictStart == relationCursor + entry.dependencyCount &&
    entry.provideStart == relationCursor + entry.dependencyCount + entry.conflictCount &&
    isZero (slice (repositoryRecord repository entry.repositoryIndex) 352 160)

/-- Whether a dependency is also one of the conflicts of its package; a conflict that
cannot be read counts. -/
def conflictsWith (repository : RepositoryView) (entry : CatalogEntry) (identifier : Bytes) :
    Bool :=
  (List.range entry.conflictCount).any fun conflict =>
    match relationAt repository (entry.conflictStart + conflict) false with
    | .error _ => true
    | .ok other => other.identifier == identifier

/-- The loop over one group of relations of an entry: their identifiers ascend, what
is provided is not the package itself, and no dependency is a conflict. -/
def checkRelations (repository : RepositoryView) (entry : CatalogEntry) (group first : ℕ) :
    List ℕ → Option Bytes → Except Status Unit
  | [], _ => .ok ()
  | offset :: offsets, previous =>
    match relationAt repository (first + offset) (group == 2) with
    | .error _ => .error .dependency
    | .ok relation =>
      if previous.any (fun p => compareFields p relation.identifier != .lt) ||
          group == 2 && relation.identifier == entry.identifier then .error .dependency
      else if group == 0 && conflictsWith repository entry relation.identifier then
        .error .dependency
      else checkRelations repository entry group first offsets (some relation.identifier)

def downloadPathTaken (repository : RepositoryView) (entry : CatalogEntry) (index : ℕ) : Bool :=
  (List.range index).any fun earlier =>
    match repositoryEntry repository earlier with
    | .error _ => false
    | .ok other => entry.downloadPath == other.downloadPath

/-- The loop of `package_manager_repository_open` over the entries, with the identifier
and the version of the previous one and the next free relation. -/
def checkEntries (repository : RepositoryView) :
    List ℕ → Option (Bytes × Bytes) → ℕ → Except Status ℕ
  | [], _, relationCursor => .ok relationCursor
  | index :: indices, previous, relationCursor =>
    match repositoryEntry repository index with
    | .error _ => .error .package
    | .ok entry =>
      if entryWellFormed repository entry relationCursor = false then .error .package
      else if previous.any (fun p => compareFields p.1 entry.identifier == .gt ||
          compareFields p.1 entry.identifier == .eq &&
            compareFields p.2 entry.version != .lt) then .error .package
      else if previous.any (fun p => compareFields p.1 entry.identifier == .eq &&
          compareSemverText p.2 entry.version == .eq) then .error .ambiguousProvider
      else do
        checkRelations repository entry 0 entry.dependencyStart
          (List.range entry.dependencyCount) none
        checkRelations repository entry 1 entry.conflictStart
          (List.range entry.conflictCount) none
        checkRelations repository entry 2 entry.provideStart
          (List.range entry.provideCount) none
        let relationCursor := relationCursor + entry.dependencyCount + entry.conflictCount +
          entry.provideCount
        if repository.relationCount < relationCursor then .error .table
        else if downloadPathTaken repository entry index then .error .package
        else
          checkEntries repository indices (some (entry.identifier, entry.version))
            relationCursor

def repositoryMagic : Bytes := asciiText ['R', 'S', 'D', 'I', 'D', 'X', '0', '1']

def architectureText : Bytes := asciiText ['x', '8', '6', '_', '6', '4']

/-- The checks of `package_manager_repository_open` in front of the entries. Behind the
bound on the packages, the sizes of the tables do not overflow. -/
def repositoryHeader (bytes : Bytes) (policy : Policy) : Except Status RepositoryView := do
  let repositoryVersion := readU64 bytes 24
  let generatedAt := readU64 bytes 32
  let expiresAt := readU64 bytes 40
  let abiMin := readU32 bytes 48
  let abiMax := readU32 bytes 52
  let packageOffset := (readU64 bytes 136).toNat
  let packageCount := (readU32 bytes 144).toNat
  let relationOffset := (readU64 bytes 152).toNat
  let relationCount := (readU32 bytes 160).toNat
  if bytes.length < repositoryHeaderBytes ∨ repositoryMaxBytes < bytes.length then .error .length
  else if slice bytes 0 8 ≠ repositoryMagic then .error .magic
  else if readU16 bytes 8 ≠ 1 ∨ (readU16 bytes 10).toNat ≠ repositoryHeaderBytes ∨
      readU32 bytes 12 ≠ 0 ∨ (readU64 bytes 16).toNat ≠ bytes.length then .error .header
  else if repositoryVersion = 0 ∨ generatedAt = 0 ∨ expiresAt = 0 ∨ expiresAt ≤ generatedAt ∨
      abiMin = 0 ∨ abiMax < abiMin then .error .header
  else if repositoryVersion < policy.minimumRepositoryVersion then .error .rollback
  else if policy.now < generatedAt ∨ expiresAt ≤ policy.now then .error .freshness
  else if policy.abi < abiMin ∨ abiMax < policy.abi then .error .abi
  else do
    let _ ← checkedText bytes 56 16 false (· == architectureText) .architecture
    let identifier ← checkedText bytes 72 64 false packageIdentifier .text
    if packageCount = 0 ∨ repositoryMaxPackages < packageCount ∨
        (readU32 bytes 148).toNat ≠ repositoryPackageBytes ∨
        (readU32 bytes 164).toNat ≠ repositoryRelationBytes ∨
        packageOffset ≠ repositoryHeaderBytes ∨
        relationOffset ≠ repositoryHeaderBytes + packageCount * repositoryPackageBytes ∨
        relationOffset + relationCount * repositoryRelationBytes ≠ bytes.length ∨
        packageCount * (3 * repositoryMaxRelationsPerPackage) < relationCount then .error .table
    else if readU16 bytes 296 ≠ 1 ∨ (readU16 bytes 298).toNat ≠ signatureBytes ∨
        isZero (slice bytes 300 212) = false ∨ isZero (slice bytes 232 64) then .error .reserved
    else
      match sha256 (bytes.drop repositoryHeaderBytes) with
      | .error _ => .error .digest
      | .ok digest =>
        if digest.val ≠ slice bytes 168 32 then .error .digest
        else
          .ok {
            bytes := bytes
            byteCount := bytes.length
            repositoryVersion := repositoryVersion
            generatedAt := generatedAt
            expiresAt := expiresAt
            abiMin := abiMin
            abiMax := abiMax
            packageCount := packageCount
            relationCount := relationCount
            packageOffset := packageOffset
            relationOffset := relationOffset
            identifier := identifier }

def repositoryOpen (bytes : Bytes) (policy : Policy) (trust : Option Trust) :
    Except Status RepositoryView := do
  let parsed ← repositoryHeader bytes policy
  let relationCursor ← checkEntries parsed (List.range parsed.packageCount) none 0
  if relationCursor ≠ parsed.relationCount then .error .table
  else do
    verifySignedObject bytes repositorySignatureOffset (slice bytes 200 32) trust
    .ok parsed

end OpenRFS.PackageManager
