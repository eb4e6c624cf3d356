import OpenRFS.PackageManager.Repository

/-!
# Package archives

A package is a signed archive: a header of 512 bytes, a table of files, its
dependencies and conflicts, and the payloads of the files one behind the other. It is
opened against the entry of the repository it was downloaded for, and must agree with
that entry in its digest, its identity and its relations.
-/

namespace OpenRFS.PackageManager

open Codec PackageState

def packageHeaderBytes : ℕ := 512
def packageFileBytes : ℕ := 256
def packageRelationBytes : ℕ := 128
def packageSignatureOffset : ℕ := 440
def packageCapabilityMask : UInt64 := 0x7ff

structure PackageView where
  bytes : Bytes
  byteCount : ℕ
  identifier : Bytes
  name : Bytes
  version : Bytes
  publisher : Bytes
  capabilities : UInt64
  abiMin : UInt32
  abiMax : UInt32
  fileCount : ℕ
  dependencyCount : ℕ
  conflictCount : ℕ
  fileOffset : ℕ
  dependencyOffset : ℕ
  conflictOffset : ℕ
  payloadOffset : ℕ
  deriving DecidableEq

inductive FileKind
  | executable | library | resource | font
  deriving DecidableEq, Repr

def FileKind.ofCode (code : UInt16) : Option FileKind :=
  if code = 1 then some .executable
  else if code = 2 then some .library
  else if code = 3 then some .resource
  else if code = 4 then some .font
  else none

structure FileView where
  packageIndex : ℕ
  path : Bytes
  soname : Bytes
  kind : FileKind
  mode : UInt32
  sha256 : Bytes
  payloadOffset : ℕ
  payload : Bytes
  deriving DecidableEq

def packageRelationAt (bytes : Bytes) (tableOffset count index : ℕ) : Except Status Relation :=
  if count ≤ index then .error .table
  else
    relationRecord (slice bytes (tableOffset + index * packageRelationBytes) packageRelationBytes)
      versionConstraint

def packageRelationView (package : PackageView) (tableOffset count index : ℕ) :
    Except Status Relation :=
  if repositoryMaxRelationsPerPackage < count ∨ count ≤ index ∨ package.byteCount < tableOffset ∨
      package.byteCount - tableOffset < index * packageRelationBytes ∨
      package.byteCount - tableOffset - index * packageRelationBytes < packageRelationBytes then
    .error .table
  else packageRelationAt package.bytes tableOffset count index

def packageDependency (package : PackageView) (index : ℕ) : Except Status Relation :=
  packageRelationView package package.dependencyOffset package.dependencyCount index

def packageConflict (package : PackageView) (index : ℕ) : Except Status Relation :=
  packageRelationView package package.conflictOffset package.conflictCount index

def sonameValid (kind : FileKind) (soname : Bytes) : Bool :=
  if kind = .library then libraryName soname else soname.length == 0

def packageFile (package : PackageView) (index : ℕ) : Except Status FileView :=
  if package.fileCount = 0 ∨ packageMaxFiles < package.fileCount ∨ package.fileCount ≤ index ∨
      package.byteCount < package.fileOffset ∨
      package.byteCount - package.fileOffset < index * packageFileBytes ∨
      package.byteCount - package.fileOffset - index * packageFileBytes < packageFileBytes then
    .error .table
  else do
    let record := slice package.bytes (package.fileOffset + index * packageFileBytes)
      packageFileBytes
    let mode := readU32 record 132
    let payloadOffset := (readU64 record 136).toNat
    let payloadBytes := (readU64 record 144).toNat
    let path ← checkedText record 0 128 false packagePath .package
    match FileKind.ofCode (readU16 record 128) with
    | none => .error .package
    | some kind =>
      if readU16 record 130 ≠ 0 ∨ (mode ≠ 0o444 ∧ mode ≠ 0o555) ∨
          (kind = .executable ∧ mode ≠ 0o555) ∨ payloadBytes = 0 ∨
          packageMaxFileBytes < payloadBytes ∨ payloadOffset < package.payloadOffset ∨
          package.byteCount < payloadOffset ∨
          package.byteCount - payloadOffset < payloadBytes then .error .package
      else do
        let soname ← checkedText record 184 64 true (sonameValid kind) .package
        if isZero (slice record 248 8) = false then .error .package
        else
          match PackageState.sha256 (slice package.bytes payloadOffset payloadBytes) with
          | .error _ => .error .digest
          | .ok digest =>
            if digest.val ≠ slice record 152 32 then .error .digest
            else
              .ok {
                packageIndex := index
                path := path
                soname := soname
                kind := kind
                mode := mode
                sha256 := slice record 152 32
                payloadOffset := payloadOffset
                payload := slice package.bytes payloadOffset payloadBytes }

def packageMagic : Bytes := asciiText ['R', 'S', 'D', 'P', 'K', 'G', '0', '1']

/-- The checks of `package_manager_package_open` on the header. The counts are bounded,
so the sizes of the tables do not overflow. -/
def packageHeader (bytes : Bytes) (expected : CatalogEntry) (policy : Policy) :
    Except Status PackageView := do
  let fileOffset := (readU64 bytes 24).toNat
  let fileCount := (readU32 bytes 32).toNat
  let dependencyOffset := (readU64 bytes 40).toNat
  let dependencyCount := (readU32 bytes 48).toNat
  let conflictOffset := (readU64 bytes 56).toNat
  let conflictCount := (readU32 bytes 64).toNat
  let payloadOffset := (readU64 bytes 72).toNat
  let payloadBytes := (readU64 bytes 80).toNat
  let abiMin := readU32 bytes 88
  let abiMax := readU32 bytes 92
  let expectedDependency := packageHeaderBytes + fileCount * packageFileBytes
  let expectedConflict := expectedDependency + dependencyCount * packageRelationBytes
  let expectedPayload := expectedConflict + conflictCount * packageRelationBytes
  if bytes.length < packageHeaderBytes ∨ packageMaxBytes < bytes.length ∨
      expected.packageBytes ≠ bytes.length then .error .length
  else if slice bytes 0 8 ≠ packageMagic then .error .magic
  else if (PackageState.sha256 bytes).toOption.map (·.val) ≠ some expected.packageSha256 then
    .error .digest
  else if readU16 bytes 8 ≠ 3 ∨ (readU16 bytes 10).toNat ≠ packageHeaderBytes ∨
      readU32 bytes 12 ≠ 0 ∨ (readU64 bytes 16).toNat ≠ bytes.length then .error .header
  else if fileCount = 0 ∨ packageMaxFiles < fileCount ∨
      repositoryMaxRelationsPerPackage < dependencyCount ∨
      repositoryMaxRelationsPerPackage < conflictCount ∨
      (readU32 bytes 36).toNat ≠ packageFileBytes ∨
      (readU32 bytes 52).toNat ≠ packageRelationBytes ∨
      (readU32 bytes 68).toNat ≠ packageRelationBytes ∨ fileOffset ≠ packageHeaderBytes ∨
      dependencyOffset ≠ expectedDependency ∨ conflictOffset ≠ expectedConflict ∨
      payloadOffset ≠ expectedPayload ∨ bytes.length < payloadOffset ∨
      payloadBytes ≠ bytes.length - payloadOffset then .error .table
  else if abiMin = 0 ∨ abiMax < abiMin then .error .header
  else if policy.abi < abiMin ∨ abiMax < policy.abi then .error .abi
  else do
    let _ ← checkedText bytes 96 16 false (· == architectureText) .architecture
    let identifier ← checkedText bytes 112 64 false packageIdentifier .text
    let name ← managerText bytes 176 64 false
    let version ← checkedText bytes 240 64 false semanticVersion .text
    let publisher ← managerText bytes 304 64 false
    let capabilities := readU64 bytes 368
    if capabilities &&& ~~~packageCapabilityMask ≠ 0 ∨ identifier ≠ expected.identifier ∨
        version ≠ expected.version ∨ slice bytes 408 32 ≠ expected.publisherKeyId then
      .error .package
    else if (PackageState.sha256 (bytes.drop packageHeaderBytes)).toOption.map (·.val) ≠
        some (slice bytes 376 32) then .error .digest
    else if readU16 bytes 504 ≠ 1 ∨ (readU16 bytes 506).toNat ≠ signatureBytes ∨
        isZero (slice bytes 508 4) = false ∨ isZero (slice bytes 440 64) then .error .reserved
    else
      .ok {
        bytes := bytes
        byteCount := bytes.length
        identifier := identifier
        name := name
        version := version
        publisher := publisher
        capabilities := capabilities
        abiMin := abiMin
        abiMax := abiMax
        fileCount := fileCount
        dependencyCount := dependencyCount
        conflictCount := conflictCount
        fileOffset := fileOffset
        dependencyOffset := dependencyOffset
        conflictOffset := conflictOffset
        payloadOffset := payloadOffset }

def packageConflictsWith (package : PackageView) (identifier : Bytes) : Bool :=
  (List.range package.conflictCount).any fun conflict =>
    match packageConflict package conflict with
    | .error _ => true
    | .ok other => other.identifier == identifier

/-- The loop over the relations of one group: they ascend and are those of the
repository. -/
def checkPackageRelations (package : PackageView) (expected : CatalogEntry) (dependencies : Bool)
    (repositoryFirst : ℕ) : List ℕ → Option Bytes → Except Status Unit
  | [], _ => .ok ()
  | index :: indices, previous =>
    match if dependencies then packageDependency package index
        else packageConflict package index,
      relationAt expected.repository (repositoryFirst + index) false with
    | .ok relation, .ok expectedRelation =>
      if previous.any (fun p => compareFields p relation.identifier != .lt) then
        .error .dependency
      else if relation ≠ expectedRelation then .error .dependency
      else if dependencies && packageConflictsWith package relation.identifier then
        .error .dependency
      else
        checkPackageRelations package expected dependencies repositoryFirst indices
          (some relation.identifier)
    | _, _ => .error .dependency

/-- The loop over the files: the paths ascend, no file is below the one in front of it,
and the payloads follow each other. The result is the end of the last payload. -/
def checkPackageFiles (package : PackageView) :
    List ℕ → Option Bytes → ℕ → Except Status ℕ
  | [], _, expectedPayload => .ok expectedPayload
  | index :: indices, previous, expectedPayload => do
      let file ← packageFile package index
      if previous.any (fun p => compareFields p file.path != .lt || pathAncestor p file.path) ∨
          file.payloadOffset ≠ expectedPayload then .error .package
      else
        checkPackageFiles package indices (some file.path)
          (expectedPayload + file.payload.length)

def packageOpen (bytes : Bytes) (expected : CatalogEntry) (policy : Policy)
    (trust : Option Trust) : Except Status PackageView := do
  let parsed ← packageHeader bytes expected policy
  if parsed.dependencyCount ≠ expected.dependencyCount then .error .dependency
  else do
    checkPackageRelations parsed expected true expected.dependencyStart
      (List.range parsed.dependencyCount) none
    if parsed.conflictCount ≠ expected.conflictCount then .error .dependency
    else do
      checkPackageRelations parsed expected false expected.conflictStart
        (List.range parsed.conflictCount) none
      let expectedPayload ← checkPackageFiles parsed (List.range parsed.fileCount) none
        parsed.payloadOffset
      if expectedPayload ≠ bytes.length then .error .table
      else do
        verifySignedObject bytes packageSignatureOffset (slice bytes 408 32) trust
        .ok parsed

end OpenRFS.PackageManager
