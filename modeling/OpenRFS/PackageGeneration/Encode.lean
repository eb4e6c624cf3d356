import OpenRFS.PackageState.Database

/-!
# Encoding a generation

`generationEncode` writes a complete installed database from a specification of
its records, and reports success only after `databaseParse` accepted the bytes.
`generationVerify` compares the records of a database with a specification.

The source clears the output and then writes each field at its offset. A record
is built here as the concatenation of its fields, in the order of the offsets,
with the reserved holes as zero bytes.
-/

namespace OpenRFS.PackageGeneration

open Codec PackageState

@[ext]
structure GenerationSpec where
  generation : UInt64
  abi : UInt32
  packages : List PackageRecord
  dependencies : List DependencyRecord
  files : List FileRecord

/-- `copy_text` into a cleared field. Only the length of the text is checked. -/
def copyText (width : ℕ) (text : Bytes) (allowEmpty : Bool) : Option Bytes :=
  if text.length ≥ width ∨ (allowEmpty = false ∧ text.length = 0) then none
  else some (pad width text)

def generationSize (spec : GenerationSpec) : Except Status ℕ :=
  let total := databaseHeaderBytes + spec.packages.length * databasePackageRecordBytes +
    spec.dependencies.length * databaseEdgeRecordBytes +
    spec.files.length * databaseFileRecordBytes
  if spec.packages.length > databaseMaxPackages ∨ spec.dependencies.length > databaseMaxEdges ∨
      spec.files.length > databaseMaxFiles then .error .table
  else if total > databaseMaxBytes then .error .length
  else .ok total

def encodePackage (p : PackageRecord) : Except Status Bytes :=
  match copyText 64 p.identifier false, copyText 64 p.version false with
  | some identifier, some version =>
    .ok [identifier, version, p.packageSha256.val, p.publisherKeyId.val,
      writeU32 (if p.explicitRoot then 1 else 0), writeU32 p.dependencyStart,
      writeU32 p.dependencyCount, writeU32 p.fileCount, zeros 48].flatten
  | _, _ => .error .package

def encodeDependency (d : DependencyRecord) : Except Status Bytes :=
  match copyText 64 d.requested false, copyText 56 d.constraint false,
      copyText 64 d.provider false with
  | some requested, some constraint, some provider =>
    .ok [requested, constraint, provider, zeros 8].flatten
  | _, _, _ => .error .dependency

def encodeFile (f : FileRecord) : Except Status Bytes :=
  match copyText 128 f.path false, copyText 64 f.soname true with
  | some path, some soname =>
    .ok [path, writeU32 f.ownerIndex, writeU16 f.kind, zeros 2, writeU32 f.mode,
      zeros 4, writeU64 f.length, f.sha256.val, soname, zeros 8].flatten
  | _, _ => .error .file

/-- The fields of the header `package_generation_encode` writes, with the
digest of the tables. -/
def headerFields (spec : GenerationSpec) (resultBytes : ℕ) (digest : Digest) : List Bytes :=
  let dependencyOffset :=
    databaseHeaderBytes + spec.packages.length * databasePackageRecordBytes
  let fileOffset := dependencyOffset + spec.dependencies.length * databaseEdgeRecordBytes
  [databaseMagic, writeU16 1, writeU16 512, zeros 4, writeU64 (UInt64.ofNat resultBytes),
    writeU64 spec.generation, writeU32 spec.abi, zeros 4, architecture,
    writeU64 (UInt64.ofNat databaseHeaderBytes),
    writeU32 (UInt32.ofNat spec.packages.length),
    writeU32 (UInt32.ofNat databasePackageRecordBytes),
    writeU64 (UInt64.ofNat dependencyOffset),
    writeU32 (UInt32.ofNat spec.dependencies.length),
    writeU32 (UInt32.ofNat databaseEdgeRecordBytes),
    writeU64 (UInt64.ofNat fileOffset), writeU32 (UInt32.ofNat spec.files.length),
    writeU32 (UInt32.ofNat databaseFileRecordBytes), digest.val, zeros 376]

def encodeHeader (spec : GenerationSpec) (resultBytes : ℕ) (digest : Digest) : Bytes :=
  (headerFields spec resultBytes digest).flatten

/-- `package_generation_encode` into an output of `resultBytes` bytes. -/
def generationEncode (spec : GenerationSpec) (resultBytes : ℕ) :
    Except Status (Bytes × DatabaseView) :=
  if resultBytes > databaseMaxBytes then .error .length
  else do
    let expectedBytes ← generationSize spec
    if resultBytes ≠ expectedBytes then .error .length
    else if spec.generation = 0 ∨ spec.abi = 0 then .error .header
    else do
      let packages ← spec.packages.mapM encodePackage
      let dependencies ← spec.dependencies.mapM encodeDependency
      let files ← spec.files.mapM encodeFile
      let tables := packages.flatten ++ (dependencies.flatten ++ files.flatten)
      let digest ← sha256 tables
      let result := encodeHeader spec resultBytes digest ++ tables
      let view ← databaseParse result
      .ok (result, view)

/-- The comparison loops of `package_generation_verify`: the records an
accessor returns from `index` on must be the expected ones. -/
def verifyRecords {ρ : Type} [DecidableEq ρ] (access : ℕ → Except Status ρ) :
    ℕ → List ρ → Except Status Unit
  | _, [] => .ok ()
  | index, expected :: rest => do
      let actual ← access index
      if actual = expected then verifyRecords access (index + 1) rest
      else .error .mismatch

def generationVerify (spec : GenerationSpec) (database : Bytes) :
    Except Status DatabaseView := do
  let expectedBytes ← generationSize spec
  if database.length ≠ expectedBytes ∨ spec.generation = 0 ∨ spec.abi = 0 then
    .error .mismatch
  else do
    let parsed ← databaseParse database
    if parsed.generation ≠ spec.generation ∨ parsed.abi ≠ spec.abi ∨
        parsed.packageCount ≠ spec.packages.length ∨
        parsed.edgeCount ≠ spec.dependencies.length ∨
        parsed.fileCount ≠ spec.files.length then .error .mismatch
    else do
      verifyRecords (databasePackage parsed) 0 spec.packages
      verifyRecords (databaseDependency parsed) 0 spec.dependencies
      verifyRecords (databaseFile parsed) 0 spec.files
      .ok parsed

end OpenRFS.PackageGeneration
