import OpenRFS.PackageManager.Package

/-!
# Published indexes and archives

The layout that the host tools write: an index from what it lists, and a package
archive from its files and relations. The signatures are those of the publisher, so
they are parameters here.
-/

namespace OpenRFS.PackageManager

open Codec PackageState

structure Publisher where
  keyId : Bytes
  signature : Bytes
  abi : UInt32

structure Listing where
  identifier : Bytes
  version : Bytes
  downloadPath : Bytes
  packageBytes : ℕ
  packageSha256 : Bytes
  dependencies : List Relation
  conflicts : List Relation
  provides : List Relation

def encodeRelation (relation : Relation) : Bytes :=
  pad 64 relation.identifier ++ pad 56 relation.value ++ zeros 8

def Listing.relations (listing : Listing) : List Relation :=
  listing.dependencies ++ listing.conflicts ++ listing.provides

def encodeListing (publisher : Publisher) (start : ℕ) (listing : Listing) : Bytes :=
  let conflictStart := start + listing.dependencies.length
  let provideStart := conflictStart + listing.conflicts.length
  [pad 64 listing.identifier, pad 64 listing.version, pad 128 listing.downloadPath,
    writeU64 (UInt64.ofNat listing.packageBytes), listing.packageSha256, publisher.keyId,
    writeU32 (UInt32.ofNat start), writeU32 (UInt32.ofNat listing.dependencies.length),
    writeU32 (UInt32.ofNat conflictStart), writeU32 (UInt32.ofNat listing.conflicts.length),
    writeU32 (UInt32.ofNat provideStart), writeU32 (UInt32.ofNat listing.provides.length),
    zeros 160].flatten

def encodeListings (publisher : Publisher) : ℕ → List Listing → Bytes
  | _, [] => []
  | start, listing :: listings =>
    encodeListing publisher start listing ++
      encodeListings publisher (start + listing.relations.length) listings

structure Freshness where
  repositoryVersion : UInt64
  generatedAt : UInt64
  expiresAt : UInt64

def buildRepository (publisher : Publisher) (freshness : Freshness) (identifier : Bytes)
    (listings : List Listing) : Bytes :=
  let relations := listings.flatMap Listing.relations
  let body := encodeListings publisher 0 listings ++ relations.flatMap encodeRelation
  let relationOffset := repositoryHeaderBytes + listings.length * repositoryPackageBytes
  [repositoryMagic, writeU16 1, writeU16 512, writeU32 0,
    writeU64 (UInt64.ofNat (repositoryHeaderBytes + body.length)),
    writeU64 freshness.repositoryVersion, writeU64 freshness.generatedAt,
    writeU64 freshness.expiresAt, writeU32 publisher.abi, writeU32 publisher.abi,
    pad 16 architectureText, pad 64 identifier, writeU64 (UInt64.ofNat repositoryHeaderBytes),
    writeU32 (UInt32.ofNat listings.length), writeU32 (UInt32.ofNat repositoryPackageBytes),
    writeU64 (UInt64.ofNat relationOffset), writeU32 (UInt32.ofNat relations.length),
    writeU32 (UInt32.ofNat repositoryRelationBytes), (sha256Of body).val, publisher.keyId,
    publisher.signature, writeU16 1, writeU16 64, zeros 212, body].flatten

structure PackedFile where
  path : Bytes
  kind : UInt16
  mode : UInt32
  payload : Bytes

def encodePackedFile (payloadOffset : ℕ) (file : PackedFile) : Bytes :=
  [pad 128 file.path, writeU16 file.kind, writeU16 0, writeU32 file.mode,
    writeU64 (UInt64.ofNat payloadOffset), writeU64 (UInt64.ofNat file.payload.length),
    (sha256Of file.payload).val, zeros 64, zeros 8].flatten

def encodePackedFiles : ℕ → List PackedFile → Bytes
  | _, [] => []
  | payloadOffset, file :: files =>
    encodePackedFile payloadOffset file ++
      encodePackedFiles (payloadOffset + file.payload.length) files

/-- The host tool's encoding of a package archive, for files without a soname. -/
def buildPackage (publisher : Publisher) (identifier version : Bytes) (files : List PackedFile)
    (dependencies conflicts : List Relation) : Bytes :=
  let dependencyOffset := packageHeaderBytes + files.length * packageFileBytes
  let conflictOffset := dependencyOffset + dependencies.length * packageRelationBytes
  let payloadOffset := conflictOffset + conflicts.length * packageRelationBytes
  let payload := files.flatMap (·.payload)
  let body := encodePackedFiles payloadOffset files ++ dependencies.flatMap encodeRelation ++
    conflicts.flatMap encodeRelation ++ payload
  [packageMagic, writeU16 3, writeU16 512, writeU32 0,
    writeU64 (UInt64.ofNat (packageHeaderBytes + body.length)),
    writeU64 (UInt64.ofNat packageHeaderBytes), writeU32 (UInt32.ofNat files.length),
    writeU32 (UInt32.ofNat packageFileBytes), writeU64 (UInt64.ofNat dependencyOffset),
    writeU32 (UInt32.ofNat dependencies.length), writeU32 (UInt32.ofNat packageRelationBytes),
    writeU64 (UInt64.ofNat conflictOffset), writeU32 (UInt32.ofNat conflicts.length),
    writeU32 (UInt32.ofNat packageRelationBytes), writeU64 (UInt64.ofNat payloadOffset),
    writeU64 (UInt64.ofNat payload.length), writeU32 publisher.abi, writeU32 publisher.abi,
    pad 16 architectureText, pad 64 identifier, pad 64 identifier, pad 64 version,
    pad 64 identifier, writeU64 0, (sha256Of body).val, publisher.keyId, publisher.signature,
    writeU16 1, writeU16 64, zeros 4, body].flatten

end OpenRFS.PackageManager
