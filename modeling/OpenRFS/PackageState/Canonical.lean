import OpenRFS.Codec.Checked
import OpenRFS.PackageState.Database

/-!
# What the parser establishes

An accepted database has no record that one of the accessors would refuse.
`validate_packages` lays the edge ranges of the packages end to end from the
first edge to the last, so although `validate_dependencies` only visits the
edges of the packages, it visits every edge.

The results are collected in `Accepted`, which the encoder's proofs and the
users of a database work with instead of the parser's loops.
-/

namespace OpenRFS.PackageState

open Codec List

variable {view : DatabaseView} {records : List Bytes} {previous : Option Bytes}

variable {record : Bytes} {off i : ℕ} {counts : List ℕ}

theorem textField_eq_ok {width : ℕ} {allowEmpty : Bool} {valid : Bytes → Bool} {status : Status}
    {t : Bytes} :
    textField record off width allowEmpty valid status = .ok t ↔
      fixedText (record.drop off) width allowEmpty = .ok t ∧ valid t := by
  rw [textField]
  cases h : fixedText (record.drop off) width allowEmpty with
  | error s => simp
  | ok text =>
    by_cases hv : valid text
    · simp only [hv, if_true, Except.ok.injEq]
      constructor
      · rintro rfl
        exact ⟨rfl, hv⟩
      · exact fun h' => h'.1
    · simp only [hv]
      constructor
      · intro h'
        cases h'
      · rintro ⟨h₁, h₂⟩
        cases h₁
        exact absurd h₂ hv

/-- The checks of one package record, as far as they concern the record itself.
They do not depend on the place of the record in the table. -/
structure PackageChecked (edgeCount : ℕ) (record : Bytes) : Prop where
  identifier : ∃ t, textField record 0 64 false packageIdentifier .package = .ok t
  version : ∃ t, textField record 64 64 false semanticVersion .package = .ok t
  flags : readU32 record 192 &&& ~~~1 = 0
  edges : (readU32 record 196).toNat + (readU32 record 200).toNat ≤ edgeCount
  dependencies : (readU32 record 200).toNat ≤ packageMaxDependencies
  files : (readU32 record 204).toNat ≤ packageMaxFiles
  reserved : isZero (slice record 208 48) = true

structure EdgeChecked (record : Bytes) : Prop where
  requested : ∃ t, textField record 0 64 false packageIdentifier .dependency = .ok t
  constraint : ∃ t, textField record 64 56 false versionConstraint .dependency = .ok t
  provider : ∃ t, textField record 120 64 false packageIdentifier .dependency = .ok t
  reserved : isZero (slice record 184 8) = true

structure FileChecked (packageCount : ℕ) (record : Bytes) : Prop where
  path : ∃ t, textField record 0 128 false packagePath .file = .ok t
  owner : (readU32 record 128).toNat < packageCount
  fields : ¬(readU16 record 132 = 0 ∨ readU16 record 132 > 4 ∨ readU16 record 134 ≠ 0 ∨
    readU32 record 140 ≠ 0 ∨ (readU32 record 136 ≠ 0o444 ∧ readU32 record 136 ≠ 0o555) ∨
    (readU16 record 132 = 1 ∧ readU32 record 136 ≠ 0o555) ∨
    (readU64 record 144).toNat = 0 ∨ (readU64 record 144).toNat > packageMaxFileBytes)
  reserved : isZero (slice record 248 8) = true
  soname : ∃ t, fixedText (record.drop 184) 64 (readU16 record 132 != 2) = .ok t ∧
    ¬((readU16 record 132 = 2 ∧ libraryName t = false) ∨ (readU16 record 132 ≠ 2 ∧ t ≠ []))

/-- One pass of the loop of `validate_packages`: the record is checked, its
edges start at the cursor, and the rest is validated behind them. -/
theorem validatePackagesFrom_cons {edgeCount : ℕ} {edgeCursor : ℕ}
    (hcursor : edgeCursor ≤ edgeCount)
    (h : validatePackagesFrom edgeCount (record :: records) previous edgeCursor = .ok counts) :
    PackageChecked edgeCount record ∧ (readU32 record 196).toNat = edgeCursor ∧
      ∃ identifier rest, textField record 0 64 false packageIdentifier .package = .ok identifier ∧
        (∀ p ∈ previous, compareFields p identifier = .lt) ∧
        validatePackagesFrom edgeCount records (some identifier)
          (edgeCursor + (readU32 record 200).toNat) = .ok rest ∧
        counts = (readU32 record 204).toNat :: rest := by
  obtain ⟨identifier, hid, h⟩ := bind_eq_ok.mp h
  obtain ⟨version, hversion, h⟩ := bind_eq_ok.mp h
  obtain ⟨hprevious, h⟩ := ite_error_eq_ok.mp h
  obtain ⟨hfields, h⟩ := ite_error_eq_ok.mp h
  obtain ⟨rest, hrest, h⟩ := bind_eq_ok.mp h
  cases h
  simp only [not_or, not_lt, Bool.not_eq_false, ne_eq, not_not] at hfields
  obtain ⟨hflags, hstart, hmax, hroom, hfiles, hzero⟩ := hfields
  refine ⟨⟨⟨identifier, hid⟩, ⟨version, hversion⟩, hflags, by omega, hmax, hfiles, hzero⟩,
    hstart, identifier, rest, hid, ?_, hrest, rfl⟩
  rintro p rfl
  simpa using hprevious

/-- The loop checks every record, and the edge ranges of the records cover all
edges from the cursor on. -/
theorem validatePackagesFrom_checked {edgeCount : ℕ} {edgeCursor : ℕ}
    (hcursor : edgeCursor ≤ edgeCount)
    (h : validatePackagesFrom edgeCount records previous edgeCursor = .ok counts) :
    (∀ record ∈ records, PackageChecked edgeCount record) ∧
      ∀ e, edgeCursor ≤ e → e < edgeCount → ∃ record ∈ records, (readU32 record 196).toNat ≤ e ∧
          e < (readU32 record 196).toNat + (readU32 record 200).toNat := by
  induction records generalizing previous edgeCursor counts with
  | nil =>
    rw [validatePackagesFrom] at h
    split at h
    · rename_i heq
      refine ⟨by simp, fun e he he' => ?_⟩
      omega
    · cases h
  | cons record records ih =>
    obtain ⟨hchecked, hstart, identifier, rest, -, -, hrest, -⟩ :=
      validatePackagesFrom_cons hcursor h
    have hnext : edgeCursor + (readU32 record 200).toNat ≤ edgeCount := by
      have := hchecked.edges
      omega
    obtain ⟨hall, hcover⟩ := ih hnext hrest
    refine ⟨forall_mem_cons.mpr ⟨hchecked, hall⟩, fun e he he' => ?_⟩
    by_cases hlt : e < edgeCursor + (readU32 record 200).toNat
    · exact ⟨record, by simp, by omega, by omega⟩
    · obtain ⟨r, hr, hrange⟩ := hcover e (by omega) he'
      exact ⟨r, by simp [hr], hrange⟩

theorem validateEdges_checked {incoming : List ℕ} {result : List ℕ × List ℕ}
    (h : validateEdges view records previous incoming = .ok result) :
    ∀ record ∈ records, EdgeChecked record := by
  induction records generalizing previous incoming result with
  | nil => simp
  | cons record records ih =>
    obtain ⟨identifier, hid, h⟩ := bind_eq_ok.mp h
    obtain ⟨constraint, hconstraint, h⟩ := bind_eq_ok.mp h
    obtain ⟨provider, hprovider, h⟩ := bind_eq_ok.mp h
    obtain ⟨hzero, h⟩ := ite_error_eq_ok.mp h
    split at h
    · cases h
    obtain ⟨-, h⟩ := ite_error_eq_ok.mp h
    obtain ⟨-, h⟩ := ite_error_eq_ok.mp h
    obtain ⟨tail, htail, -⟩ := bind_eq_ok.mp h
    exact forall_mem_cons.mpr ⟨⟨⟨_, hid⟩, ⟨_, hconstraint⟩, ⟨_, hprovider⟩,
      Bool.not_eq_false _ ▸ hzero⟩, ih htail⟩

theorem dependencyGraph_checked {incoming : List ℕ} {result : List (List ℕ) × List ℕ}
    (h : dependencyGraph view records incoming = .ok result) :
    ∀ record ∈ records, ∀ edge ∈ ownedEdges view record, EdgeChecked edge := by
  induction records generalizing incoming result with
  | nil => simp
  | cons record records ih =>
    obtain ⟨first, hfirst, h⟩ := bind_eq_ok.mp h
    obtain ⟨rest, hrest, -⟩ := bind_eq_ok.mp h
    exact forall_mem_cons.mpr ⟨validateEdges_checked hfirst, ih hrest⟩

/-- One pass of the loop of `validate_files`. -/
theorem validateFilesFrom_cons {packageCount : ℕ} {result : List ℕ}
    (h : validateFilesFrom packageCount (record :: records) previous counts = .ok result) :
    FileChecked packageCount record ∧
      ∃ path counts', textField record 0 128 false packagePath .file = .ok path ∧
        (∀ p ∈ previous, compareFields p path = .lt ∧ pathAncestor p path = false) ∧
        validateFilesFrom packageCount records (some path) counts' = .ok result := by
  obtain ⟨path, hpath, h⟩ := bind_eq_ok.mp h
  obtain ⟨hprevious, h⟩ := ite_error_eq_ok.mp h
  obtain ⟨hfields, h⟩ := ite_error_eq_ok.mp h
  split at h
  · cases h
  rename_i soname hsoname
  obtain ⟨hlibrary, h⟩ := ite_error_eq_ok.mp h
  simp only [not_or] at hfields
  obtain ⟨howner, hk₀, hk₄, hflags, hpad, hmode, happ, hlen₀, hlen, hzero, -⟩ := hfields
  refine ⟨⟨⟨path, hpath⟩, not_le.mp howner, ?_, Bool.not_eq_false _ ▸ hzero, soname, hsoname,
    hlibrary⟩, path, _, hpath, ?_, h⟩
  · simp only [not_or]
    exact ⟨hk₀, hk₄, hflags, hpad, hmode, happ, hlen₀, hlen⟩
  · rintro p rfl
    simpa only [Option.any_some, Bool.or_eq_true, not_or, bne_iff_ne, ne_eq, not_not,
      Bool.not_eq_true] using hprevious

theorem validateFilesFrom_checked {packageCount : ℕ} {result : List ℕ}
    (h : validateFilesFrom packageCount records previous counts = .ok result) :
    ∀ record ∈ records, FileChecked packageCount record := by
  induction records generalizing previous counts result with
  | nil => simp
  | cons record records ih =>
    obtain ⟨hchecked, _, _, -, -, hrest⟩ := validateFilesFrom_cons h
    exact forall_mem_cons.mpr ⟨hchecked, ih hrest⟩

/-- What the header check establishes: the layout of the view, and every header
field. -/
structure HeaderChecked (bytes : Bytes) (view : DatabaseView) : Prop where
  bytes_eq : view.bytes = bytes
  byteCount_eq : view.byteCount = bytes.length
  generation_eq : view.generation = readU64 bytes 24
  abi_eq : view.abi = readU32 bytes 32
  packageCount_eq : view.packageCount = (readU32 bytes 64).toNat
  edgeCount_eq : view.edgeCount = (readU32 bytes 80).toNat
  fileCount_eq : view.fileCount = (readU32 bytes 96).toNat
  packageOffset_eq : view.packageOffset = 512
  edgeOffset_eq : view.edgeOffset = 512 + view.packageCount * 256
  fileOffset_eq : view.fileOffset = 512 + view.packageCount * 256 + view.edgeCount * 192
  length_eq : bytes.length =
    512 + view.packageCount * 256 + view.edgeCount * 192 + view.fileCount * 256
  length_le : bytes.length ≤ databaseMaxBytes
  packageCount_le : view.packageCount ≤ databaseMaxPackages
  edgeCount_le : view.edgeCount ≤ databaseMaxEdges
  fileCount_le : view.fileCount ≤ databaseMaxFiles
  magic : slice bytes 0 8 = databaseMagic
  version : readU16 bytes 8 = 1
  headerBytes : (readU16 bytes 10).toNat = 512
  flags : readU32 bytes 12 = 0
  total : (readU64 bytes 16).toNat = bytes.length
  generation_ne : readU64 bytes 24 ≠ 0
  abi_ne : readU32 bytes 32 ≠ 0
  hole : readU32 bytes 36 = 0
  architecture : slice bytes 40 16 = architecture
  packageOffset : (readU64 bytes 56).toNat = 512
  packageRecordBytes : (readU32 bytes 68).toNat = 256
  edgeOffset : (readU64 bytes 72).toNat = view.edgeOffset
  edgeRecordBytes : (readU32 bytes 84).toNat = 192
  fileOffset : (readU64 bytes 88).toNat = view.fileOffset
  fileRecordBytes : (readU32 bytes 100).toNat = 256
  digest : sha256 (bytes.drop 512) = .ok (digestAt bytes 104)
  reserved : isZero (slice bytes 136 376) = true

theorem digestAt_of_slice {b : Bytes} {d : Digest} (h : d.val = slice b off 32) :
    digestAt b off = d := by
  have hlen : (slice b off 32).length = 32 := by rw [← h, d.property]
  rw [digestAt, dif_pos hlen]
  exact Subtype.ext h.symm

theorem val_digestAt {b : Bytes} (h : off + 32 ≤ b.length) :
    (digestAt b off).val = slice b off 32 := by
  rw [digestAt, dif_pos (length_slice_of_le h)]

theorem databaseHeader_checked {bytes : Bytes} (h : databaseHeader bytes = .ok view) :
    HeaderChecked bytes view := by
  simp only [databaseHeader, ite_error_eq_ok] at h
  obtain ⟨hlength, hmagic, hheader, harchitecture, hreserved, hcounts, hoffsets, h⟩ := h
  split at h
  · cases h
  rename_i digest hdigest
  obtain ⟨hequal, h⟩ := ite_error_eq_ok.mp h
  cases h
  simp only [not_or, not_lt, ne_eq, not_not] at hlength hmagic hheader harchitecture
  simp only [not_or, not_lt, ne_eq, not_not] at hcounts hoffsets hequal
  obtain ⟨hversion, hheaderBytes, hflags, htotal, hgeneration, habi, hhole⟩ := hheader
  obtain ⟨hpackages, hedges, hfiles, hpackageRecord, hedgeRecord, hfileRecord⟩ := hcounts
  obtain ⟨hpackageOffset, hedgeOffset, hfileOffset, hend⟩ := hoffsets
  have hdigestAt : digestAt bytes 104 = digest := digestAt_of_slice hequal
  exact {
    bytes_eq := rfl, byteCount_eq := rfl, generation_eq := rfl, abi_eq := rfl
    packageCount_eq := rfl, edgeCount_eq := rfl, fileCount_eq := rfl
    packageOffset_eq := rfl, edgeOffset_eq := rfl, fileOffset_eq := rfl
    length_eq := hend.symm, length_le := hlength.2
    packageCount_le := hpackages, edgeCount_le := hedges, fileCount_le := hfiles
    magic := hmagic, version := hversion, headerBytes := hheaderBytes, flags := hflags
    total := htotal, generation_ne := hgeneration, abi_ne := habi, hole := hhole
    architecture := harchitecture, packageOffset := hpackageOffset
    packageRecordBytes := hpackageRecord, edgeOffset := hedgeOffset
    edgeRecordBytes := hedgeRecord, fileOffset := hfileOffset
    fileRecordBytes := hfileRecord
    digest := by rw [hdigestAt]; exact hdigest
    reserved := Bool.not_eq_false _ ▸ hreserved }

section HeaderChecked

variable {bytes : Bytes} {view : DatabaseView} (h : HeaderChecked bytes view)
include h

theorem HeaderChecked.packageRecord_eq (i : ℕ) :
    packageRecord view i = slice bytes (512 + i * 256) 256 := by
  rw [packageRecord, h.bytes_eq, h.packageOffset_eq]
  rfl

theorem HeaderChecked.edgeRecord_eq (i : ℕ) :
    edgeRecord view i = slice bytes (512 + view.packageCount * 256 + i * 192) 192 := by
  rw [edgeRecord, h.bytes_eq, h.edgeOffset_eq]
  rfl

theorem HeaderChecked.fileRecord_eq (i : ℕ) :
    fileRecord view i =
      slice bytes (512 + view.packageCount * 256 + view.edgeCount * 192 + i * 256) 256 := by
  rw [fileRecord, h.bytes_eq, h.fileOffset_eq]
  rfl

end HeaderChecked

/-- An accepted database: its header and every one of its records is checked. -/
structure Accepted (bytes : Bytes) (view : DatabaseView) : Prop where
  header : HeaderChecked bytes view
  packages : ∀ i < view.packageCount, PackageChecked view.edgeCount (packageRecord view i)
  edges : ∀ i < view.edgeCount, EdgeChecked (edgeRecord view i)
  files : ∀ i < view.fileCount, FileChecked view.packageCount (fileRecord view i)

theorem databaseParse_accepted {bytes : Bytes} (h : databaseParse bytes = .ok view) :
    Accepted bytes view := by
  obtain ⟨view', hheader, h⟩ := bind_eq_ok.mp h
  obtain ⟨counts, hpackages, h⟩ := bind_eq_ok.mp h
  obtain ⟨_, hdependencies, h⟩ := bind_eq_ok.mp h
  obtain ⟨_, hfiles, h⟩ := bind_eq_ok.mp h
  cases h
  obtain ⟨hpackageChecked, hcover⟩ := validatePackagesFrom_checked (Nat.zero_le _) hpackages
  obtain ⟨graph, hgraph, -⟩ := bind_eq_ok.mp hdependencies
  obtain ⟨_, hfileChecked, -⟩ := bind_eq_ok.mp hfiles
  refine ⟨databaseHeader_checked hheader, fun i hi => ?_, fun e he => ?_, fun i hi => ?_⟩
  · exact hpackageChecked _ (mem_map_of_mem (mem_range.mpr hi))
  · -- the edge lies in the range of some package, whose edges were visited
    obtain ⟨record, hrecord, hstart, hend⟩ := hcover e (Nat.zero_le _) he
    apply dependencyGraph_checked hgraph record hrecord
    refine mem_map.mpr ⟨e - (readU32 record 196).toNat, mem_range.mpr (by omega), ?_⟩
    congr 1
    omega
  · exact validateFilesFrom_checked hfileChecked _
      (mem_map_of_mem (mem_range.mpr hi))

theorem Accepted.shape {bytes : Bytes} (h : Accepted bytes view) :
    databaseViewShape view := by
  have hd := h.header
  have hlength := hd.length_eq
  simp only [databaseViewShape, databaseHeaderBytes, databasePackageRecordBytes,
    databaseEdgeRecordBytes, databaseFileRecordBytes, Bool.and_eq_true, decide_eq_true_eq,
    beq_iff_eq, hd.byteCount_eq]
  exact ⟨⟨⟨⟨⟨⟨⟨⟨by omega, hd.length_le⟩, hd.packageCount_le⟩, hd.edgeCount_le⟩,
    hd.fileCount_le⟩, hd.packageOffset_eq⟩, hd.edgeOffset_eq⟩, hd.fileOffset_eq⟩, hlength⟩

section Accepted

variable {bytes : Bytes} {view : DatabaseView} (h : Accepted bytes view)
include h

theorem Accepted.length_packageRecord (hi : i < view.packageCount) :
    (packageRecord view i).length = 256 := by
  have hlength := h.header.length_eq
  rw [h.header.packageRecord_eq]
  exact length_slice_of_le (by omega)

theorem Accepted.length_edgeRecord (hi : i < view.edgeCount) :
    (edgeRecord view i).length = 192 := by
  have hlength := h.header.length_eq
  rw [h.header.edgeRecord_eq]
  exact length_slice_of_le (by omega)

theorem Accepted.length_fileRecord (hi : i < view.fileCount) :
    (fileRecord view i).length = 256 := by
  have hlength := h.header.length_eq
  rw [h.header.fileRecord_eq]
  exact length_slice_of_le (by omega)

end Accepted

end OpenRFS.PackageState
