import OpenRFS.PackageGeneration.Record

/-!
# The database format

A database and the specification of its records determine each other, up to
zero bytes at the end of the texts of a specification. `readSpec` reads a
specification back through the accessors. It never fails on an accepted
database (`readSpec_isOk`), and encoding what it returns gives the same bytes.
-/

namespace OpenRFS.PackageGeneration

open Codec PackageState List

variable {bytes : Bytes} {view : DatabaseView} {spec : GenerationSpec}

/-- The specification the accessors read from a view. -/
def readSpec (view : DatabaseView) : Except Status GenerationSpec := do
  let packages ← (List.range view.packageCount).mapM (databasePackage view)
  let dependencies ← (List.range view.edgeCount).mapM (databaseDependency view)
  let files ← (List.range view.fileCount).mapM (databaseFile view)
  .ok {
    generation := view.generation
    abi := view.abi
    packages := packages
    dependencies := dependencies
    files := files }

/-- No text of the specification holds a zero byte. -/
structure SpecNulFree (spec : GenerationSpec) : Prop where
  packages : ∀ p ∈ spec.packages, PackageNulFree p
  dependencies : ∀ d ∈ spec.dependencies, DependencyNulFree d
  files : ∀ f ∈ spec.files, FileNulFree f

theorem eq_masks (x mask : UInt32) : x = x &&& ~~~mask ||| x &&& mask := by
  rw [← UInt32.toBitVec_inj]
  ext i hi
  cases hx : x.toBitVec[i] <;> simp [hx]

theorem le_one_of_masked {x : UInt32} (h : x &&& ~~~1 = 0) : ¬x > 1 := by
  rw [eq_masks x 1, h, UInt32.zero_or]
  exact UInt32.not_lt.mpr UInt32.and_le_right

variable {i : ℕ} {ρ : Type} {ps : List ρ} {access : ℕ → Except Status ρ}

variable (h : Accepted bytes view)
include h

theorem not_refused {count : ℕ} (hi : i < count) :
    ¬(databaseViewShape view = false ∨ i ≥ count) := by
  rw [h.shape]
  simpa using hi

theorem databasePackage_isOk (hi : i < view.packageCount) :
    ∃ p, databasePackage view i = .ok p := by
  have hc := h.packages i hi
  obtain ⟨identifier, hid⟩ := hc.identifier
  obtain ⟨version, hversion⟩ := hc.version
  have hedges := hc.edges
  rw [databasePackage, if_neg (not_refused h hi)]
  simp only [hid, hversion, bind, Except.bind]
  rw [if_neg]
  · exact ⟨_, rfl⟩
  · simp only [not_or]
    exact ⟨le_one_of_masked hc.flags, by omega, by omega, not_lt.mpr hc.dependencies,
      not_lt.mpr hc.files, by simp [hc.reserved]⟩

theorem databaseDependency_isOk (hi : i < view.edgeCount) :
    ∃ d, databaseDependency view i = .ok d := by
  have hc := h.edges i hi
  obtain ⟨requested, hrequested⟩ := hc.requested
  obtain ⟨constraint, hconstraint⟩ := hc.constraint
  obtain ⟨provider, hprovider⟩ := hc.provider
  rw [databaseDependency, if_neg (not_refused h hi)]
  simp only [hrequested, hconstraint, hprovider, bind, Except.bind, hc.reserved]
  exact ⟨_, rfl⟩

theorem databaseFile_isOk (hi : i < view.fileCount) :
    ∃ f, databaseFile view i = .ok f := by
  have hc := h.files i hi
  obtain ⟨path, hpath⟩ := hc.path
  obtain ⟨soname, hsoname, hlibrary⟩ := hc.soname
  have hfields := not_or.mpr ⟨not_le.mpr hc.owner, hc.fields⟩
  rw [databaseFile, if_neg (not_refused h hi)]
  simp only [hpath, bind, Except.bind, if_neg hfields, hsoname]
  rw [if_neg]
  · exact ⟨_, rfl⟩
  · rw [← or_assoc]
    exact not_or.mpr ⟨hlibrary, by simp [hc.reserved]⟩

theorem readSpec_isOk : ∃ spec, readSpec view = .ok spec := by
  obtain ⟨packages, hpackages⟩ := mapM_isOk (l := List.range view.packageCount)
    fun i hi => databasePackage_isOk h (mem_range.mp hi)
  obtain ⟨dependencies, hdependencies⟩ := mapM_isOk (l := List.range view.edgeCount)
    fun i hi => databaseDependency_isOk h (mem_range.mp hi)
  obtain ⟨files, hfiles⟩ := mapM_isOk (l := List.range view.fileCount)
    fun i hi => databaseFile_isOk h (mem_range.mp hi)
  refine ⟨⟨view.generation, view.abi, packages, dependencies, files⟩, ?_⟩
  simp only [readSpec, hpackages, hdependencies, hfiles, bind, Except.bind]

omit h

/-- What an accepted encoding consists of: the encoded records, behind the
header with their digest. -/
structure Encoding (spec : GenerationSpec) (n : ℕ) (bytes : Bytes)
    (packages dependencies files : List Bytes) (digest : Digest) : Prop where
  packages_eq : List.Forall₂ (fun p r => encodePackage p = .ok r) spec.packages packages
  dependencies_eq :
    List.Forall₂ (fun d r => encodeDependency d = .ok r) spec.dependencies dependencies
  files_eq : List.Forall₂ (fun f r => encodeFile f = .ok r) spec.files files
  bytes_eq : bytes = encodeHeader spec n digest ++
    (packages.flatten ++ (dependencies.flatten ++ files.flatten))
  size : generationSize spec = .ok n
  generation_ne : spec.generation ≠ 0
  abi_ne : spec.abi ≠ 0

theorem generationEncode_eq_ok {n : ℕ} (h : generationEncode spec n = .ok (bytes, view)) :
    databaseParse bytes = .ok view ∧ ∃ packages dependencies files digest,
        Encoding spec n bytes packages dependencies files digest := by
  rw [generationEncode] at h
  split at h
  · cases h
  obtain ⟨expected, hsize, h⟩ := bind_eq_ok.mp h
  split at h
  · cases h
  rename_i hexpected
  split at h
  · cases h
  rename_i hheader
  obtain ⟨packages, hpackages, h⟩ := bind_eq_ok.mp h
  obtain ⟨dependencies, hdependencies, h⟩ := bind_eq_ok.mp h
  obtain ⟨files, hfiles, h⟩ := bind_eq_ok.mp h
  obtain ⟨digest, hdigest, h⟩ := bind_eq_ok.mp h
  obtain ⟨view', hparse, h⟩ := bind_eq_ok.mp h
  obtain ⟨rfl, rfl⟩ := h
  obtain rfl : n = expected := not_not.mp hexpected
  rw [not_or] at hheader
  exact ⟨hparse, packages, dependencies, files, digest, mapM_eq_ok_iff.mp hpackages,
    mapM_eq_ok_iff.mp hdependencies, mapM_eq_ok_iff.mp hfiles, rfl, hsize, hheader.1,
    hheader.2⟩

theorem map_length_headerFields (spec : GenerationSpec) (n : ℕ) (digest : Digest) :
    (headerFields spec n digest).map List.length =
      [8, 2, 2, 4, 8, 8, 4, 4, 16, 8, 4, 4, 8, 4, 4, 8, 4, 4, 32, 376] := by
  simp [headerFields, digest.property, databaseMagic, architecture, asciiText]

theorem length_encodeHeader (spec : GenerationSpec) (n : ℕ) (digest : Digest) :
    (encodeHeader spec n digest).length = 512 := by
  rw [encodeHeader, length_flatten, map_length_headerFields]
  rfl

theorem generationSize_eq_ok {n : ℕ} (h : generationSize spec = .ok n) :
    spec.packages.length ≤ 256 ∧ spec.dependencies.length ≤ 4096 ∧
      spec.files.length ≤ 4096 ∧ n = 512 + spec.packages.length * 256 +
        spec.dependencies.length * 192 + spec.files.length * 256 := by
  simp only [generationSize] at h
  split at h
  · cases h
  rename_i hcounts
  split at h
  · cases h
  cases h
  simp only [not_or, not_lt] at hcounts
  exact ⟨hcounts.1, hcounts.2.1, hcounts.2.2, rfl⟩

section Encoding

variable {spec : GenerationSpec} {n : ℕ} {bytes : Bytes} {view : DatabaseView}
  {packages dependencies files : List Bytes} {digest : Digest}

theorem Encoding.header (h : Encoding spec n bytes packages dependencies files digest)
    (hview : HeaderChecked bytes view) :
    view.generation = spec.generation ∧ view.abi = spec.abi ∧
      view.packageCount = spec.packages.length ∧
      view.edgeCount = spec.dependencies.length ∧ view.fileCount = spec.files.length := by
  obtain ⟨hpackages, hdependencies, hfiles, -⟩ := generationSize_eq_ok h.size
  have hcut := cutAt_append_flatten [] (packages.flatten ++ (dependencies.flatten ++
    files.flatten)) (headerFields spec n digest)
  rw [map_length_headerFields, nil_append, length_nil] at hcut
  change cutAt 0 _ (encodeHeader spec n digest ++ _) = _ at hcut
  rw [← h.bytes_eq] at hcut
  simp only [cutAt_cons, cutAt_nil, zero_add, Nat.reduceAdd, headerFields, List.cons.injEq] at hcut
  obtain ⟨-, -, -, -, -, hgeneration, habi, -, -, -, hp, -, -, hd, -, -, hf, -⟩ := hcut
  rw [hview.generation_eq, hview.abi_eq, hview.packageCount_eq, hview.edgeCount_eq,
    hview.fileCount_eq, readU64_of_slice hgeneration, readU32_of_slice habi,
    readU32_of_slice hp, readU32_of_slice hd, readU32_of_slice hf]
  refine ⟨rfl, rfl, ?_, ?_, ?_⟩ <;> rw [UInt32.toNat_ofNat_of_lt'] <;>
    simp only [UInt32.size] <;> omega

theorem Encoding.records (h : Encoding spec n bytes packages dependencies files digest)
    (hview : HeaderChecked bytes view) :
    packageRecords view = packages ∧
      (List.range view.edgeCount).map (edgeRecord view) = dependencies ∧
      fileRecords view = files := by
  obtain ⟨-, -, hp, hd, hf⟩ := h.header hview
  have hpLen : ∀ r ∈ packages, r.length = 256 := by
    refine forall_mem_of_forall₂ (fun _ _ h => ?_) h.packages_eq
    obtain ⟨rfl, hwidths⟩ := encodePackage_eq_ok h
    rw [length_flatten, hwidths]
    rfl
  have hdLen : ∀ r ∈ dependencies, r.length = 192 := by
    refine forall_mem_of_forall₂ (fun _ _ h => ?_) h.dependencies_eq
    obtain ⟨rfl, hwidths⟩ := encodeDependency_eq_ok h
    rw [length_flatten, hwidths]
    rfl
  have hfLen : ∀ r ∈ files, r.length = 256 := by
    refine forall_mem_of_forall₂ (fun _ _ h => ?_) h.files_eq
    obtain ⟨rfl, hwidths⟩ := encodeFile_eq_ok h
    rw [length_flatten, hwidths]
    rfl
  have hpCount : view.packageCount = packages.length := hp.trans h.packages_eq.length_eq
  have hdCount : view.edgeCount = dependencies.length := hd.trans h.dependencies_eq.length_eq
  have hfCount : view.fileCount = files.length := hf.trans h.files_eq.length_eq
  have hheaderLen : (encodeHeader spec n digest).length = 512 := length_encodeHeader _ _ _
  refine ⟨?_, ?_, ?_⟩
  · have htable := map_slice_flatten (p := encodeHeader spec n digest)
      (q := dependencies.flatten ++ files.flatten) hpLen
    rw [← h.bytes_eq, hheaderLen] at htable
    rw [packageRecords, hpCount, funext hview.packageRecord_eq]
    exact htable
  · have htable := map_slice_flatten (p := encodeHeader spec n digest ++ packages.flatten)
      (q := files.flatten) hdLen
    rw [append_assoc, ← h.bytes_eq, length_append, hheaderLen,
      length_flatten_of_forall hpLen] at htable
    rw [hdCount, funext hview.edgeRecord_eq, hpCount]
    exact htable
  · have htable := map_slice_flatten
      (p := encodeHeader spec n digest ++ (packages.flatten ++ dependencies.flatten))
      (q := []) hfLen
    have hassoc : encodeHeader spec n digest ++ (packages.flatten ++ dependencies.flatten) ++
        (files.flatten ++ []) = bytes := by
      rw [h.bytes_eq]
      simp
    rw [hassoc, length_append, length_append, hheaderLen,
      length_flatten_of_forall hpLen, length_flatten_of_forall hdLen, ← add_assoc] at htable
    rw [fileRecords, hfCount, funext hview.fileRecord_eq, hdCount, hpCount]
    exact htable

end Encoding

theorem forall₂_of_mapM {n : ℕ} {encode : ρ → Except Status Bytes} {record : ℕ → Bytes}
    {good : ρ → Prop} (hstep : ∀ i < n, ∀ p, access i = .ok p → encode p = .ok (record i) ∧ good p)
    (h : (List.range n).mapM access = .ok ps) :
    List.Forall₂ (fun p r => encode p = .ok r) ps ((List.range n).map record) ∧
      (∀ p ∈ ps, good p) ∧ ps.length = n := by
  have haccess := mapM_eq_ok_iff.mp h
  have hindex : List.Forall₂ (fun i p => encode p = .ok (record i) ∧ good p)
      (List.range n) ps := by
    refine ((forall₂_and_left _ _).mpr ⟨fun i hi => mem_range.mp hi, haccess⟩).imp ?_
    rintro i p ⟨hi, hp⟩
    exact hstep i hi p hp
  refine ⟨?_, ?_, ?_⟩
  · rw [forall₂_map_right_iff]
    exact (hindex.imp fun _ _ hp => hp.1).flip
  · exact forall_mem_of_forall₂ (fun _ _ hp => hp.2) hindex
  · simpa using haccess.length_eq.symm

/-- The records read back from an accepted database encode to its bytes, and
their texts hold no zero bytes. -/
structure ReadBack (view : DatabaseView) (spec : GenerationSpec) : Prop where
  packages : List.Forall₂ (fun p r => encodePackage p = .ok r) spec.packages
    (packageRecords view)
  dependencies : List.Forall₂ (fun d r => encodeDependency d = .ok r) spec.dependencies
    ((List.range view.edgeCount).map (edgeRecord view))
  files : List.Forall₂ (fun f r => encodeFile f = .ok r) spec.files (fileRecords view)
  nulFree : SpecNulFree spec
  generation_eq : spec.generation = view.generation
  abi_eq : spec.abi = view.abi
  packages_length : spec.packages.length = view.packageCount
  dependencies_length : spec.dependencies.length = view.edgeCount
  files_length : spec.files.length = view.fileCount

theorem readSpec_readBack (hview : Accepted bytes view) (h : readSpec view = .ok spec) :
    ReadBack view spec := by
  obtain ⟨packages, hpackages, h⟩ := bind_eq_ok.mp h
  obtain ⟨dependencies, hdependencies, h⟩ := bind_eq_ok.mp h
  obtain ⟨files, hfiles, h⟩ := bind_eq_ok.mp h
  cases h
  obtain ⟨hp, hpFree, hpLen⟩ := forall₂_of_mapM (fun i hi p hp =>
    encodePackage_of_databasePackage (hview.length_packageRecord hi) hp) hpackages
  obtain ⟨hd, hdFree, hdLen⟩ := forall₂_of_mapM (fun i hi d hd =>
    encodeDependency_of_databaseDependency (hview.length_edgeRecord hi) hd) hdependencies
  obtain ⟨hf, hfFree, hfLen⟩ := forall₂_of_mapM (fun i hi f hf =>
    encodeFile_of_databaseFile (hview.length_fileRecord hi) hf) hfiles
  exact ⟨hp, hd, hf, ⟨hpFree, hdFree, hfFree⟩, rfl, rfl, hpLen, hdLen, hfLen⟩

/-- The specification read back from an encoding is the encoded one exactly if
that one has no zero bytes in its texts. -/
theorem readSpec_encoding_iff {spec read : GenerationSpec} {n : ℕ}
    {packages dependencies files : List Bytes} {digest : Digest}
    (h : Encoding spec n bytes packages dependencies files digest)
    (hview : HeaderChecked bytes view) (hread : ReadBack view read) :
    read = spec ↔ SpecNulFree spec := by
  obtain ⟨hgeneration, habi, -, -, -⟩ := h.header hview
  obtain ⟨hp, hd, hf⟩ := h.records hview
  have hpackages := forall₂_eq_iff (fun _ _ _ => eq_iff_packageNulFree) h.packages_eq
    (hp ▸ hread.packages) hread.nulFree.packages
  have hdependencies := forall₂_eq_iff (fun _ _ _ => eq_iff_dependencyNulFree)
    h.dependencies_eq (hd ▸ hread.dependencies) hread.nulFree.dependencies
  have hfiles := forall₂_eq_iff (fun _ _ _ => eq_iff_fileNulFree) h.files_eq
    (hf ▸ hread.files) hread.nulFree.files
  constructor
  · rintro rfl
    exact hread.nulFree
  · rintro ⟨hpFree, hdFree, hfFree⟩
    exact GenerationSpec.ext (hread.generation_eq.trans hgeneration)
      (hread.abi_eq.trans habi) (hpackages.mpr hpFree) (hdependencies.mpr hdFree)
      (hfiles.mpr hfFree)

theorem verifyRecords_eq_ok_iff [DecidableEq ρ] {k : ℕ} : verifyRecords access k ps = .ok () ↔
    List.Forall₂ (fun i p => access i = .ok p) (List.range' k ps.length) ps := by
  induction ps generalizing k with
  | nil => simp [verifyRecords]
  | cons p ps ih =>
    rw [verifyRecords, bind_eq_ok, length_cons, range'_succ, forall₂_cons, ← ih]
    constructor
    · rintro ⟨actual, hactual, h⟩
      split_ifs at h with heq
      exact ⟨heq ▸ hactual, h⟩
    · rintro ⟨hp, h⟩
      exact ⟨p, hp, by rwa [if_pos rfl]⟩

theorem verifyRecords_iff_mapM [DecidableEq ρ] {n : ℕ} (hn : n = ps.length) :
    verifyRecords access 0 ps = .ok () ↔ (List.range n).mapM access = .ok ps := by
  rw [verifyRecords_eq_ok_iff, mapM_eq_ok_iff, range_eq_range', hn]

/-- Behind its checks on the sizes the verification compares what the accessors
read with the specification. -/
theorem generationVerify_iff_readSpec (hparse : databaseParse bytes = .ok view)
    (hsize : generationSize spec = .ok bytes.length)
    (hne : ¬(spec.generation = 0 ∨ spec.abi = 0)) :
    generationVerify spec bytes = .ok view ↔ readSpec view = .ok spec := by
  simp only [generationVerify, hsize, hparse, bind, Except.bind]
  rw [if_neg (by simpa using hne)]
  constructor
  · intro h
    split_ifs at h with hcounts
    simp only [not_or, not_not] at hcounts
    obtain ⟨hgeneration, habi, hp, hd, hf⟩ := hcounts
    obtain ⟨⟨⟩, hpackages, h⟩ := bind_eq_ok.mp h
    obtain ⟨⟨⟩, hdependencies, h⟩ := bind_eq_ok.mp h
    obtain ⟨⟨⟩, hfiles, -⟩ := bind_eq_ok.mp h
    simp only [readSpec, (verifyRecords_iff_mapM hp).mp hpackages,
      (verifyRecords_iff_mapM hd).mp hdependencies, (verifyRecords_iff_mapM hf).mp hfiles,
      bind, Except.bind, hgeneration, habi]
  · intro h
    have hread := readSpec_readBack (databaseParse_accepted hparse) h
    obtain ⟨packages, hpackages, h⟩ := bind_eq_ok.mp h
    obtain ⟨dependencies, hdependencies, h⟩ := bind_eq_ok.mp h
    obtain ⟨files, hfiles, h⟩ := bind_eq_ok.mp h
    cases h
    rw [if_neg (by simp [hread.packages_length, hread.dependencies_length, hread.files_length]),
      (verifyRecords_iff_mapM hread.packages_length.symm).mpr hpackages,
      (verifyRecords_iff_mapM hread.dependencies_length.symm).mpr hdependencies,
      (verifyRecords_iff_mapM hread.files_length.symm).mpr hfiles]

theorem encodeHeader_of_headerChecked (h : HeaderChecked bytes view) (hread : ReadBack view spec) :
    encodeHeader spec bytes.length (digestAt bytes 104) = slice bytes 0 512 := by
  have hlen : 512 ≤ bytes.length := by
    have := h.length_eq
    omega
  have hversion : writeU16 1 = slice bytes 8 2 := by
    rw [← writeU16_readU16 (by omega), h.version]
  have hheaderBytes : writeU16 512 = slice bytes 10 2 := by
    rw [← writeU16_readU16 (by omega)]
    exact congrArg writeU16 (UInt16.toNat_inj.mp h.headerBytes.symm)
  have hflags : zeros 4 = slice bytes 12 4 := by
    rw [← writeU32_readU32 (by omega), h.flags]
    rfl
  have hhole : zeros 4 = slice bytes 36 4 := by
    rw [← writeU32_readU32 (by omega), h.hole]
    rfl
  have hreserved : zeros 376 = slice bytes 136 376 := zeros_of_isZero_slice (by omega) h.reserved
  have hword64 : ∀ {off m : ℕ}, off + 8 ≤ bytes.length → (readU64 bytes off).toNat = m →
      writeU64 (UInt64.ofNat m) = slice bytes off 8 := by
    rintro off m hoff rfl
    rw [UInt64.ofNat_toNat, writeU64_readU64 hoff]
  have hword32 : ∀ {off m : ℕ}, off + 4 ≤ bytes.length → (readU32 bytes off).toNat = m →
      writeU32 (UInt32.ofNat m) = slice bytes off 4 := by
    rintro off m hoff rfl
    rw [UInt32.ofNat_toNat, writeU32_readU32 hoff]
  have hedge : (readU64 bytes 72).toNat = 512 + view.packageCount * 256 :=
    h.edgeOffset.trans h.edgeOffset_eq
  have hfile : (readU64 bytes 88).toNat = 512 + view.packageCount * 256 + view.edgeCount * 192 :=
    h.fileOffset.trans h.fileOffset_eq
  have hcut := flatten_cutAt 0
    [8, 2, 2, 4, 8, 8, 4, 4, 16, 8, 4, 4, 8, 4, 4, 8, 4, 4, 32, 376] bytes
  simp only [cutAt_cons, cutAt_nil, zero_add, Nat.reduceAdd, sum_cons, sum_nil] at hcut
  rw [← hcut, encodeHeader]
  congr 1
  simp only [headerFields, databaseHeaderBytes, databasePackageRecordBytes,
    databaseEdgeRecordBytes, databaseFileRecordBytes, hread.generation_eq, hread.abi_eq,
    hread.packages_length, hread.dependencies_length, hread.files_length,
    h.generation_eq, h.abi_eq, List.cons.injEq, and_true]
  exact ⟨h.magic.symm, hversion, hheaderBytes, hflags, hword64 (by omega) h.total,
    writeU64_readU64 (by omega), writeU32_readU32 (by omega), hhole, h.architecture.symm,
    hword64 (by omega) h.packageOffset, hword32 (by omega) h.packageCount_eq.symm,
    hword32 (by omega) h.packageRecordBytes, hword64 (by omega) hedge,
    hword32 (by omega) h.edgeCount_eq.symm, hword32 (by omega) h.edgeRecordBytes,
    hword64 (by omega) hfile, hword32 (by omega) h.fileCount_eq.symm,
    hword32 (by omega) h.fileRecordBytes, val_digestAt (by omega), hreserved⟩

theorem tables_eq_drop (h : HeaderChecked bytes view) :
    (packageRecords view).flatten ++ (((List.range view.edgeCount).map (edgeRecord view)).flatten ++
          (fileRecords view).flatten) = bytes.drop 512 := by
  rw [packageRecords, fileRecords, funext h.packageRecord_eq, funext h.edgeRecord_eq,
    funext h.fileRecord_eq, flatten_map_slice, flatten_map_slice, flatten_map_slice,
    slice_append_slice, slice_append_slice, slice, take_of_length_le]
  have := h.length_eq
  simp only [length_drop]
  omega

theorem generationEncode_of_readBack (hparse : databaseParse bytes = .ok view)
    (hread : ReadBack view spec) : generationEncode spec bytes.length = .ok (bytes, view) := by
  have h := (databaseParse_accepted hparse).header
  have hlength := h.length_eq
  have hmax := h.length_le
  have hsize : generationSize spec = .ok bytes.length := by
    have hcounts : ¬(view.packageCount > databaseMaxPackages ∨
        view.edgeCount > databaseMaxEdges ∨ view.fileCount > databaseMaxFiles) := by
      simp only [not_or, not_lt]
      exact ⟨h.packageCount_le, h.edgeCount_le, h.fileCount_le⟩
    simp only [generationSize, hread.packages_length, hread.dependencies_length,
      hread.files_length, if_neg hcounts, databaseHeaderBytes, databasePackageRecordBytes,
      databaseEdgeRecordBytes, databaseFileRecordBytes]
    rw [← hlength, if_neg (not_lt.mpr hmax)]
  have hne : ¬(spec.generation = 0 ∨ spec.abi = 0) := by
    rw [hread.generation_eq, hread.abi_eq, h.generation_eq, h.abi_eq, not_or]
    exact ⟨h.generation_ne, h.abi_ne⟩
  have hresult : encodeHeader spec bytes.length (digestAt bytes 104) ++ bytes.drop 512 = bytes := by
    rw [encodeHeader_of_headerChecked h hread, slice, drop_zero, take_append_drop]
  rw [generationEncode, if_neg (not_lt.mpr hmax)]
  simp only [hsize, bind, Except.bind, ne_eq, not_true_eq_false, if_false, if_neg hne,
    mapM_eq_ok_iff.mpr hread.packages, mapM_eq_ok_iff.mpr hread.dependencies,
    mapM_eq_ok_iff.mpr hread.files, tables_eq_drop h, h.digest, hresult, hparse]

theorem Encoding.length_eq {n : ℕ} {packages dependencies files : List Bytes} {digest : Digest}
    (h : Encoding spec n bytes packages dependencies files digest)
    (hview : HeaderChecked bytes view) : bytes.length = n := by
  obtain ⟨-, -, hp, hd, hf⟩ := h.header hview
  obtain ⟨-, -, -, hn⟩ := generationSize_eq_ok h.size
  rw [hview.length_eq, hn, hp, hd, hf]

/-- The database format and its specifications. An encoding is always accepted by
the parser. The accessors return the specification exactly if none of its texts holds
a zero byte, and exactly then it verifies. Every accepted database is the encoding of
what the accessors return. -/
theorem generationEncode_bijection (bytes : Bytes) (view : DatabaseView) :
    (∀ (spec : GenerationSpec) (n : ℕ), generationEncode spec n = .ok (bytes, view) →
      databaseParse bytes = .ok view ∧ (readSpec view = .ok spec ↔ SpecNulFree spec) ∧
        (generationVerify spec bytes = .ok view ↔ SpecNulFree spec)) ∧
    (databaseParse bytes = .ok view → ∃ spec, readSpec view = .ok spec ∧
        generationEncode spec bytes.length = .ok (bytes, view)) := by
  constructor
  · intro spec n h
    obtain ⟨hparse, packages, dependencies, files, digest, hencoding⟩ := generationEncode_eq_ok h
    have haccepted := databaseParse_accepted hparse
    obtain ⟨read, hread⟩ := readSpec_isOk haccepted
    have hsize := hencoding.size
    rw [← hencoding.length_eq haccepted.header] at hsize
    have hiff : readSpec view = .ok spec ↔ SpecNulFree spec := by
      rw [hread, Except.ok.injEq]
      exact readSpec_encoding_iff hencoding haccepted.header (readSpec_readBack haccepted hread)
    refine ⟨hparse, hiff, ?_⟩
    rw [generationVerify_iff_readSpec hparse hsize
      (not_or.mpr ⟨hencoding.generation_ne, hencoding.abi_ne⟩), hiff]
  · intro hparse
    have haccepted := databaseParse_accepted hparse
    obtain ⟨spec, hspec⟩ := readSpec_isOk haccepted
    exact ⟨spec, hspec, generationEncode_of_readBack hparse
      (readSpec_readBack haccepted hspec)⟩

def samplePackage (identifier : Bytes) (explicitRoot : Bool)
    (dependencyStart dependencyCount : UInt32) : PackageRecord where
  identifier := identifier
  version := asciiText ['1', '.', '2', '.', '0']
  packageSha256 := ⟨zeros 32, zeroDigest_length⟩
  publisherKeyId := ⟨zeros 32, zeroDigest_length⟩
  explicitRoot := explicitRoot
  dependencyStart := dependencyStart
  dependencyCount := dependencyCount
  fileCount := 1

def sampleFile (path soname : Bytes) (ownerIndex : UInt32) (kind : UInt16) : FileRecord :=
  ⟨path, ownerIndex, kind, 0o555, 7, ⟨zeros 32, zeroDigest_length⟩, soname⟩

def sampleSpec : GenerationSpec where
  generation := 3
  abi := 1
  packages := [samplePackage (asciiText ['a', '.', 'p']) true 0 1,
    samplePackage (asciiText ['l', '.', 'b']) false 1 0]
  dependencies := [⟨asciiText ['l', '.', 'b'], asciiText ['^', '1', '.', '0', '.', '0'],
    asciiText ['l', '.', 'b']⟩]
  files := [sampleFile (asciiText ['b', 'i', 'n', '/', 'a']) [] 0 1,
    sampleFile (asciiText ['l', 'i', 'b', '/', 'b']) (asciiText ['b', '.', 's', 'o']) 1 2]

set_option maxRecDepth 8000 in
/-- The generation is encoded, read back and verified. -/
theorem generationEncode_bijection_sampleSpec :
    ∃ bytes view, generationEncode sampleSpec 1728 = .ok (bytes, view) ∧
      databaseParse bytes = .ok view ∧ readSpec view = .ok sampleSpec ∧
      generationVerify sampleSpec bytes = .ok view := by
  have hfree : SpecNulFree sampleSpec := by
    constructor
    · simp only [PackageNulFree]
      decide
    · simp only [DependencyNulFree]
      decide
    · simp only [FileNulFree]
      decide
  have h : (generationEncode sampleSpec 1728).toOption.isSome = true := by
    decide +kernel
  cases hr : generationEncode sampleSpec 1728 with
  | error status => simp [hr, Except.toOption] at h
  | ok r =>
    obtain ⟨hparse, hread, hverify⟩ := (generationEncode_bijection r.1 r.2).1 _ _ hr
    exact ⟨r.1, r.2, rfl, hparse, hread.mpr hfree, hverify.mpr hfree⟩

/-- One package whose identifier is the letter `a` followed by a zero byte. -/
def nulPackage : PackageRecord where
  identifier := [0x61, 0]
  version := asciiText ['1', '.', '0', '.', '0']
  packageSha256 := ⟨zeros 32, zeroDigest_length⟩
  publisherKeyId := ⟨zeros 32, zeroDigest_length⟩
  explicitRoot := true
  dependencyStart := 0
  dependencyCount := 0
  fileCount := 0

def nulSpec : GenerationSpec := ⟨1, 1, [nulPackage], [], []⟩

/-- The encoder accepts the package, but the database it writes holds the
identifier without the zero byte and does not verify. -/
theorem generationEncode_nulSpec :
    ∃ bytes view, generationEncode nulSpec 768 = .ok (bytes, view) ∧
      databasePackage view 0 = .ok { nulPackage with identifier := [0x61] } ∧
      generationVerify nulSpec bytes = .error .mismatch := by
  have h : (generationEncode nulSpec 768).toOption.any (fun r =>
      decide (databasePackage r.2 0 = .ok { nulPackage with identifier := [0x61] } ∧
        generationVerify nulSpec r.1 = .error .mismatch)) = true := by decide +kernel
  cases hr : generationEncode nulSpec 768 with
  | error status => simp [hr, Except.toOption] at h
  | ok r =>
    rw [hr] at h
    exact ⟨r.1, r.2, rfl, by simpa [Except.toOption] using h⟩

end OpenRFS.PackageGeneration
