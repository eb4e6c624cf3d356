import OpenRFS.Codec.Lexicographic
import OpenRFS.PackageGeneration.Roundtrip
import OpenRFS.PackageManager.Package

/-!
# Files below files

The installed database and the package archives keep their files sorted by path. When
they are read, every path is compared with the one in front of it: it must be greater,
and it must not lie below that file. This misses a file `p` with another file `p/…` in
the table if a path stands between the two, and some do: `+`, `-` and `.` come before
the slash, so `a+b` stands between `a` and `a/c`.

`Unshadowed` is what the comparison would have to look at besides: behind every path that
is directly followed by one that continues it with such a byte, the first one that does not.
-/

namespace OpenRFS.PackageManager

open Codec PackageState PackageGeneration List

variable {paths : List Bytes} {p : Bytes}

/-- The paths of an accepted file table, in its order. -/
inductive FileTable : List Bytes → Prop
  | database {bytes : Bytes} {view : DatabaseView} {files : List FileRecord}
      (parsed : databaseParse bytes = .ok view)
      (table : (List.range view.fileCount).mapM (databaseFile view) = .ok files) :
      FileTable (files.map (·.path))
  | package {bytes : Bytes} {expected : CatalogEntry} {policy : Policy} {trust : Option Trust}
      {view : PackageView} {files : List FileView}
      (opened : packageOpen bytes expected policy trust = .ok view)
      (table : (List.range view.fileCount).mapM (packageFile view) = .ok files) :
      FileTable (files.map (·.path))

def continuesBelowSlash (p q : Bytes) : Bool :=
  q.take p.length == p && q[p.length]?.any (· < ascii '/')

/-- Behind every path that is directly followed by one that continues it with a byte below
the slash, the first one that does not continue it so does not lie below it. -/
def Unshadowed : List Bytes → Prop
  | [] => True
  | p :: paths =>
    (paths.head?.any (continuesBelowSlash p) = true →
      ∀ q ∈ (paths.dropWhile (continuesBelowSlash p)).head?, pathAncestor p q = false) ∧
      Unshadowed paths

/-- What the readers ask of a path and the one in front of it. -/
def Follows (p q : Bytes) : Prop := p < q ∧ pathAncestor p q = false

instance : DecidablePred Unshadowed := fun paths => by
  induction paths with
  | nil => exact isTrue trivial
  | cons p paths ih => exact instDecidableAnd

instance uint8_asymm : Std.Asymm (α := UInt8) (· < ·) := ⟨fun _ _ => UInt8.lt_asymm⟩

instance uint8_trichotomous : Std.Trichotomous (α := UInt8) (· < ·) :=
  ⟨fun _ _ h h' => UInt8.le_antisymm (UInt8.not_lt.mp h') (UInt8.not_lt.mp h)⟩

theorem exists_eq_append_cons {p q : Bytes} {c : UInt8} :
    (∃ s, q = p ++ c :: s) ↔ q.take p.length = p ∧ q[p.length]? = some c := by
  constructor
  · rintro ⟨s, rfl⟩
    simp
  · rintro ⟨htake, hget⟩
    obtain ⟨hlt, hc⟩ := List.getElem?_eq_some_iff.mp hget
    have hparts := List.take_append_drop p.length q
    rw [htake, List.drop_eq_getElem_cons hlt, hc] at hparts
    exact ⟨_, hparts.symm⟩

theorem pathAncestor_iff {p q : Bytes} :
    pathAncestor p q ↔ ∃ rest, q = p ++ ascii '/' :: rest := by
  rw [exists_eq_append_cons]
  simp only [pathAncestor, Bool.and_eq_true, decide_eq_true_eq, beq_iff_eq]
  constructor
  · rintro ⟨⟨-, hslash⟩, htake⟩
    exact ⟨htake, hslash⟩
  · rintro ⟨htake, hslash⟩
    exact ⟨⟨(List.getElem?_eq_some_iff.mp hslash).1, hslash⟩, htake⟩

theorem continuesBelowSlash_iff {p q : Bytes} :
    continuesBelowSlash p q ↔ ∃ c s, q = p ++ c :: s ∧ c < ascii '/' := by
  simp only [continuesBelowSlash, Bool.and_eq_true, beq_iff_eq, Option.any_eq_true,
    decide_eq_true_eq, exists_and_right, exists_eq_append_cons]
  constructor
  · rintro ⟨htake, c, hget, hlt⟩
    exact ⟨c, ⟨htake, hget⟩, hlt⟩
  · rintro ⟨c, ⟨htake, hget⟩, hlt⟩
    exact ⟨htake, c, hget, hlt⟩

/-! ### The neighbours in accepted tables -/

theorem validateFilesFrom_isChain {packageCount : ℕ} {records : List Bytes}
    {previous : Option Bytes} {counts result : List ℕ}
    (h : validateFilesFrom packageCount records previous counts = .ok result)
    (hpaths : List.Forall₂
      (fun record path => textField record 0 128 false packagePath .file = .ok path)
      records paths) : (previous.toList ++ paths).IsChain Follows := by
  induction hpaths generalizing previous counts with
  | nil => cases previous <;> simp
  | cons hpath htail ih =>
    obtain ⟨-, path, _, hpath', hprevious, hrest⟩ := validateFilesFrom_cons h
    obtain rfl := Except.ok.inj (hpath'.symm.trans hpath)
    exact isChain_toList_cons.mpr
      ⟨fun p hp => (hprevious p hp).imp_left compareFields_eq_lt.mp, ih hrest⟩

theorem textField_of_databaseFile {view : DatabaseView} {i : ℕ} {file : FileRecord}
    (h : databaseFile view i = .ok file) :
    textField (fileRecord view i) 0 128 false packagePath .file = .ok file.path := by
  obtain ⟨-, h⟩ := ite_error_eq_ok.mp h
  obtain ⟨path, hpath, h⟩ := bind_eq_ok.mp h
  obtain ⟨-, h⟩ := ite_error_eq_ok.mp h
  split at h
  · cases h
  obtain ⟨-, h⟩ := ite_error_eq_ok.mp h
  cases h
  exact hpath

theorem checkPackageFiles_isChain {package : PackageView} {indices : List ℕ}
    {files : List FileView} {previous : Option Bytes} {expectedPayload result : ℕ}
    (h : checkPackageFiles package indices previous expectedPayload = .ok result)
    (hfiles : List.Forall₂ (fun i file => packageFile package i = .ok file) indices files) :
    (previous.toList ++ files.map (·.path)).IsChain Follows := by
  induction hfiles generalizing previous expectedPayload with
  | nil => cases previous <;> simp
  | cons hfile htail ih =>
    obtain ⟨file, hfile', h⟩ := bind_eq_ok.mp h
    obtain rfl := Except.ok.inj (hfile'.symm.trans hfile)
    obtain ⟨hprevious, h⟩ := ite_error_eq_ok.mp h
    refine isChain_toList_cons.mpr ⟨?_, ih h⟩
    rintro p rfl
    simp only [Option.any_some, Bool.or_eq_true, not_or] at hprevious
    simpa [Follows, compareFields_eq_lt] using hprevious.1

theorem packageOpen_files {bytes : Bytes} {expected : CatalogEntry} {policy : Policy}
    {trust : Option Trust} {view : PackageView}
    (h : packageOpen bytes expected policy trust = .ok view) :
    ∃ result, checkPackageFiles view (List.range view.fileCount) none view.payloadOffset =
      .ok result := by
  obtain ⟨parsed, -, h⟩ := bind_eq_ok.mp h
  obtain ⟨-, h⟩ := ite_error_eq_ok.mp h
  obtain ⟨_, -, h⟩ := bind_eq_ok.mp h
  obtain ⟨-, h⟩ := ite_error_eq_ok.mp h
  obtain ⟨_, -, h⟩ := bind_eq_ok.mp h
  obtain ⟨result, hfiles, h⟩ := bind_eq_ok.mp h
  obtain ⟨-, h⟩ := ite_error_eq_ok.mp h
  obtain ⟨_, -, h⟩ := bind_eq_ok.mp h
  cases h
  exact ⟨result, hfiles⟩

theorem pairwise_of_isChain (h : paths.IsChain (· < ·)) : paths.Pairwise (· < ·) :=
  haveI : Trans (α := UInt8) (· < ·) (· < ·) (· < ·) := ⟨UInt8.lt_trans⟩
  haveI : IsTrans Bytes (· < ·) := ⟨fun _ _ _ => List.lt_trans⟩
  List.isChain_iff_pairwise.mp h

theorem FileTable.isChain (h : FileTable paths) : paths.IsChain Follows := by
  cases h with
  | database parsed table =>
    obtain ⟨view, -, h⟩ := bind_eq_ok.mp parsed
    obtain ⟨counts, -, h⟩ := bind_eq_ok.mp h
    obtain ⟨_, -, h⟩ := bind_eq_ok.mp h
    obtain ⟨_, hvalid, h⟩ := bind_eq_ok.mp h
    cases h
    obtain ⟨_, hfiles, -⟩ := bind_eq_ok.mp hvalid
    refine validateFilesFrom_isChain hfiles ?_
    rw [fileRecords, forall₂_map_left_iff, forall₂_map_right_iff]
    exact (mapM_eq_ok_iff.mp table).imp fun i file => textField_of_databaseFile
  | package opened table =>
    obtain ⟨result, hchecked⟩ := packageOpen_files opened
    exact checkPackageFiles_isChain hchecked (mapM_eq_ok_iff.mp table)

/-! ### What the comparison of neighbours misses -/

theorem unshadowed_of_forall (h : ∀ p ∈ paths, ∀ q ∈ paths, pathAncestor p q = false) :
    Unshadowed paths := by
  induction paths with
  | nil => exact trivial
  | cons p paths ih =>
    refine ⟨fun _ q hq => ?_, ih fun a ha b hb =>
      h a (mem_cons_of_mem _ ha) b (mem_cons_of_mem _ hb)⟩
    have hmem : q ∈ paths := (dropWhile_suffix _).mem (mem_of_mem_head? hq)
    exact h p mem_cons_self q (mem_cons_of_mem _ hmem)

/-- The first path that may lie below `p` does not, if the readers have accepted the table:
either it follows `p` directly, or the condition speaks of it. -/
theorem Unshadowed.head (h : Unshadowed (p :: paths)) (hchain : (p :: paths).IsChain Follows) :
    ∀ q ∈ (paths.dropWhile (continuesBelowSlash p)).head?, pathAncestor p q = false := by
  cases paths with
  | nil => simp
  | cons next paths =>
    by_cases hnext : continuesBelowSlash p next
    · exact h.1 (by simpa using hnext)
    · rw [dropWhile_cons_of_neg hnext]
      rintro q hq
      obtain rfl : next = q := by simpa using hq
      exact (isChain_cons_cons.mp hchain).1.2

theorem Unshadowed.forall (h : Unshadowed paths) (hchain : paths.IsChain Follows) :
    ∀ p ∈ paths, ∀ rest, p ++ ascii '/' :: rest ∉ paths := by
  induction paths with
  | nil => simp
  | cons x paths ih =>
    intro p hp rest hq
    have hsorted := pairwise_of_isChain (hchain.imp fun _ _ hpair => hpair.1)
    have hx := (pairwise_cons.mp hsorted).1
    have hlt := lt_append_cons p (ascii '/') rest
    rcases mem_cons.mp hp with rfl | hp
    · rcases mem_cons.mp hq with heq | hq
      · rw [heq] at hlt
        exact absurd hlt (List.lt_irrefl _)
      · -- the first path behind `p` that may lie below it does
        obtain ⟨s, hfirst⟩ := head?_dropWhile_continuation
          (fun q => continuesBelowSlash_iff (p := p) (q := q)) hsorted hq
        have hnot := h.head hchain _ hfirst
        rw [pathAncestor_iff.mpr ⟨s, rfl⟩] at hnot
        cases hnot
    · rcases mem_cons.mp hq with heq | hq
      · exact absurd (hx p hp) (heq ▸ List.lt_asymm hlt)
      · exact ih h.2 hchain.tail p hp rest hq

/-- No file of an accepted table is a directory of another one exactly if behind every
path with a neighbour that continues it with `+`, `-` or `.`, the first one that does not
continue it so is not below it. -/
theorem no_file_below_file_iff (paths : List Bytes) (h : FileTable paths) :
    (∀ p ∈ paths, ∀ rest, p ++ ascii '/' :: rest ∉ paths) ↔ Unshadowed paths := by
  constructor
  · intro hnone
    refine unshadowed_of_forall fun p hp q hq => ?_
    by_contra hancestor
    obtain ⟨rest, rfl⟩ := pathAncestor_iff.mp (by simpa using hancestor)
    exact hnone p hp rest hq
  · exact fun hunshadowed => hunshadowed.forall h.isChain

theorem fileTable_of_generationEncode {spec : GenerationSpec} {n : ℕ}
    (h : (generationEncode spec n).isOk) (hfree : SpecNulFree spec) :
    FileTable (spec.files.map (·.path)) := by
  cases hencode : generationEncode spec n with
  | error status =>
    rw [hencode] at h
    cases h
  | ok result =>
    obtain ⟨hparse, packages, dependencies, files, digest, hencoding⟩ :=
      generationEncode_eq_ok hencode
    have haccepted := databaseParse_accepted hparse
    obtain ⟨read, hread⟩ := readSpec_isOk haccepted
    obtain rfl := (readSpec_encoding_iff hencoding haccepted.header
      (readSpec_readBack haccepted hread)).mpr hfree
    obtain ⟨_, -, hread⟩ := bind_eq_ok.mp hread
    obtain ⟨_, -, hread⟩ := bind_eq_ok.mp hread
    obtain ⟨files, hfiles, hread⟩ := bind_eq_ok.mp hread
    cases hread
    exact .database hparse hfiles

/-- A generation with one package that owns a file of one byte at every path. -/
def ownerSpec (paths : List Bytes) : GenerationSpec where
  generation := 1
  abi := 1
  packages := [{
    identifier := asciiText ['a']
    version := asciiText ['1', '.', '0', '.', '0']
    packageSha256 := ⟨zeros 32, zeroDigest_length⟩
    publisherKeyId := ⟨zeros 32, zeroDigest_length⟩
    explicitRoot := true
    dependencyStart := 0
    dependencyCount := 0
    fileCount := UInt32.ofNat paths.length }]
  dependencies := []
  files := paths.map fun path => {
    path := path
    ownerIndex := 0
    kind := 3
    mode := 0o444
    length := 1
    sha256 := ⟨zeros 32, zeroDigest_length⟩
    soname := [] }

theorem ownerSpec_nulFree (h : ∀ path ∈ paths, NulFree path) : SpecNulFree (ownerSpec paths) where
  packages := by
    intro p hp
    obtain rfl := mem_singleton.mp hp
    exact ⟨show NulFree (asciiText ['a']) by decide,
      show NulFree (asciiText ['1', '.', '0', '.', '0']) by decide⟩
  dependencies := by simp [ownerSpec]
  files := by
    intro f hf
    obtain ⟨path, hpath, rfl⟩ := mem_map.mp hf
    exact ⟨h path hpath, show NulFree [] by decide⟩

theorem fileTable_ownerSpec {n : ℕ} (h : ∀ path ∈ paths, NulFree path)
    (hencode : (generationEncode (ownerSpec paths) n).isOk) : FileTable paths := by
  have htable := fileTable_of_generationEncode hencode (ownerSpec_nulFree h)
  simpa [ownerSpec, Function.comp_def] using htable

set_option maxRecDepth 4000 in
theorem no_file_below_file_ownerSpec :
    FileTable [asciiText ['a'], asciiText ['a', '+']] ∧
      ∀ p ∈ [asciiText ['a'], asciiText ['a', '+']], ∀ rest,
        p ++ ascii '/' :: rest ∉ [asciiText ['a'], asciiText ['a', '+']] :=
  have htable : FileTable [asciiText ['a'], asciiText ['a', '+']] :=
    fileTable_ownerSpec (n := 1280) (by decide) (by decide +kernel)
  ⟨htable, (no_file_below_file_iff _ htable).mpr (by decide)⟩

set_option maxRecDepth 4000 in
/-- The file `a` is accepted together with `a/c`, because `a+` stands between them. -/
theorem file_below_file :
    ∃ paths, FileTable paths ∧ ¬ ∀ p ∈ paths, ∀ rest, p ++ ascii '/' :: rest ∉ paths := by
  refine ⟨[asciiText ['a'], asciiText ['a', '+'], asciiText ['a', '/', 'c']],
    fileTable_ownerSpec (n := 1536) (by decide) (by decide +kernel), fun h => ?_⟩
  exact h (asciiText ['a']) (by decide) (asciiText ['c']) (by decide)

end OpenRFS.PackageManager
