import OpenRFS.PackageGeneration.Encode
import OpenRFS.PackageState.Canonical

/-!
# Records and their bytes

For each of the three record kinds: a record an accessor returns encodes to the
bytes it was read from, and two specifications with the same encoding differ at
most in zero bytes at the end of their texts. `copy_text` checks the length of
a text only, so a text that ends in zero bytes is written like the shorter text
in front of them.
-/

namespace OpenRFS.PackageGeneration

open Codec PackageState

variable {record : Bytes}

/-- No text of the package record holds a zero byte. -/
def PackageNulFree (p : PackageRecord) : Prop :=
  NulFree p.identifier ∧ NulFree p.version

/-- No text of the dependency record holds a zero byte. -/
def DependencyNulFree (d : DependencyRecord) : Prop :=
  NulFree d.requested ∧ NulFree d.constraint ∧ NulFree d.provider

/-- No text of the file record holds a zero byte. -/
def FileNulFree (f : FileRecord) : Prop :=
  NulFree f.path ∧ NulFree f.soname

theorem copyText_eq_some {w : ℕ} {t f : Bytes} {allowEmpty : Bool}
    (h : copyText w t allowEmpty = some f) : f = pad w t ∧ f.length = w := by
  rw [copyText] at h
  split at h
  · cases h
  · rename_i hlen
    cases h
    refine ⟨rfl, length_pad ?_⟩
    omega

/-- A field that `fixedText` accepted is what `copy_text` writes for its text. -/
theorem copyText_of_fixedText {off w : ℕ} {allowEmpty : Bool} {t : Bytes}
    (hlen : off + w ≤ record.length) (h : fixedText (record.drop off) w allowEmpty = .ok t) :
    copyText w t allowEmpty = some (slice record off w) ∧ NulFree t := by
  obtain ⟨hpad, htext⟩ := (fixedText_eq_ok_iff (by simp; omega)).mp h
  refine ⟨?_, htext.nulFree⟩
  have hlt := htext.lt
  have hempty : ¬(allowEmpty = false ∧ t.length = 0) := by
    rintro ⟨hf, hz⟩
    rcases htext.nonempty with h' | h'
    · rw [hf] at h'
      cases h'
    · exact h' (List.length_eq_zero_iff.mp hz)
  rw [copyText, if_neg (by rintro (h' | h') <;> [omega; exact hempty h']), slice, hpad]

theorem explicitFlag_of_le_one {flags : UInt32} (h : ¬flags > 1) :
    (if (flags == 1) = true then (1 : UInt32) else 0) = flags := by
  have hle : flags.toNat ≤ 1 := not_lt.mp h
  have hcases : flags = 0 ∨ flags = 1 := by
    rcases Nat.le_one_iff_eq_zero_or_eq_one.mp hle with h' | h'
    · exact Or.inl (UInt32.toNat_inj.mp h')
    · exact Or.inr (UInt32.toNat_inj.mp h')
  rcases hcases with rfl | rfl <;> rfl

variable {f : FileRecord} {view : DatabaseView} {i : ℕ} {p : PackageRecord} {d : DependencyRecord}

theorem encodePackage_of_databasePackage (hlen : (packageRecord view i).length = 256)
    (h : databasePackage view i = .ok p) :
    encodePackage p = .ok (packageRecord view i) ∧ PackageNulFree p := by
  obtain ⟨-, h⟩ := ite_error_eq_ok.mp h
  set record := packageRecord view i
  obtain ⟨identifier, hid, h⟩ := bind_eq_ok.mp h
  obtain ⟨version, hversion, h⟩ := bind_eq_ok.mp h
  obtain ⟨hfields, h⟩ := ite_error_eq_ok.mp h
  cases h
  simp only [not_or] at hfields
  obtain ⟨hflags, -, -, -, -, hzero⟩ := hfields
  obtain ⟨hid', hidFree⟩ := copyText_of_fixedText (by omega) (textField_eq_ok.mp hid).1
  obtain ⟨hversion', hversionFree⟩ :=
    copyText_of_fixedText (by omega) (textField_eq_ok.mp hversion).1
  have hzero' : zeros 48 = slice record 208 48 :=
    zeros_of_isZero_slice (by omega) (Bool.not_eq_false _ ▸ hzero)
  have hcut := flatten_cutAt_eq_self [64, 64, 32, 32, 4, 4, 4, 4, 48] record
    (by rw [hlen]; rfl)
  simp only [cutAt_cons, cutAt_nil, zero_add, Nat.reduceAdd] at hcut
  refine ⟨?_, hidFree, hversionFree⟩
  simp only [encodePackage, hid', hversion', explicitFlag_of_le_one hflags]
  rw [val_digestAt (by omega), val_digestAt (by omega), writeU32_readU32 (by omega),
    writeU32_readU32 (by omega), writeU32_readU32 (by omega), writeU32_readU32 (by omega),
    hzero', hcut]

theorem encodeDependency_of_databaseDependency (hlen : (edgeRecord view i).length = 192)
    (h : databaseDependency view i = .ok d) :
    encodeDependency d = .ok (edgeRecord view i) ∧ DependencyNulFree d := by
  obtain ⟨-, h⟩ := ite_error_eq_ok.mp h
  set record := edgeRecord view i
  obtain ⟨requested, hrequested, h⟩ := bind_eq_ok.mp h
  obtain ⟨constraint, hconstraint, h⟩ := bind_eq_ok.mp h
  obtain ⟨provider, hprovider, h⟩ := bind_eq_ok.mp h
  obtain ⟨hzero, h⟩ := ite_error_eq_ok.mp h
  cases h
  obtain ⟨hrequested', hrequestedFree⟩ :=
    copyText_of_fixedText (by omega) (textField_eq_ok.mp hrequested).1
  obtain ⟨hconstraint', hconstraintFree⟩ :=
    copyText_of_fixedText (by omega) (textField_eq_ok.mp hconstraint).1
  obtain ⟨hprovider', hproviderFree⟩ :=
    copyText_of_fixedText (by omega) (textField_eq_ok.mp hprovider).1
  have hzero' : zeros 8 = slice record 184 8 :=
    zeros_of_isZero_slice (by omega) (Bool.not_eq_false _ ▸ hzero)
  have hcut := flatten_cutAt_eq_self [64, 56, 64, 8] record
    (by rw [hlen]; rfl)
  simp only [cutAt_cons, cutAt_nil, zero_add, Nat.reduceAdd] at hcut
  refine ⟨?_, hrequestedFree, hconstraintFree, hproviderFree⟩
  simp only [encodeDependency, hrequested', hconstraint', hprovider']
  rw [hzero', hcut]

theorem encodeFile_of_databaseFile (hlen : (fileRecord view i).length = 256)
    (h : databaseFile view i = .ok f) : encodeFile f = .ok (fileRecord view i) ∧ FileNulFree f := by
  obtain ⟨-, h⟩ := ite_error_eq_ok.mp h
  set record := fileRecord view i
  obtain ⟨path, hpath, h⟩ := bind_eq_ok.mp h
  obtain ⟨hfields, h⟩ := ite_error_eq_ok.mp h
  split at h
  · cases h
  rename_i soname hsoname
  obtain ⟨hlibrary, h⟩ := ite_error_eq_ok.mp h
  cases h
  simp only [not_or, ne_eq, not_not] at hfields hlibrary
  obtain ⟨-, -, -, hflags, hpad, -, -, -, -⟩ := hfields
  obtain ⟨-, hsonameEmpty, hzero⟩ := hlibrary
  obtain ⟨hpath', hpathFree⟩ := copyText_of_fixedText (by omega) (textField_eq_ok.mp hpath).1
  obtain ⟨hsonamePad, hsonameText⟩ := (fixedText_eq_ok_iff (by simp; omega)).mp hsoname
  have hsoname' : copyText 64 soname true = some (slice record 184 64) := by
    have hlt := hsonameText.lt
    rw [copyText, if_neg (by simp; omega), slice, hsonamePad]
  have hzero' : zeros 8 = slice record 248 8 :=
    zeros_of_isZero_slice (by omega) (Bool.not_eq_false _ ▸ hzero)
  have hflags' : zeros 2 = slice record 134 2 := by
    rw [← writeU16_readU16 (by omega), hflags]
    rfl
  have hpad' : zeros 4 = slice record 140 4 := by
    rw [← writeU32_readU32 (by omega), hpad]
    rfl
  have hcut := flatten_cutAt_eq_self [128, 4, 2, 2, 4, 4, 8, 32, 64, 8] record
    (by rw [hlen]; rfl)
  simp only [cutAt_cons, cutAt_nil, zero_add, Nat.reduceAdd] at hcut
  refine ⟨?_, hpathFree, hsonameText.nulFree⟩
  simp only [encodeFile, hpath', hsoname']
  rw [val_digestAt (by omega), writeU32_readU32 (by omega), writeU16_readU16 (by omega),
    writeU32_readU32 (by omega), writeU64_readU64 (by omega), hzero', hflags', hpad', hcut]

theorem flag_injective {a b : Bool}
    (h : (if a then (1 : UInt32) else 0) = if b then 1 else 0) : a = b := by
  cases a <;> cases b <;> simp_all

def packageFields (p : PackageRecord) : List Bytes :=
  [pad 64 p.identifier, pad 64 p.version, p.packageSha256.val, p.publisherKeyId.val,
    writeU32 (if p.explicitRoot then 1 else 0), writeU32 p.dependencyStart,
    writeU32 p.dependencyCount, writeU32 p.fileCount, zeros 48]

def dependencyFields (d : DependencyRecord) : List Bytes :=
  [pad 64 d.requested, pad 56 d.constraint, pad 64 d.provider, zeros 8]

def fileFields (f : FileRecord) : List Bytes :=
  [pad 128 f.path, writeU32 f.ownerIndex, writeU16 f.kind, zeros 2, writeU32 f.mode, zeros 4,
    writeU64 f.length, f.sha256.val, pad 64 f.soname, zeros 8]

theorem encodePackage_eq_ok (h : encodePackage p = .ok record) :
    record = (packageFields p).flatten ∧
      (packageFields p).map List.length = [64, 64, 32, 32, 4, 4, 4, 4, 48] := by
  rw [encodePackage] at h
  split at h
  · rename_i identifier version hid hversion
    cases h
    obtain ⟨rfl, hid⟩ := copyText_eq_some hid
    obtain ⟨rfl, hversion⟩ := copyText_eq_some hversion
    refine ⟨rfl, ?_⟩
    simp [packageFields, hid, hversion, p.packageSha256.property, p.publisherKeyId.property]
  · cases h

theorem encodeDependency_eq_ok (h : encodeDependency d = .ok record) :
    record = (dependencyFields d).flatten ∧
      (dependencyFields d).map List.length = [64, 56, 64, 8] := by
  rw [encodeDependency] at h
  split at h
  · rename_i requested constraint provider hrequested hconstraint hprovider
    cases h
    obtain ⟨rfl, hrequested⟩ := copyText_eq_some hrequested
    obtain ⟨rfl, hconstraint⟩ := copyText_eq_some hconstraint
    obtain ⟨rfl, hprovider⟩ := copyText_eq_some hprovider
    refine ⟨rfl, ?_⟩
    simp [dependencyFields, hrequested, hconstraint, hprovider]
  · cases h

theorem encodeFile_eq_ok (h : encodeFile f = .ok record) :
    record = (fileFields f).flatten ∧
      (fileFields f).map List.length = [128, 4, 2, 2, 4, 4, 8, 32, 64, 8] := by
  rw [encodeFile] at h
  split at h
  · rename_i path soname hpath hsoname
    cases h
    obtain ⟨rfl, hpath⟩ := copyText_eq_some hpath
    obtain ⟨rfl, hsoname⟩ := copyText_eq_some hsoname
    refine ⟨rfl, ?_⟩
    simp [fileFields, hpath, hsoname, f.sha256.property]
  · cases h

/-- A package specification with the encoding of a record without zero bytes
in its texts is that record exactly if its own texts have none. -/
theorem eq_iff_packageNulFree {q : PackageRecord} (hp : encodePackage p = .ok record)
    (hq : encodePackage q = .ok record) (hfree : PackageNulFree q) : q = p ↔ PackageNulFree p := by
  refine ⟨fun h => h ▸ hfree, ?_⟩
  rintro ⟨hid, hversion⟩
  obtain ⟨rfl, hpWidths⟩ := encodePackage_eq_ok hp
  obtain ⟨hflat, hqWidths⟩ := encodePackage_eq_ok hq
  have hfields := flatten_injective_of_widths (hqWidths.trans hpWidths.symm) hflat.symm
  simp only [packageFields, List.cons.injEq] at hfields
  obtain ⟨h₁, h₂, h₃, h₄, h₅, h₆, h₇, h₈, -⟩ := hfields
  obtain ⟨qi, qv, qs, qk, qe, qd, qc, qf⟩ := q
  obtain ⟨pi, pv, ps, pk, pe, pd, pc, pf⟩ := p
  simp only [PackageRecord.mk.injEq]
  exact ⟨pad_injective_of_nulFree hfree.1 hid h₁, pad_injective_of_nulFree hfree.2 hversion h₂,
    Subtype.ext h₃, Subtype.ext h₄, flag_injective (writeU32_injective h₅),
    writeU32_injective h₆, writeU32_injective h₇, writeU32_injective h₈⟩

theorem eq_iff_dependencyNulFree {e : DependencyRecord} (hd : encodeDependency d = .ok record)
    (he : encodeDependency e = .ok record) (hfree : DependencyNulFree e) :
    e = d ↔ DependencyNulFree d := by
  refine ⟨fun h => h ▸ hfree, ?_⟩
  rintro ⟨hrequested, hconstraint, hprovider⟩
  obtain ⟨rfl, hdWidths⟩ := encodeDependency_eq_ok hd
  obtain ⟨hflat, heWidths⟩ := encodeDependency_eq_ok he
  have hfields := flatten_injective_of_widths (heWidths.trans hdWidths.symm) hflat.symm
  simp only [dependencyFields, List.cons.injEq] at hfields
  obtain ⟨h₁, h₂, h₃, -⟩ := hfields
  obtain ⟨r, c, pr⟩ := e
  obtain ⟨r', c', pr'⟩ := d
  simp only [DependencyRecord.mk.injEq]
  exact ⟨pad_injective_of_nulFree hfree.1 hrequested h₁,
    pad_injective_of_nulFree hfree.2.1 hconstraint h₂,
    pad_injective_of_nulFree hfree.2.2 hprovider h₃⟩

theorem eq_iff_fileNulFree {g : FileRecord} (hf : encodeFile f = .ok record)
    (hg : encodeFile g = .ok record) (hfree : FileNulFree g) : g = f ↔ FileNulFree f := by
  refine ⟨fun h => h ▸ hfree, ?_⟩
  rintro ⟨hpath, hsoname⟩
  obtain ⟨rfl, hfWidths⟩ := encodeFile_eq_ok hf
  obtain ⟨hflat, hgWidths⟩ := encodeFile_eq_ok hg
  have hfields := flatten_injective_of_widths (hgWidths.trans hfWidths.symm) hflat.symm
  simp only [fileFields, List.cons.injEq] at hfields
  obtain ⟨h₁, h₂, h₃, -, h₅, -, h₇, h₈, h₉, -⟩ := hfields
  obtain ⟨p, o, k, m, l, d, s⟩ := g
  obtain ⟨p', o', k', m', l', d', s'⟩ := f
  simp only [FileRecord.mk.injEq]
  exact ⟨pad_injective_of_nulFree hfree.1 hpath h₁, writeU32_injective h₂,
    writeU16_injective h₃, writeU32_injective h₅, writeU64_injective h₇, Subtype.ext h₈,
    pad_injective_of_nulFree hfree.2 hsoname h₉⟩

end OpenRFS.PackageGeneration
