import OpenRFS.PackageState.Sha256

/-!
# The texts of the package state

Identifiers, versions, constraints, paths and library names are stored as
printable texts in fixed fields, zero-padded, with at least one zero byte
behind them. `fixedText` reads such a field and `fixedText_eq_ok_iff` says
which fields it accepts: exactly the padded printable texts that fit.

The grammars (`packageIdentifier`, `semanticVersion`, `versionConstraint`,
`packagePath`, `libraryName`) are scanners over the text. Where the source
scans up to a separator, the scanner here splits the text at that separator.
-/

namespace OpenRFS.PackageState

open Codec List

def ascii (c : Char) : UInt8 := UInt8.ofNat c.toNat

def asciiText (cs : List Char) : Bytes := cs.map ascii

def printable (v : UInt8) : Bool := 0x20 ≤ v && v ≤ 0x7e

/-- `fixed_text`: the text in front of the first zero byte of the first `width`
bytes. It is refused when it holds an unprintable byte, fills the field, is
empty where it may not be, or when a nonzero byte follows the zero byte. -/
def fixedText (bytes : Bytes) (width : ℕ) (allowEmpty : Bool) : Except Status Bytes :=
  let text := (bytes.take width).takeWhile (· != 0)
  if !text.all printable then .error .text
  else if text.length == width || (!allowEmpty && text.length == 0) ||
      !isZero ((bytes.take width).drop text.length) then .error .text
  else .ok text

def compareFields : Bytes → Bytes → Ordering
  | [], [] => .eq
  | [], _ :: _ => .lt
  | _ :: _, [] => .gt
  | a :: l, b :: r =>
    if a != b then (if a < b then .lt else .gt) else compareFields l r

theorem compareFields_eq_eq {left right : Bytes} :
    compareFields left right = .eq ↔ left = right := by
  induction left generalizing right with
  | nil => cases right <;> simp [compareFields]
  | cons a left ih =>
    cases right with
    | nil => simp [compareFields]
    | cons b right =>
      rw [compareFields, List.cons.injEq, ← ih]
      by_cases h : a = b
      · simp [h]
      · simp only [bne_iff_ne, ne_eq, h, not_false_eq_true, if_true, false_and, iff_false]
        split_ifs <;> nofun

theorem compareFields_eq_lt {left right : Bytes} :
    compareFields left right = .lt ↔ left < right := by
  induction left generalizing right with
  | nil => cases right <;> simp [compareFields]
  | cons a left ih =>
    cases right with
    | nil => simp [compareFields]
    | cons b right =>
      rw [compareFields, cons_lt_cons_iff]
      by_cases hab : a = b
      · simp [hab, ih, UInt8.lt_irrefl]
      · by_cases hlt : a < b <;> simp [hab, hlt]

theorem isChain_toList_cons {R : Bytes → Bytes → Prop} {previous : Option Bytes} {t : Bytes}
    {l : List Bytes} : (previous.toList ++ t :: l).IsChain R ↔
      (∀ p ∈ previous, R p t) ∧ ((some t).toList ++ l).IsChain R := by
  cases previous <;> simp

def pathAncestor (ancestor descendant : Bytes) : Bool :=
  decide (ancestor.length < descendant.length) &&
    descendant[ancestor.length]? == some (ascii '/') &&
    descendant.take ancestor.length == ancestor

def asciiDigit (v : UInt8) : Bool := ascii '0' ≤ v && v ≤ ascii '9'

def asciiAlphanumeric (v : UInt8) : Bool :=
  asciiDigit v || (ascii 'A' ≤ v && v ≤ ascii 'Z') || (ascii 'a' ≤ v && v ≤ ascii 'z')

def packageIdentifierFrom (previousSeparator : Bool) : Bytes → Bool
  | [] => !previousSeparator
  | v :: rest =>
    let alphanumeric := (ascii 'a' ≤ v && v ≤ ascii 'z') || asciiDigit v
    let separator := v == ascii '.' || v == ascii '-'
    if !alphanumeric && !separator then false
    else if separator && previousSeparator then false
    else packageIdentifierFrom separator rest

def packageIdentifier (field : Bytes) : Bool :=
  field.length != 0 && packageIdentifierFrom true field

def numericIdentifier (bytes : Bytes) (rejectLeadingZero : Bool) : Bool :=
  bytes.length != 0 &&
    !(rejectLeadingZero && decide (bytes.length > 1) && bytes.head? == some (ascii '0')) &&
    bytes.all asciiDigit

/-- The numeric parts of a version: `more` further parts follow the first one,
each behind a dot. The text behind the last part is returned. -/
def versionParts : ℕ → Bytes → Option Bytes
  | more, bytes =>
    let digits := bytes.takeWhile asciiDigit
    if !numericIdentifier digits true then none
    else
      match more, bytes.drop digits.length with
      | 0, rest => some rest
      | more + 1, c :: rest => if c == ascii '.' then versionParts more rest else none
      | _ + 1, [] => none

/-- One dot-separated piece of a pre-release: a number has no leading zero. -/
def prereleasePiece (piece : Bytes) : Bool :=
  piece.all (fun v => asciiAlphanumeric v || v == ascii '-') && piece.length != 0 &&
    !(piece.all asciiDigit && !numericIdentifier piece true)

def buildPiece (piece : Bytes) : Bool :=
  piece.all (fun v => asciiAlphanumeric v || v == ascii '-') && piece.length != 0

def versionBuild : Bytes → Bool
  | [] => true
  | c :: rest => c == ascii '+' && (rest.splitOn (ascii '.')).all buildPiece

/-- `semantic_version`: three numbers, an optional pre-release behind a hyphen
and an optional build part behind a plus sign. -/
def semanticVersion (bytes : Bytes) : Bool :=
  match versionParts 2 bytes with
  | none => false
  | some [] => true
  | some (c :: rest) =>
    if c == ascii '-' then
      let pre := rest.takeWhile (· != ascii '+')
      (pre.splitOn (ascii '.')).all prereleasePiece &&
        versionBuild (rest.drop pre.length)
    else versionBuild (c :: rest)

def constraintClause : Bytes → Bool
  | [] => false
  | operation :: rest =>
    if operation == ascii '>' || operation == ascii '<' then
      match rest with
      | c :: version => if c == ascii '=' then semanticVersion version
          else semanticVersion rest
      | [] => semanticVersion []
    else if operation != ascii '=' && operation != ascii '^' &&
        operation != ascii '~' then false
    else semanticVersion rest

/-- `version_constraint`. The source's loop accepts the empty text, which
`fixedText` keeps away from it. -/
def versionConstraint (field : Bytes) : Bool :=
  field == [ascii '*'] || field == [] ||
    (field.splitOn (ascii ',')).all constraintClause

def nameByte (v : UInt8) : Bool :=
  asciiAlphanumeric v || v == ascii '.' || v == ascii '_' || v == ascii '+' ||
    v == ascii '-'

/-- `library_name`. The check of one path component in `package_path` is the
same. -/
def libraryName (field : Bytes) : Bool :=
  field.length != 0 && field != [ascii '.'] && field != [ascii '.', ascii '.'] &&
    field.all nameByte

def packagePath (field : Bytes) : Bool :=
  (field.splitOn (ascii '/')).all libraryName

/-- A text that a field can hold: printable and shorter than the field. -/
structure FieldText (width : ℕ) (allowEmpty : Bool) (t : Bytes) : Prop where
  printable : ∀ v ∈ t, printable v = true
  lt : t.length < width
  nonempty : allowEmpty = true ∨ t ≠ []

theorem ne_zero_of_printable {v : UInt8} (h : printable v) : v ≠ 0 := by
  rintro rfl
  exact absurd h (by decide)

theorem FieldText.nulFree {w : ℕ} {allowEmpty : Bool} {t : Bytes}
    (h : FieldText w allowEmpty t) : NulFree t :=
  fun h0 => ne_zero_of_printable (h.printable 0 h0) rfl

/-- The fields `fixedText` accepts are the padded texts that fit. -/
theorem fixedText_eq_ok_iff {bytes : Bytes} {w : ℕ} {allowEmpty : Bool} {t : Bytes}
    (hw : w ≤ bytes.length) :
    fixedText bytes w allowEmpty = .ok t ↔ bytes.take w = pad w t ∧ FieldText w allowEmpty t := by
  have hlen : (bytes.take w).length = w := by simpa using hw
  constructor
  · intro h
    simp only [fixedText] at h
    split at h
    · cases h
    · rename_i hprint
      split at h
      · cases h
      · rename_i hrest
        cases h
        set text := (bytes.take w).takeWhile (· != 0) with htext
        simp only [Bool.not_eq_true', Bool.not_eq_false] at hprint
        simp only [Bool.or_eq_true, not_or, Bool.not_eq_true, Bool.not_eq_false',
          beq_eq_false_iff_ne, Bool.and_eq_false_iff] at hrest
        obtain ⟨⟨hne, hempty⟩, hzero⟩ := hrest
        have hle : text.length ≤ w := by
          rw [← hlen]
          exact ( takeWhile_prefix _).length_le
        have hdrop : (bytes.take w).drop text.length = zeros (w - text.length) := by
          rw [← isZero_iff_of_length (by simp [hlen])]
          exact hzero
        refine ⟨?_, fun v hv => all_eq_true.mp hprint v hv, by omega, ?_⟩
        · have htake : (bytes.take w).take text.length = text :=
            (prefix_iff_eq_take.mp ( takeWhile_prefix _)).symm
          rw [pad, ← hdrop]
          conv_lhs => rw [← take_append_drop text.length (bytes.take w), htake]
        · rcases hempty with h | h
          · left
            simpa using h
          · right
            intro hnil
            simp [hnil] at h
  · rintro ⟨hpad, htext'⟩
    have htext : (pad w t).takeWhile (· != 0) = t := by
      rw [takeWhile_pad, takeWhile_of_nulFree htext'.nulFree]
    obtain ⟨hp, hlt, hne⟩ := htext'
    have hall : t.all printable := all_eq_true.mpr hp
    have hzero : isZero ((pad w t).drop t.length) := by
      rw [pad, drop_left, isZero_iff, length_zeros]
    have hwidth : (t.length == w) = false := by
      simp
      omega
    have hempty : (!allowEmpty && t.length == 0) = false := by
      rcases hne with h | h
      · simp [h]
      · simp [h]
    simp only [fixedText, hpad, htext, hall, hzero, hwidth, hempty]
    rfl

end OpenRFS.PackageState
