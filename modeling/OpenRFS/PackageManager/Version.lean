import OpenRFS.PackageState.Text

/-!
# Versions of packages

The package manager reads a version into its three numbers and its pre-release, and
orders versions by them. The texts themselves are those of the package state: the
manager has copies of the same scanners, and `isSome_semver` says that it takes
exactly the versions which `semanticVersion` accepts.

A constraint is a list of clauses, an operator and a version each, or a star.
-/

namespace OpenRFS.PackageManager

open PackageState Option

/-- `struct semver`. A version without a pre-release has an empty one. -/
structure Semver where
  major : Bytes
  minor : Bytes
  patch : Bytes
  prerelease : Bytes
  deriving DecidableEq, Repr

def versionNumber (bytes : Bytes) : Option (Bytes × Bytes) :=
  let digits := bytes.takeWhile asciiDigit
  if numericIdentifier digits true then some (digits, bytes.drop digits.length) else none

def behindDot : Bytes → Option Bytes
  | [] => none
  | c :: rest => if c == ascii '.' then some rest else none

/-- The pre-release behind the numbers of a version, with the build part checked. -/
def versionTail : Bytes → Option Bytes
  | [] => some []
  | c :: rest =>
    if c == ascii '-' then
      let pre := rest.takeWhile (· != ascii '+')
      if (pre.splitOn (ascii '.')).all prereleasePiece && versionBuild (rest.drop pre.length) then
        some pre
      else none
    else if versionBuild (c :: rest) then some []
    else none

def semver (bytes : Bytes) : Option Semver := do
  let (major, rest) ← versionNumber bytes
  let rest ← behindDot rest
  let (minor, rest) ← versionNumber rest
  let rest ← behindDot rest
  let (patch, rest) ← versionNumber rest
  let prerelease ← versionTail rest
  some ⟨major, minor, patch, prerelease⟩

theorem versionParts_zero (bytes : Bytes) :
    versionParts 0 bytes = (versionNumber bytes).map Prod.snd := by
  rw [versionParts, versionNumber]
  cases numericIdentifier (bytes.takeWhile asciiDigit) true <;> rfl

theorem versionParts_succ (more : ℕ) (bytes : Bytes) :
    versionParts (more + 1) bytes =
      (versionNumber bytes).bind fun p => (behindDot p.2).bind (versionParts more) := by
  conv_lhs => unfold versionParts
  rw [versionNumber]
  by_cases h : numericIdentifier (bytes.takeWhile asciiDigit) true
  · simp only [h, Bool.not_true, Bool.false_eq_true, if_false, if_true, bind_some]
    cases bytes.drop (bytes.takeWhile asciiDigit).length with
    | nil => rfl
    | cons c rest =>
      simp only [behindDot]
      split_ifs <;> rfl
  · simp [h]

theorem isSome_semver (bytes : Bytes) : (semver bytes).isSome = semanticVersion bytes := by
  simp only [semanticVersion, versionParts_succ, versionParts_zero, semver, bind_eq_bind]
  cases versionNumber bytes with
  | none => rfl
  | some p =>
  simp only [bind_some]
  cases behindDot p.2 with
  | none => rfl
  | some rest =>
  simp only [bind_some]
  cases versionNumber rest with
  | none => rfl
  | some q =>
  simp only [bind_some]
  cases behindDot q.2 with
  | none => rfl
  | some rest =>
  simp only [bind_some]
  cases versionNumber rest with
  | none => rfl
  | some r =>
    simp only [bind_some, map_some]
    cases r.2 with
    | nil => rfl
    | cons c rest =>
      simp only [versionTail]
      split_ifs with hminus htail hbuild
      · exact htail.symm
      · simpa using htail
      · exact hbuild.symm
      · simpa using hbuild

/-- Numbers without leading zeros: the longer one is greater. -/
def compareNumber (left right : Bytes) : Ordering :=
  if left.length ≠ right.length then (if left.length < right.length then .lt else .gt)
  else compareFields left right

def comparePieces : List Bytes → List Bytes → Ordering
  | [], [] => .eq
  | [], _ :: _ => .lt
  | _ :: _, [] => .gt
  | left :: lefts, right :: rights =>
    let leftNumeric := left.all asciiDigit
    let rightNumeric := right.all asciiDigit
    if leftNumeric != rightNumeric then (if leftNumeric then .lt else .gt)
    else
      (if leftNumeric then compareNumber left right else compareFields left right).then
        (comparePieces lefts rights)

/-- `compare_semver`. The pre-releases of accepted versions have no empty pieces, so
the pieces are the parts between the dots. -/
def compareSemver (left right : Semver) : Ordering :=
  (compareNumber left.major right.major).then <| (compareNumber left.minor right.minor).then <|
      (compareNumber left.patch right.patch).then <|
        if left.prerelease = [] ∨ right.prerelease = [] then
          if left.prerelease = right.prerelease then .eq
          else if left.prerelease = [] then .gt else .lt
        else comparePieces (left.prerelease.splitOn (ascii '.'))
          (right.prerelease.splitOn (ascii '.'))

def compareSemverText (left right : Bytes) : Ordering :=
  match semver left, semver right with
  | some left, some right => compareSemver left right
  | _, _ => .eq

def clauseHolds (version required : Semver) (operation : UInt8) (equals : Bool) : Bool :=
  let comparison := compareSemver version required
  let majorZero := required.major == [ascii '0']
  let minorZero := required.minor == [ascii '0']
  if operation = ascii '=' ∧ comparison ≠ .eq then false
  else if operation = ascii '>' ∧ (comparison = .lt ∨ !equals ∧ comparison = .eq) then false
  else if operation = ascii '<' ∧ (comparison = .gt ∨ !equals ∧ comparison = .eq) then false
  else if operation = ascii '^' ∨ operation = ascii '~' then
    !(comparison = .lt || version.major != required.major ||
      (operation = ascii '~' || operation = ascii '^' && majorZero) &&
        version.minor != required.minor ||
      operation = ascii '^' && majorZero && minorZero && version.patch != required.patch)
  else true

/-- The loop of `version_satisfies`. Every turn takes the operator at least, so as
many turns as there are bytes suffice. -/
def satisfiesFrom (version : Semver) : ℕ → Bytes → Bool
  | _, [] => true
  | 0, _ :: _ => false
  | turns + 1, operation :: rest =>
    let equals := (operation == ascii '>' || operation == ascii '<') &&
      rest.head? == some (ascii '=')
    let rest := if equals then rest.tail else rest
    let text := rest.takeWhile (· != ascii ',')
    match semver text with
    | none => false
    | some required =>
      clauseHolds version required operation equals &&
        satisfiesFrom version turns ((rest.drop text.length).drop 1)

def versionSatisfies (versionText constraint : Bytes) : Bool :=
  match semver versionText with
  | none => false
  | some version =>
    constraint == [ascii '*'] || satisfiesFrom version constraint.length constraint

/-!
## Versions of equal precedence

Two versions compare equal only if their numbers and pre-releases are the same, so they
satisfy the same constraints. They can still differ in their build parts.
-/

theorem compareNumber_eq_eq {left right : Bytes} (h : compareNumber left right = .eq) :
    left = right := by
  rw [compareNumber] at h
  split_ifs at h
  exact compareFields_eq_eq.mp h

theorem comparePieces_eq_eq {left right : List Bytes} (h : comparePieces left right = .eq) :
    left = right := by
  induction left generalizing right with
  | nil =>
    cases right with
    | nil => rfl
    | cons _ _ => cases h
  | cons a left ih =>
    cases right with
    | nil => cases h
    | cons b right =>
      simp only [comparePieces] at h
      split_ifs at h
      · obtain ⟨hfirst, hrest⟩ := Ordering.then_eq_eq.mp h
        rw [compareNumber_eq_eq hfirst, ih hrest]
      · obtain ⟨hfirst, hrest⟩ := Ordering.then_eq_eq.mp h
        rw [compareFields_eq_eq.mp hfirst, ih hrest]

theorem compareSemver_eq_eq {left right : Semver} (h : compareSemver left right = .eq) :
    left = right := by
  obtain ⟨hmajor, h⟩ := Ordering.then_eq_eq.mp h
  obtain ⟨hminor, h⟩ := Ordering.then_eq_eq.mp h
  obtain ⟨hpatch, h⟩ := Ordering.then_eq_eq.mp h
  have hprerelease : left.prerelease = right.prerelease := by
    split_ifs at h with _ hsame
    · exact hsame
    · calc left.prerelease
          _ = [ascii '.'].intercalate (left.prerelease.splitOn (ascii '.')) :=
            (List.intercalate_splitOn (ascii '.')).symm
          _ = [ascii '.'].intercalate (right.prerelease.splitOn (ascii '.')) := by
            rw [comparePieces_eq_eq h]
          _ = right.prerelease := List.intercalate_splitOn (ascii '.')
  cases left
  cases right
  simp only [Semver.mk.injEq]
  exact ⟨compareNumber_eq_eq hmajor, compareNumber_eq_eq hminor, compareNumber_eq_eq hpatch,
    hprerelease⟩

theorem versionSatisfies_of_compareSemverText {left right constraint : Bytes}
    (hright : semanticVersion right) (h : compareSemverText left right = .eq)
    (hleft : versionSatisfies left constraint) : versionSatisfies right constraint := by
  rw [← isSome_semver] at hright
  obtain ⟨r, hr⟩ := Option.isSome_iff_exists.mp hright
  rw [compareSemverText, hr] at h
  cases hl : semver left with
  | none =>
    rw [versionSatisfies, hl] at hleft
    cases hleft
  | some l =>
    rw [hl] at h
    obtain rfl := compareSemver_eq_eq h
    rw [versionSatisfies, hl] at hleft
    rw [versionSatisfies, hr]
    exact hleft

end OpenRFS.PackageManager
