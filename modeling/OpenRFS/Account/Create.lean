import OpenRFS.Account.Record
import OpenRFS.Codec.Checked
import OpenRFS.Volume.Store

/-!
# account_create

`persist_record` writes the record to a second file and renames it. What the calls of the
filesystem answer is given; a call that fails changes nothing but the second file. The
rename is left out if a call before it fails, but not if the write stores fewer bytes than
it was given, and then a torn record is in place (`Torn`).
-/

namespace OpenRFS.Account

open Codec PackageState List

open Volume (FsStatus)

structure Files where
  path : Option Bytes
  temp : Option Bytes

/-! ### Reading -/

/-- The answers to `read_record`. A read is made at a position, for a number of bytes. -/
structure Reader where
  opened : FsStatus
  read : ℕ → ℕ → FsStatus × Bytes
  closed : FsStatus

/-- The loop of `read_record`. A pass that goes on has read a byte at least. -/
def readLoop (r : Reader) : ℕ → Bytes → FsStatus × Bytes
  | 0, record => (.ok, record)
  | passes + 1, record =>
    if record.length < recordBytes then
      let (status, bytes) := r.read record.length (recordBytes - record.length)
      if bytes = [] ∨ status ≠ .ok then (status, record ++ bytes)
      else readLoop r passes (record ++ bytes)
    else (.ok, record)

def readRecord (r : Reader) : Except AccountStatus Bytes :=
  if r.opened = .notFound then .error .notConfigured
  else if r.opened ≠ .ok then
    .error (if r.opened = .notMounted ∨ r.opened = .absent then .storageUnavailable else .io)
  else
    let (status, record) := readLoop r recordBytes []
    let (status, extra) :=
      if status = .ok ∧ record.length = recordBytes then r.read recordBytes 1 else (status, [])
    if status ≠ .ok ∨ r.closed ≠ .ok then .error .io
    else if record.length ≠ recordBytes ∨ extra ≠ [] then .error .storageCorrupt
    else .ok record

def loadRecord (r : Reader) : Except AccountStatus Bytes := do
  let record ← readRecord r
  if validateRecord record = .ok then .ok record else .error (validateRecord record)

def accountConfigured (r : Reader) : AccountStatus × Bool :=
  match loadRecord r with
  | .error .notConfigured => (.ok, false)
  | .error status => (status, false)
  | .ok _ => (.ok, true)

def accountAuthenticate (r : Reader) (username password : Bytes) : AccountStatus :=
  if usernameValid username = false ∨ passwordValid password = false then .authenticationFailed
  else
    match loadRecord r with
    | .error status => status
    | .ok record =>
      let name := slice record usernameOffset (record.getD 5 0).toNat
      match derivePassword (slice record 12 16) name password with
      | none => .io
      | some digest =>
        if nameAt username ≠ name ∨ digest.val ≠ slice record 60 32 then .authenticationFailed
        else .ok

def Reader.ofFile (file : Option Bytes) : Reader where
  opened := if file.isSome then .ok else .notFound
  read position n := (.ok, slice (file.getD []) position n)
  closed := .ok

/-! ### Writing -/

structure Answers where
  loaded : Reader
  random : Option Salt
  stat : FsStatus
  directory : Bool
  mkdir : FsStatus
  unlink : FsStatus
  create : FsStatus
  opened : FsStatus
  write : FsStatus
  written : Fin (recordBytes + 1)
  close : FsStatus
  sync : FsStatus
  rename : FsStatus
  syncAgain : FsStatus
  cleanup : FsStatus

section Status

variable (a : Answers)

def Answers.directoryStatus : FsStatus := if a.stat = .notFound then a.mkdir else a.stat

def Answers.openStatus : FsStatus := if a.create = .ok then a.opened else a.create

def Answers.count : ℕ := if a.openStatus = .ok then a.written else 0

def Answers.closeStatus : FsStatus :=
  let status := if a.openStatus = .ok then a.write else a.openStatus
  if a.openStatus = .ok ∧ a.close ≠ .ok ∧ status = .ok then .staleHandle else status

def Answers.syncStatus : FsStatus :=
  if a.closeStatus = .ok ∧ a.count = recordBytes then a.sync else a.closeStatus

def Answers.renameStatus : FsStatus := if a.syncStatus = .ok then a.rename else a.syncStatus

def Answers.finalStatus : FsStatus := if a.renameStatus = .ok then a.syncAgain else a.renameStatus

end Status

structure Trace where
  last : Files
  seen : List Files

def Files.unlinkTemp (f : Files) (status : FsStatus) : Files :=
  if status = .ok then { f with temp := none } else f

def persistRecord (a : Answers) (record : Bytes) (f : Files) : AccountStatus × Trace :=
  if a.stat = .ok ∧ a.directory = false then (.storageCorrupt, ⟨f, []⟩)
  else if a.directoryStatus ≠ .ok then
    (if a.directoryStatus = .notMounted ∨ a.directoryStatus = .absent ∨
        a.directoryStatus = .readOnly then .storageUnavailable else .io, ⟨f, []⟩)
  else if a.unlink ≠ .ok ∧ a.unlink ≠ .notFound then (.io, ⟨f, []⟩)
  else
    let f₁ := f.unlinkTemp a.unlink
    let f₂ := if a.create = .ok then { f₁ with temp := some [] } else f₁
    let f₃ := if a.openStatus = .ok then { f₂ with temp := some (record.take a.written) } else f₂
    let f₄ := if a.renameStatus = .ok then ⟨f₃.temp, none⟩ else f₃
    if a.finalStatus ≠ .ok ∨ a.count ≠ recordBytes then
      (.io, ⟨f₄.unlinkTemp a.cleanup, [f₄, f₃, f₂, f₁, f]⟩)
    else (.ok, ⟨f₄, [f₃, f₂, f₁, f]⟩)

def accountCreate (a : Answers) (username password : Bytes) (f : Files) : AccountStatus × Trace :=
  if usernameValid username = false then (.invalidUsername, ⟨f, []⟩)
  else if passwordValid password = false then (.invalidPassword, ⟨f, []⟩)
  else
    match loadRecord a.loaded with
    | .ok _ => (.alreadyConfigured, ⟨f, []⟩)
    | .error .notConfigured =>
      match a.random with
      | none => (.randomUnavailable, ⟨f, []⟩)
      | some salt =>
        match createRecord (nameAt username) password salt with
        | none => (.io, ⟨f, []⟩)
        | some record => persistRecord a record f
    | .error status => (status, ⟨f, []⟩)

/-! ### What is in place -/

def Complete (file : Option Bytes) : Prop :=
  ∃ record, file = some record ∧ record.length = recordBytes ∧ validateRecord record = .ok

/-- The record is replaced as a whole or not at all, and no corrupt record is reported that
was not reported before. -/
structure Atomic (f : Files) (result : AccountStatus × Trace) : Prop where
  replaced : ∀ g ∈ result.2.last :: result.2.seen, g.path = f.path ∨ Complete g.path
  stored : result.1 = .ok → Complete result.2.last.path
  configured : (accountConfigured (.ofFile result.2.last.path)).1 = .storageCorrupt →
    (accountConfigured (.ofFile f.path)).1 = .storageCorrupt
  authenticated : ∀ username password,
    accountAuthenticate (.ofFile result.2.last.path) username password = .storageCorrupt →
    accountAuthenticate (.ofFile f.path) username password = .storageCorrupt

structure Answers.Renames (a : Answers) : Prop where
  directory : ¬ (a.stat = .ok ∧ a.directory = false) ∧ a.directoryStatus = .ok
  unlinked : a.unlink = .ok ∨ a.unlink = .notFound
  renamed : a.renameStatus = .ok

variable {a : Answers} {f : Files} {record username password : Bytes}

theorem Complete.load {file : Option Bytes} (h : Complete file) :
    ∃ record, loadRecord (.ofFile file) = .ok record := by
  obtain ⟨record, rfl, hlength, hvalid⟩ := h
  have hslice : slice record 0 recordBytes = record := hlength ▸ slice_self record
  have hempty : slice record recordBytes 1 = [] := by
    rw [slice, ← hlength, drop_length, take_nil]
  have hne : record ≠ [] := fun h => by simp [h, recordBytes] at hlength
  have hloop : readLoop (.ofFile (some record)) (122 + 1 + 1) [] = (.ok, record) := by
    have hread : (Reader.ofFile (some record)).read 0 recordBytes = (.ok, record) := by
      simp only [Reader.ofFile, Option.getD_some, hslice]
    have hdone : readLoop (.ofFile (some record)) (122 + 1) record = (.ok, record) := by
      rw [readLoop, if_neg hlength.not_lt]
    rw [readLoop, if_pos (by decide), length_nil, Nat.sub_zero, hread]
    simpa [hne] using hdone
  refine ⟨record, bind_eq_ok.mpr ⟨record, ?_, by rw [if_pos hvalid]⟩⟩
  change readLoop _ recordBytes [] = _ at hloop
  simp only [readRecord, hloop]
  simp [Reader.ofFile, hlength, hempty]

theorem loadRecord_ne (r : Reader) : loadRecord r ≠ .error .ok := by
  intro h
  cases hread : readRecord r with
  | error status =>
    rw [loadRecord, hread] at h
    cases h
    simp only [readRecord] at hread
    split_ifs at hread <;> cases hread
  | ok record =>
    simp only [loadRecord, hread, bind, Except.bind] at h
    split_ifs at h with hvalid
    exact hvalid (Except.error.inj h)

theorem Atomic.of {result : AccountStatus × Trace}
    (replaced : ∀ g ∈ result.2.last :: result.2.seen, g.path = f.path ∨ Complete g.path)
    (stored : result.1 = .ok → Complete result.2.last.path) : Atomic f result := by
  rcases replaced _ mem_cons_self with heq | hcomplete
  · exact ⟨replaced, stored, fun h => heq ▸ h, fun _ _ h => heq ▸ h⟩
  · obtain ⟨record, hload⟩ := hcomplete.load
    refine ⟨replaced, stored, fun h => ?_, fun username password h => ?_⟩
    · rw [accountConfigured, hload] at h
      cases h
    · rw [accountAuthenticate, hload] at h
      split_ifs at h
      dsimp only at h
      generalize derivePassword _ _ _ = digest at h
      cases digest with
      | none => cases h
      | some digest =>
        dsimp only at h
        split_ifs at h

theorem openStatus_of_renameStatus (h : a.renameStatus = .ok) : a.openStatus = .ok := by
  by_contra hopen
  simp [Answers.renameStatus, Answers.syncStatus, Answers.closeStatus, hopen] at h

theorem Files.unlinkTemp_path (f : Files) (status : FsStatus) :
    (f.unlinkTemp status).path = f.path := by
  rw [unlinkTemp]
  split_ifs <;> rfl

theorem persistRecord_spec (a : Answers) (record : Bytes) (f : Files) :
    (∀ g ∈ (persistRecord a record f).2.last :: (persistRecord a record f).2.seen,
        g.path = f.path ∨ a.Renames ∧ g.path = some (record.take a.written)) ∧
      ((persistRecord a record f).1 = .ok → a.Renames ∧ a.written.val = recordBytes) ∧
      (a.Renames → (persistRecord a record f).2.last.path = some (record.take a.written)) := by
  simp only [persistRecord]
  by_cases hdirectory : a.stat = .ok ∧ a.directory = false
  · rw [if_pos hdirectory]
    exact ⟨by simp, nofun, fun h => absurd hdirectory h.directory.1⟩
  rw [if_neg hdirectory]
  by_cases hstatus : a.directoryStatus ≠ .ok
  · rw [if_pos hstatus]
    refine ⟨by simp, fun h => ?_, fun h => absurd h.directory.2 hstatus⟩
    split_ifs at h
  rw [if_neg hstatus]
  by_cases hunlink : a.unlink ≠ .ok ∧ a.unlink ≠ .notFound
  · rw [if_pos hunlink]
    exact ⟨by simp, nofun, fun h => absurd hunlink (by simpa [or_iff_not_imp_left] using h.unlinked)⟩
  rw [if_neg hunlink]
  have hunlinked : a.unlink = .ok ∨ a.unlink = .notFound := by
    simpa [or_iff_not_imp_left] using hunlink
  have hrenames : a.renameStatus = .ok → a.Renames := fun h =>
    ⟨⟨hdirectory, not_not.mp hstatus⟩, hunlinked, h⟩
  generalize h₁ : f.unlinkTemp a.unlink = f₁
  generalize h₂ : (if a.create = .ok then { f₁ with temp := some [] } else f₁) = f₂
  generalize h₃ : (if a.openStatus = .ok then { f₂ with temp := some (record.take a.written) }
    else f₂) = f₃
  generalize h₄ : (if a.renameStatus = .ok then (⟨f₃.temp, none⟩ : Files) else f₃) = f₄
  have hpath₁ : f₁.path = f.path := h₁ ▸ f.unlinkTemp_path _
  have hpath₂ : f₂.path = f.path := by rw [← h₂, ← hpath₁]; split_ifs <;> rfl
  have hpath₃ : f₃.path = f.path := by rw [← h₃, ← hpath₂]; split_ifs <;> rfl
  have hrenamed : a.renameStatus = .ok → f₄.path = some (record.take a.written) := fun h => by
    rw [← h₄, if_pos h, ← h₃, if_pos (openStatus_of_renameStatus h)]
  have hpath₄ : f₄.path = f.path ∨ a.Renames ∧ f₄.path = some (record.take a.written) := by
    by_cases h : a.renameStatus = .ok
    · exact .inr ⟨hrenames h, hrenamed h⟩
    · exact .inl (by rw [← h₄, if_neg h, hpath₃])
  by_cases hend : a.finalStatus ≠ .ok ∨ a.count ≠ recordBytes
  · rw [if_pos hend]
    refine ⟨?_, nofun, fun h => (f₄.unlinkTemp_path _).trans (hrenamed h.renamed)⟩
    simp [Files.unlinkTemp_path, hpath₁, hpath₂, hpath₃, hpath₄]
  · rw [if_neg hend]
    obtain ⟨hfinal, hcount⟩ := not_or.mp hend
    have hrename : a.renameStatus = .ok := by
      by_contra h
      simp [Answers.finalStatus, h] at hfinal
    have hwritten : a.count = a.written := if_pos (openStatus_of_renameStatus hrename)
    exact ⟨by simp [hpath₁, hpath₂, hpath₃, hpath₄],
      fun _ => ⟨hrenames hrename, hwritten.symm.trans (not_not.mp hcount)⟩,
      fun _ => hrenamed hrename⟩

/-- A record of which not all bytes were written takes the place of the file. -/
structure Torn (a : Answers) (username password : Bytes) (f : Files) : Prop where
  username_valid : usernameValid username = true
  password_valid : passwordValid password = true
  absent : loadRecord a.loaded = .error .notConfigured
  renames : a.Renames
  short : a.written.val ≠ recordBytes
  changed : ∃ salt record, a.random = some salt ∧
    createRecord (nameAt username) password salt = some record ∧
    f.path ≠ some (record.take a.written)

theorem Torn.not_atomic (h : Torn a username password f) :
    ¬ Atomic f (accountCreate a username password f) := by
  obtain ⟨salt, record, hsalt, hrecord, hchanged⟩ := h.changed
  have hlength := (createRecord_spec h.username_valid hrecord).1
  intro hatomic
  have hplace := hatomic.replaced _ mem_cons_self
  rw [accountCreate, if_neg (by simp [h.username_valid]), if_neg (by simp [h.password_valid]),
    h.absent] at hplace
  simp only [hsalt, hrecord] at hplace
  rw [(persistRecord_spec a record f).2.2 h.renames] at hplace
  rcases hplace with heq | ⟨torn, heq, htorn, -⟩
  · exact hchanged heq.symm
  · cases heq
    have hwritten := a.written.isLt
    have hshort := h.short
    rw [length_take, hlength] at htorn
    omega

/-- The record is replaced atomically unless a short write is renamed. -/
theorem accountCreate_atomic_iff (a : Answers) (username password : Bytes) (f : Files) :
    Atomic f (accountCreate a username password f) ↔ ¬ Torn a username password f := by
  refine ⟨fun h htorn => htorn.not_atomic h, fun hnot => ?_⟩
  have hstays : ∀ status : AccountStatus, status ≠ .ok → Atomic f (status, ⟨f, []⟩) :=
    fun status hne => .of (fun g hg => .inl (by rw [mem_singleton.mp hg]))
      fun h => absurd h hne
  rw [accountCreate]
  split_ifs with husername hpassword
  · exact hstays _ nofun
  · exact hstays _ nofun
  cases hload : loadRecord a.loaded with
  | ok _ => exact hstays _ nofun
  | error status =>
    cases status with
    | ok => exact absurd hload (loadRecord_ne _)
    | notConfigured =>
      simp only [Bool.not_eq_false] at husername hpassword
      cases hsalt : a.random with
      | none => exact hstays _ nofun
      | some salt =>
        cases hrecord : createRecord (nameAt username) password salt with
        | none =>
          simp only [hrecord]
          exact hstays _ nofun
        | some record =>
          obtain ⟨hlength, hvalid⟩ := createRecord_spec husername hrecord
          obtain ⟨hplace, hok, hlast⟩ := persistRecord_spec a record f
          have hcomplete : a.written.val = recordBytes →
              Complete (some (record.take a.written)) := fun h =>
            ⟨record, by rw [h, ← hlength, take_length], hlength, hvalid⟩
          simp only [hrecord]
          refine .of (fun g hg => ?_) fun h => ?_
          · rcases hplace g hg with heq | ⟨hrenames, heq⟩
            · exact .inl heq
            by_cases hwritten : a.written.val = recordBytes
            · exact .inr (heq ▸ hcomplete hwritten)
            · refine .inl (heq.trans ?_)
              by_contra hchanged
              exact hnot ⟨husername, hpassword, hload, hrenames, hwritten, salt, record, hsalt,
                hrecord, Ne.symm hchanged⟩
          · obtain ⟨hrenames, hwritten⟩ := hok h
            rw [hlast hrenames]
            exact hcomplete hwritten
    | _ => exact hstays _ nofun

def shortWrite : Answers :=
  ⟨.ofFile none, some ⟨zeros 16, rfl⟩, .ok, true, .ok, .notFound, .ok, .ok, .ok, 5, .ok, .ok, .ok,
    .ok, .notFound⟩

theorem accountCreate_shortWrite_not_atomic : ¬ Atomic ⟨none, none⟩ (accountCreate shortWrite
    (asciiText ['a', 'l', 'i', 'c', 'e']) (asciiText ['p', 'a', 's', 's', 'w', 'o', 'r', 'd'])
    ⟨none, none⟩) := by
  obtain ⟨record, hrecord⟩ := @createRecord_isSome ⟨zeros 16, rfl⟩
    (nameAt (asciiText ['a', 'l', 'i', 'c', 'e']))
    (asciiText ['p', 'a', 's', 's', 'w', 'o', 'r', 'd']) (by decide) (by decide)
  exact Torn.not_atomic ⟨by decide, by decide, rfl, ⟨by decide, .inr rfl, by decide⟩, by decide,
    _, record, rfl, hrecord, nofun⟩

end OpenRFS.Account
