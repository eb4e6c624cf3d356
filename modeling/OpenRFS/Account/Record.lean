import OpenRFS.PackageState.Text

/-!
# The account record

The record at `RSD/LOGIN.DAT` holds the name, a salt, the password digest and a checksum
over what stands before it. A record that `account_create` composes for a valid name is
one that `validate_record` accepts.
-/

namespace OpenRFS.Account

open Codec PackageState List

inductive AccountStatus
  | ok | nullArgument | invalidUsername | invalidPassword | alreadyConfigured | notConfigured
  | storageUnavailable | storageCorrupt | randomUnavailable | io | authenticationFailed
  deriving DecidableEq

def usernameBytes : ℕ := 32
def recordBytes : ℕ := 124
def checksumOffset : ℕ := 92
def usernameOffset : ℕ := 28
def kdfRounds : UInt32 := 32768

def accountMagic : Bytes := asciiText ['O', 'G', 'A', '1']

def accountDomain : Bytes := asciiText ['R', 'S', 'D', ' ', 'a', 'c', 'c', 'o', 'u', 'n', 't', ' ',
  'p', 'a', 's', 's', 'w', 'o', 'r', 'd', ' ', 'v', '1']

/-- The bytes that `text_length` counts: those before the terminator, up to the capacity. -/
def nameAt (text : Bytes) : Bytes := (text.take usernameBytes).takeWhile (· != 0)

def usernameValid (text : Bytes) : Bool :=
  let name := nameAt text
  decide (name.length ≠ 0) && decide (name.length < usernameBytes) &&
    (name.all fun c => asciiAlphanumeric c || c == ascii '-' || c == ascii '_') &&
    name.head?.all asciiAlphanumeric

def passwordValid (password : Bytes) : Bool :=
  decide (8 ≤ password.length) && decide (password.length ≤ 64) &&
    password.all fun c => decide (0x20 ≤ c) && decide (c ≤ 0x7e)

section Digest

variable (salt name password : Bytes)

/-- The parts are hashed one after the other, the previous digest from the second round on. -/
def digestParts (previous : Option Digest) : Option Digest :=
  (sha256 (accountDomain ++ salt ++ name ++ (previous.elim [] (·.val)) ++ password)).toOption

def deriveRounds : ℕ → Digest → Option Digest
  | 0, digest => some digest
  | rounds + 1, digest =>
    (digestParts salt name password (some digest)).bind (deriveRounds rounds)

/-- There is no digest if hashing fails, which is reported as `ACCOUNT_STATUS_IO`. -/
def derivePassword : Option Digest :=
  (digestParts salt name password none).bind
    (deriveRounds salt name password (kdfRounds.toNat - 1))

end Digest

abbrev Salt := { b : Bytes // b.length = 16 }

def recordHead (name : Bytes) (salt : Salt) : Bytes :=
  accountMagic ++ ([1, UInt8.ofNat name.length, 0, 0] ++ (writeU32 kdfRounds ++ salt.val))

def recordBody (name : Bytes) (salt : Salt) (digest : Digest) : Bytes :=
  recordHead name salt ++ (pad usernameBytes name ++ digest.val)

def createRecord (name password : Bytes) (salt : Salt) : Option Bytes := do
  let digest ← derivePassword salt.val name password
  let checksum ← (sha256 (recordBody name salt digest)).toOption
  some (recordBody name salt digest ++ checksum.val)

def validateRecord (record : Bytes) : AccountStatus :=
  let n := (record.getD 5 0).toNat
  if record.take 4 ≠ accountMagic ∨ record.getD 4 0 ≠ 1 ∨ n = 0 ∨ usernameBytes ≤ n ∨
      record.getD 6 0 ≠ 0 ∨ record.getD 7 0 ≠ 0 ∨ readU32 record 8 ≠ kdfRounds ∨
      record.getD (usernameOffset + n) 0 ≠ 0 then .storageCorrupt
  else
    match sha256 (record.take checksumOffset) with
    | .error _ => .storageCorrupt
    | .ok checksum =>
      if checksum.val ≠ slice record checksumOffset 32 then .storageCorrupt
      else if usernameValid (record.drop usernameOffset) then .ok
      else .storageCorrupt

/-! ### A composed record is accepted -/

variable {name password : Bytes} {salt : Salt} {digest : Digest}

theorem length_recordHead : (recordHead name salt).length = usernameOffset := by
  simp only [recordHead, length_append, salt.property, length_writeU32]
  rfl

theorem length_recordBody (h : name.length ≤ usernameBytes) :
    (recordBody name salt digest).length = checksumOffset := by
  rw [recordBody, length_append, length_append, length_recordHead, length_pad h, digest.property]
  rfl

theorem nameAt_pad (hlength : name.length < usernameBytes) (hfree : NulFree name) (rest : Bytes) :
    nameAt (pad usernameBytes name ++ rest) = name := by
  have hpad := length_pad hlength.le
  rw [nameAt, take_append_of_le_length hpad.ge, take_of_length_le hpad.le, takeWhile_pad,
    takeWhile_of_nulFree hfree]

theorem nulFree_nameAt (text : Bytes) : NulFree (nameAt text) :=
  fun h => by simpa using mem_takeWhile_imp h

theorem nameAt_nameAt (text : Bytes) : nameAt (nameAt text) = nameAt text := by
  have hlength : (nameAt text).length ≤ usernameBytes :=
    (takeWhile_sublist _).length_le.trans (length_take_le _ _)
  rw [nameAt, take_of_length_le hlength, takeWhile_of_nulFree (nulFree_nameAt text)]

theorem validateRecord_append (hvalid : usernameValid name) (hname : nameAt name = name) :
    validateRecord (recordBody name salt digest ++
      (sha256Of (recordBody name salt digest)).val) = .ok := by
  simp only [usernameValid, hname, Bool.and_eq_true, decide_eq_true_eq] at hvalid
  obtain ⟨⟨⟨hne, hlt⟩, hall⟩, hhead⟩ := hvalid
  have hfree : NulFree name := hname ▸ nulFree_nameAt name
  have hbody : (recordBody name salt digest).length = checksumOffset := length_recordBody hlt.le
  have hcount : (UInt8.ofNat name.length).toNat = name.length := by
    exact Nat.mod_eq_of_lt (hlt.trans (by decide))
  generalize hsum : sha256Of (recordBody name salt digest) = sum
  generalize hrecord : recordBody name salt digest ++ sum.val = record
  obtain ⟨rest, hrest⟩ : ∃ rest, record = accountMagic ++ ([1, UInt8.ofNat name.length, 0, 0] ++
      (writeU32 kdfRounds ++ rest)) := by
    refine ⟨salt.val ++ (pad usernameBytes name ++ (digest.val ++ sum.val)), ?_⟩
    simp only [← hrecord, recordBody, recordHead, append_assoc]
  have hdrop : record.drop usernameOffset = pad usernameBytes name ++ (digest.val ++ sum.val) := by
    rw [← hrecord, recordBody, append_assoc, append_assoc]
    exact drop_left' length_recordHead
  have hterminator : record.getD (usernameOffset + name.length) 0 = 0 := by
    rw [getD_eq_getElem?_getD, ← getElem?_drop, hdrop, pad, append_assoc,
      getElem?_append_right le_rfl, Nat.sub_self]
    obtain ⟨room, hroom⟩ : ∃ room, usernameBytes - name.length = room + 1 :=
      ⟨usernameBytes - name.length - 1, by omega⟩
    rw [hroom]
    rfl
  have htake : record.take checksumOffset = recordBody name salt digest := by
    rw [← hrecord, ← hbody, take_left]
  have hslice : slice record checksumOffset 32 = sum.val := by
    rw [slice, ← hrecord, ← hbody, drop_left, take_of_length_le sum.property.le]
  have hkdf : readU32 record 8 = kdfRounds := by
    refine readU32_of_slice ?_
    rw [hrest]
    rfl
  have hn : record.getD 5 0 = UInt8.ofNat name.length := by rw [hrest]; rfl
  rw [validateRecord, hn, hcount, htake, sha256Of_eq (by rw [hbody]; decide), hsum, hdrop]
  dsimp only
  rw [if_neg, if_neg (not_not.mpr hslice.symm), if_pos]
  · simp only [usernameValid, nameAt_pad hlt hfree]
    simp [hne, hlt, hall, hhead]
  · rw [hterminator, hkdf, hrest]
    simp [accountMagic, asciiText, hne, hlt]

theorem length_nameAt_lt {text : Bytes} (h : usernameValid text) :
    (nameAt text).length < usernameBytes := by
  simp only [usernameValid, Bool.and_eq_true, decide_eq_true_eq] at h
  exact h.1.1.2

theorem createRecord_spec {text record : Bytes} (hvalid : usernameValid text)
    (h : createRecord (nameAt text) password salt = some record) :
    record.length = recordBytes ∧ validateRecord record = .ok := by
  have hvalid' : usernameValid (nameAt text) := by
    rw [usernameValid, nameAt_nameAt]
    exact hvalid
  obtain ⟨digest, -, h⟩ := Option.bind_eq_some_iff.mp h
  have hbody : (recordBody (nameAt text) salt digest).length = checksumOffset :=
    length_recordBody (length_nameAt_lt hvalid).le
  rw [sha256Of_eq (by rw [hbody]; decide)] at h
  cases h
  refine ⟨?_, validateRecord_append hvalid' (nameAt_nameAt text)⟩
  rw [length_append, hbody, (sha256Of _).property]
  rfl

theorem digestParts_isSome {salt name password : Bytes} (previous : Option Digest)
    (h : salt.length + name.length + password.length ≤ 1000) :
    ∃ digest, digestParts salt name password previous = some digest := by
  have hprevious : (previous.elim [] (·.val)).length ≤ 32 := by
    cases previous with
    | none => exact Nat.zero_le _
    | some digest => exact digest.property.le
  have hdomain : accountDomain.length = 23 := rfl
  have hmax : 2000 ≤ Sha256.maxBytes := by decide
  rw [digestParts, sha256Of_eq (by simp only [length_append]; omega)]
  exact ⟨_, rfl⟩

theorem deriveRounds_isSome {salt name password : Bytes}
    (h : salt.length + name.length + password.length ≤ 1000) (rounds : ℕ) (digest : Digest) :
    ∃ digest', deriveRounds salt name password rounds digest = some digest' := by
  induction rounds generalizing digest with
  | zero => exact ⟨digest, rfl⟩
  | succ rounds ih =>
    obtain ⟨next, hnext⟩ := digestParts_isSome (some digest) h
    rw [deriveRounds, hnext]
    exact ih next

theorem createRecord_isSome (salt : Salt) {name password : Bytes}
    (hname : name.length ≤ usernameBytes) (hpassword : password.length ≤ 64) :
    ∃ record, createRecord name password salt = some record := by
  have hsum : salt.val.length + name.length + password.length ≤ 1000 := by
    simp only [usernameBytes] at hname
    omega
  obtain ⟨first, hfirst⟩ := digestParts_isSome none hsum
  obtain ⟨digest, hderive⟩ := deriveRounds_isSome hsum (kdfRounds.toNat - 1) first
  have hchecksum : sha256 (recordBody name salt digest) = .ok _ := sha256Of_eq (by
    rw [length_recordBody hname]
    decide)
  have hdigest : derivePassword salt.val name password = some digest := by
    rw [derivePassword, hfirst, Option.bind_some, hderive]
  simp [createRecord, hdigest, hchecksum, Except.toOption]

end OpenRFS.Account
