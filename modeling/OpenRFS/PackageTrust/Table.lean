import OpenRFS.Codec.Checked
import OpenRFS.PackageManager.Repository

/-!
# The trust table

The platform provides a table of public keys, each trusted or revoked, in the order of
their identifiers. As the identifier of a key is its hash and the identifiers ascend, no
key stands in the table twice. A signature is accepted for a trusted key of the table
only. The two functions of the signature scheme are not looked into.
-/

namespace OpenRFS.PackageTrust

open Codec PackageState List

open PackageManager (KeyStatus Trust signatureBytes)

inductive TrustStatus
  | ok | nullArgument | bound | length | magic | header | reserved | digest | table | order
  | keyId | publicKey
  deriving DecidableEq

def maxKeys : ℕ := 64
def tableHeaderBytes : ℕ := 128
def tableRecordBytes : ℕ := 96
def tableMaxBytes : ℕ := tableHeaderBytes + maxKeys * tableRecordBytes

def trustTableMagic : Bytes := asciiText ['R', 'S', 'D', 'K', 'E', 'Y', '0', '1']

def fieldPrime : Bytes := 0xed :: (List.replicate 30 0xff ++ [0x7f])

def lowOrder : List ℕ :=
  let a := 0x05fc536d880238b13933c6d305acdfd5f098eff289f4c345b027b2c28f95e826
  let b := 0x7a03ac9277fdc74ec6cc392cfa53202a0f67100d760b3cba4fd84d3d706a17c7
  [1, a, 0, b, 2 ^ 255 - 20, b + 2 ^ 255, 2 ^ 255, a + 2 ^ 255, 2 ^ 255 + 1, 2 ^ 256 - 20]

def invalidPoints : List Bytes := lowOrder.map (toLE 32)

/-- The comparison with the prime starts at the last byte, without its highest bit. -/
def canonicalNonSmallOrderPoint (point : Bytes) : Bool :=
  let y := point.take 31 ++ [point.getD 31 0 &&& 0x7f]
  compareFields y.reverse fieldPrime.reverse == .lt && decide (point ∉ invalidPoints)

structure Key where
  keyId : Bytes
  publicKey : Bytes
  status : KeyStatus
  deriving DecidableEq

/-- The loop of `package_trust_open`, with the identifier of the key before. -/
def trustOpenFrom (previous : Option Bytes) : List Key → Except TrustStatus Unit
  | [] => .ok ()
  | key :: keys =>
    if key.status ≠ .trusted ∧ key.status ≠ .revoked then .error .publicKey
    else if (sha256 key.publicKey).toOption.map (·.val) ≠ some key.keyId then .error .keyId
    else if canonicalNonSmallOrderPoint key.publicKey = false then .error .publicKey
    else if previous.any (compareFields · key.keyId != .lt) then .error .order
    else trustOpenFrom (some key.keyId) keys

def trustOpen (keys : List Key) : Except TrustStatus Unit :=
  if maxKeys < keys.length then .error .bound else trustOpenFrom none keys

def keyAt (bytes : Bytes) (index : ℕ) : Except TrustStatus Key :=
  let record := slice bytes (tableHeaderBytes + index * tableRecordBytes) tableRecordBytes
  let encoded := readU16 record 64
  if isZero (record.drop 66) = false then .error .reserved
  else if encoded ≠ 1 ∧ encoded ≠ 2 then .error .table
  else .ok ⟨slice record 0 32, slice record 32 32, if encoded = 1 then .trusted else .revoked⟩

def trustTableOpen (bytes : Bytes) : Except TrustStatus (List Key) :=
  let keyCount := (readU32 bytes 24).toNat
  if bytes.length < tableHeaderBytes ∨ tableMaxBytes < bytes.length then .error .length
  else if bytes.take 8 ≠ trustTableMagic then .error .magic
  else if readU16 bytes 8 ≠ 1 ∨ (readU16 bytes 10).toNat ≠ tableHeaderBytes ∨
      readU32 bytes 12 ≠ 0 ∨ (readU64 bytes 16).toNat ≠ bytes.length ∨
      (readU32 bytes 28).toNat ≠ tableRecordBytes then .error .header
  else if maxKeys < keyCount then .error .bound
  else if keyCount * tableRecordBytes ≠ bytes.length - tableHeaderBytes then .error .table
  else if isZero (slice bytes 64 (tableHeaderBytes - 64)) = false then .error .reserved
  else if (sha256 (bytes.drop tableHeaderBytes)).toOption.map (·.val) ≠ some (slice bytes 32 32) then
    .error .digest
  else do
    let keys ← (List.range keyCount).mapM (keyAt bytes)
    trustOpen keys
    .ok keys

def trustLookup (keys : List Key) (keyId : Bytes) : KeyStatus × Bytes :=
  match keys.find? (·.keyId == keyId) with
  | some key => (key.status, key.publicKey)
  | none => (.unknown, [])

section Verify

variable (sha512 : Bytes → Bytes) (checkEquation : Bytes → Bytes → Bytes → Bool)

/-- `package_trust_verify`. What is hashed is given to the hash in five parts. -/
def trustVerify (keys : List Key) (publicKey signature message : Bytes)
    (zeroOffset zeroBytes : ℕ) : Bool :=
  if keys = [] ∨ maxKeys < keys.length ∨ zeroBytes ≠ signatureBytes ∨
      message.length < zeroOffset ∨ message.length - zeroOffset < zeroBytes ∨
      canonicalNonSmallOrderPoint publicKey = false ∨
      canonicalNonSmallOrderPoint (signature.take 32) = false then false
  else if keys.any (fun key => key.status == .trusted && key.publicKey == publicKey) = false then
    false
  else
    checkEquation signature publicKey (sha512 [signature.take 32, publicKey,
      message.take zeroOffset, zeros zeroBytes, message.drop (zeroOffset + zeroBytes)].flatten)

def trustManager (keys : List Key) : Trust where
  lookup := trustLookup keys
  verify := trustVerify sha512 checkEquation keys

end Verify

/-! ### Points -/

theorem concat_lt_concat {xs ys : Bytes} (h : xs.length = ys.length) {a b : UInt8} :
    xs ++ [a] < ys ++ [b] ↔ xs < ys ∨ xs = ys ∧ a < b := by
  induction xs generalizing ys with
  | nil =>
    obtain rfl := length_eq_zero_iff.mp h.symm
    simp [cons_lt_cons_iff]
  | cons x xs ih =>
    cases ys with
    | nil => cases h
    | cons y ys =>
      rw [cons_append, cons_append, cons_lt_cons_iff, cons_lt_cons_iff,
        ih (Nat.succ_inj.mp h), List.cons.injEq]
      tauto

theorem reverse_lt_reverse {l r : Bytes} (h : l.length = r.length) :
    l.reverse < r.reverse ↔ ofLE l < ofLE r := by
  induction l generalizing r with
  | nil =>
    obtain rfl := length_eq_zero_iff.mp h.symm
    simp
  | cons a l ih =>
    cases r with
    | nil => cases h
    | cons b r =>
      have hlength : l.length = r.length := Nat.succ_inj.mp h
      have heq : l = r ↔ ofLE l = ofLE r := by
        refine ⟨congrArg ofLE, fun h => ?_⟩
        rw [← toLE_ofLE l, ← toLE_ofLE r, hlength, h]
      rw [reverse_cons, reverse_cons, concat_lt_concat (by simpa using hlength),
        ih hlength, reverse_inj, heq, UInt8.lt_iff_toNat_lt, ofLE, ofLE]
      have ha := a.toNat_lt
      have hb := b.toNat_lt
      omega

theorem ofLE_concat (l : Bytes) (b : UInt8) : ofLE (l ++ [b]) = ofLE l + 256 ^ l.length * b.toNat := by
  induction l with
  | nil => simp [ofLE]
  | cons a l ih =>
    rw [cons_append, ofLE, ih, ofLE, length_cons, pow_succ]
    ring

/-- The encoding of a point is canonical: the number without the sign is below the prime. -/
def Canonical (point : Bytes) : Prop := ofLE point % 2 ^ 255 < 2 ^ 255 - 19

theorem canonical_of_point {point : Bytes} (hlength : point.length = 32)
    (h : canonicalNonSmallOrderPoint point) : Canonical point ∧ point ∉ invalidPoints := by
  obtain ⟨hlt, hnot⟩ := Bool.and_eq_true_iff.mp h
  refine ⟨?_, of_decide_eq_true hnot⟩
  rcases eq_nil_or_concat' point with rfl | ⟨front, b, rfl⟩
  · cases hlength
  have hfront : front.length = 31 := by simpa using hlength
  have hget : (front ++ [b]).getD 31 0 = b := by simp [← hfront]
  have hmask : (b &&& 0x7f).toNat = b.toNat % 2 ^ 7 :=
    (UInt8.toNat_and _ _).trans (Nat.and_two_pow_sub_one_eq_mod _ 7)
  have hprime : ofLE fieldPrime = 2 ^ 255 - 19 := by decide
  rw [take_left' hfront, hget] at hlt
  have hnumber := (reverse_lt_reverse (by simp [hfront, fieldPrime])).mp
    (compareFields_eq_lt.mp (beq_iff_eq.mp hlt))
  rw [ofLE_concat, hmask, hprime, hfront] at hnumber
  rw [Canonical, ofLE_concat, hfront]
  have hlow := ofLE_lt front
  rw [hfront] at hlow
  have hb := b.toNat_lt
  omega

/-! ### Keys -/

structure Admitted (keys : List Key) : Prop where
  identified : ∀ key ∈ keys, (sha256 key.publicKey).toOption.map (·.val) = some key.keyId
  ascending : (keys.map Key.keyId).IsChain (· < ·)

theorem trustOpenFrom_eq_ok {previous : Option Bytes} {keys : List Key}
    (h : trustOpenFrom previous keys = .ok ()) :
    (∀ key ∈ keys, (sha256 key.publicKey).toOption.map (·.val) = some key.keyId) ∧
      (previous.toList ++ keys.map Key.keyId).IsChain (· < ·) := by
  induction keys generalizing previous with
  | nil => exact ⟨nofun, by cases previous <;> simp⟩
  | cons key keys ih =>
    simp only [trustOpenFrom, ite_error_eq_ok] at h
    obtain ⟨-, hid, -, hprevious, h⟩ := h
    obtain ⟨hall, hchain⟩ := ih h
    refine ⟨forall_mem_cons.mpr ⟨not_not.mp hid, hall⟩,
      isChain_toList_cons.mpr ⟨fun p hp => compareFields_eq_lt.mp ?_, hchain⟩⟩
    obtain rfl := Option.mem_def.mp hp
    simpa using hprevious

variable {bytes : Bytes} {keys : List Key}

theorem admitted_of_table (h : trustTableOpen bytes = .ok keys) : Admitted keys := by
  simp only [trustTableOpen, ite_error_eq_ok] at h
  obtain ⟨-, -, -, -, -, -, -, h⟩ := h
  obtain ⟨keys, -, h⟩ := bind_eq_ok.mp h
  obtain ⟨_, hopen, h⟩ := bind_eq_ok.mp h
  cases h
  rw [trustOpen, ite_error_eq_ok] at hopen
  obtain ⟨hidentified, hchain⟩ := trustOpenFrom_eq_ok hopen.2
  exact ⟨hidentified, hchain⟩

namespace Admitted

variable (h : Admitted keys)
include h

theorem nodup_keyId : (keys.map Key.keyId).Nodup := by
  refine (isChain_iff_pairwise.mp h.ascending).imp ?_
  rintro a _ hlt rfl
  exact List.lt_irrefl a hlt

theorem eq_of_publicKey {key key' : Key} (hkey : key ∈ keys)
    (hkey' : key' ∈ keys) (heq : key.publicKey = key'.publicKey) : key = key' := by
  refine inj_on_of_nodup_map h.nodup_keyId hkey hkey' (Option.some.inj ?_)
  rw [← h.identified key hkey, heq, h.identified key' hkey']

theorem count_publicKey {key : Key} (hkey : key ∈ keys) :
    (keys.map Key.publicKey).count key.publicKey = 1 := by
  refine count_eq_one_of_mem ?_ (mem_map_of_mem hkey)
  exact h.nodup_keyId.of_map.map_on fun _ hx _ hy heq => h.eq_of_publicKey hx hy heq

theorem lookup_eq {key : Key} (hkey : key ∈ keys)
    (hlength : key.publicKey.length = 32) :
    trustLookup keys (sha256Of key.publicKey).val = (key.status, key.publicKey) := by
  have hid : (sha256Of key.publicKey).val = key.keyId := by
    have := h.identified key hkey
    rw [sha256Of_eq (by rw [hlength]; decide)] at this
    exact Option.some.inj this
  obtain ⟨found, hfound⟩ := Option.isSome_iff_exists.mp ((find?_isSome
    (p := (·.keyId == (sha256Of key.publicKey).val))).mpr ⟨key, hkey, beq_iff_eq.mpr hid.symm⟩)
  have hmatch := find?_some hfound
  have hsame : found = key := inj_on_of_nodup_map h.nodup_keyId
    (mem_of_find?_eq_some hfound) hkey (by simpa [hid] using hmatch)
  rw [trustLookup, hfound, hsame]

omit h

end Admitted

theorem trustVerify_congr (sha512 : Bytes → Bytes) (checkEquation : Bytes → Bytes → Bytes → Bool)
    (keys : List Key) (publicKey signature : Bytes) {message message' : Bytes} {zeroOffset : ℕ}
    (hlength : message.length = message'.length)
    (hsame : ∀ i, i < zeroOffset ∨ zeroOffset + 64 ≤ i → message[i]? = message'[i]?) :
    trustVerify sha512 checkEquation keys publicKey signature message zeroOffset 64 =
      trustVerify sha512 checkEquation keys publicKey signature message' zeroOffset 64 := by
  have htake : message.take zeroOffset = message'.take zeroOffset := by
    refine ext_getElem? fun i => ?_
    rw [getElem?_take, getElem?_take]
    split_ifs with hi
    · exact hsame i (.inl hi)
    · rfl
  have hdrop : message.drop (zeroOffset + 64) = message'.drop (zeroOffset + 64) := by
    refine ext_getElem? fun i => ?_
    rw [getElem?_drop, getElem?_drop]
    exact hsame _ (.inr (Nat.le_add_right _ _))
  rw [trustVerify, trustVerify, hlength, htake, hdrop]

/-- The decisions follow the table. -/
theorem trustManager_spec (sha512 : Bytes → Bytes) (checkEquation : Bytes → Bytes → Bytes → Bool)
    (h : trustTableOpen bytes = .ok keys) :
    let trust := trustManager sha512 checkEquation keys
    (∀ publicKey signature message zeroOffset zeroBytes, publicKey.length = 32 →
        signature.length = signatureBytes →
        trust.verify publicKey signature message zeroOffset zeroBytes = true →
        (keys.map Key.publicKey).count publicKey = 1 ∧
          (∃ key ∈ keys, key.publicKey = publicKey ∧ key.status = .trusted) ∧
          trust.lookup (sha256Of publicKey).val = (.trusted, publicKey) ∧
          (Canonical publicKey ∧ publicKey ∉ invalidPoints) ∧
          (Canonical (signature.take 32) ∧ signature.take 32 ∉ invalidPoints) ∧
          checkEquation signature publicKey (sha512 (signature.take 32 ++ publicKey ++
            message.take zeroOffset ++ zeros 64 ++ message.drop (zeroOffset + 64))) = true) ∧
      (∀ key ∈ keys, ∀ key' ∈ keys, key.publicKey = key'.publicKey → key.status = key'.status) ∧
      ∀ publicKey signature (message message' : Bytes) zeroOffset,
        message.length = message'.length →
        (∀ i, i < zeroOffset ∨ zeroOffset + 64 ≤ i → message[i]? = message'[i]?) →
        trust.verify publicKey signature message zeroOffset 64 =
          trust.verify publicKey signature message' zeroOffset 64 := by
  have hkeys := admitted_of_table h
  refine ⟨fun publicKey signature message zeroOffset zeroBytes hpublic hsignature hverify => ?_,
    fun key hkey key' hkey' heq => by rw [hkeys.eq_of_publicKey hkey hkey' heq],
    fun publicKey signature _ _ _ => trustVerify_congr sha512 checkEquation keys publicKey signature⟩
  simp only [trustManager, trustVerify] at hverify
  split_ifs at hverify with hbad htrusted
  simp only [not_or, not_not, Bool.not_eq_false] at hbad
  obtain ⟨-, -, rfl, -, -, hcanonical, hpoint⟩ := hbad
  obtain ⟨key, hkey, hmatch⟩ := any_eq_true.mp (Bool.eq_true_of_not_eq_false htrusted)
  simp only [Bool.and_eq_true, beq_iff_eq] at hmatch
  obtain ⟨hstatus, rfl⟩ := hmatch
  exact ⟨hkeys.count_publicKey hkey, ⟨key, hkey, rfl, hstatus⟩,
    hstatus ▸ hkeys.lookup_eq hkey hpublic, canonical_of_point hpublic hcanonical,
    canonical_of_point (by simp [hsignature, signatureBytes]) hpoint,
    by simpa [signatureBytes] using hverify⟩

def sampleRecord (point : ℕ) (status : UInt16) : Bytes :=
  (sha256Of (toLE 32 point)).val ++ toLE 32 point ++ writeU16 status ++ zeros 30

def sampleTable : Bytes :=
  let records := sampleRecord 2 1 ++ sampleRecord 3 2
  trustTableMagic ++ writeU16 1 ++ writeU16 128 ++ zeros 4 ++ writeU64 320 ++ writeU32 2 ++
    writeU32 96 ++ (sha256Of records).val ++ zeros 64 ++ records

def sampleMessage (signature : Bytes) : Bytes := [1, 2, 3] ++ signature ++ [4, 5]

/-- Only the message with zeros in the place of the signature satisfies the equation. -/
def sampleEquation (signature publicKey digest : Bytes) : Bool :=
  digest == signature.take 32 ++ publicKey ++ sampleMessage (zeros 64)

set_option maxRecDepth 8000 in
theorem trustManager_spec_sample : ∃ keys, trustTableOpen sampleTable = .ok keys ∧
    keys.map Key.status = [.trusted, .revoked] ∧
    (keys.map Key.publicKey).count (toLE 32 2) = 1 ∧
    trustVerify id sampleEquation keys (toLE 32 2) (toLE 64 2) (sampleMessage (zeros 64)) 3 64 =
      true ∧
    trustVerify id sampleEquation keys (toLE 32 3) (toLE 64 2) (sampleMessage (toLE 64 2)) 3 64 =
      false := by
  have h : (trustTableOpen sampleTable).toOption.any (fun keys =>
      keys.map Key.status == [.trusted, .revoked] &&
      trustVerify id sampleEquation keys (toLE 32 2) (toLE 64 2) (sampleMessage (toLE 64 2)) 3 64 &&
      !trustVerify id sampleEquation keys (toLE 32 3) (toLE 64 2) (sampleMessage (toLE 64 2)) 3 64) =
        true := by
    decide +kernel
  obtain ⟨keys, hkeys, hsample⟩ := (Option.any_eq_true _ _).mp h
  simp only [Bool.and_eq_true, beq_iff_eq, Bool.not_eq_true'] at hsample
  obtain ⟨⟨hstatus, hverify⟩, hrevoked⟩ := hsample
  have hopen := eq_ok_of_toOption hkeys
  obtain ⟨haccepted, -, hwindow⟩ := trustManager_spec id sampleEquation hopen
  refine ⟨keys, hopen, hstatus, (haccepted _ _ _ _ _ (length_toLE _ _) (length_toLE _ _) hverify).1,
    ?_, hrevoked⟩
  rw [← hverify]
  refine hwindow _ _ _ _ _ rfl fun i hi => ?_
  simp only [sampleMessage, getElem?_append, length_append, length_toLE, zeros, length_replicate,
    length_cons, length_nil]
  split_ifs with hbehind hbefore
  · rfl
  · omega
  · rfl

end OpenRFS.PackageTrust
