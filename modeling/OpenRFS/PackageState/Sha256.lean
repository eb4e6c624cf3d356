import OpenRFS.Codec.LittleEndian

/-!
# The SHA-256 contexts of the package state

`package_state_sha256_initialize`, `_update` and `_finish` hash a byte string
that arrives in pieces: the context keeps the eight state words, the number of
bytes seen, and the bytes that do not fill a block yet. That fewer than 64
bytes are pending is an invariant of every context, and is a field of it.

The rest of the development never looks inside the compression function. What
it uses is that a digest has 32 bytes: `sha256Of_eq` is the digest of a string
hashed in one go.
-/

namespace OpenRFS.PackageState

open Codec

/-- The result codes of the package-state core, in the order of the source. -/
inductive Status
  | ok | nullArgument | length | magic | header | reserved | overflow | digest
  | text | architecture | table | package | dependency | file | authority
  | journal | mismatch | incomplete | sequence
  deriving DecidableEq, Repr

abbrev Digest := { b : Bytes // b.length = 32 }

namespace Sha256

structure Words where
  a : UInt32
  b : UInt32
  c : UInt32
  d : UInt32
  e : UInt32
  f : UInt32
  g : UInt32
  h : UInt32
  deriving DecidableEq, Repr

def initial : Words :=
  ⟨0x6a09e667, 0xbb67ae85, 0x3c6ef372, 0xa54ff53a, 0x510e527f, 0x9b05688c, 0x1f83d9ab, 0x5be0cd19⟩

def constants : List UInt32 :=
  [0x428a2f98, 0x71374491, 0xb5c0fbcf, 0xe9b5dba5, 0x3956c25b, 0x59f111f1,
    0x923f82a4, 0xab1c5ed5, 0xd807aa98, 0x12835b01, 0x243185be, 0x550c7dc3,
    0x72be5d74, 0x80deb1fe, 0x9bdc06a7, 0xc19bf174, 0xe49b69c1, 0xefbe4786,
    0x0fc19dc6, 0x240ca1cc, 0x2de92c6f, 0x4a7484aa, 0x5cb0a9dc, 0x76f988da,
    0x983e5152, 0xa831c66d, 0xb00327c8, 0xbf597fc7, 0xc6e00bf3, 0xd5a79147,
    0x06ca6351, 0x14292967, 0x27b70a85, 0x2e1b2138, 0x4d2c6dfc, 0x53380d13,
    0x650a7354, 0x766a0abb, 0x81c2c92e, 0x92722c85, 0xa2bfe8a1, 0xa81a664b,
    0xc24b8b70, 0xc76c51a3, 0xd192e819, 0xd6990624, 0xf40e3585, 0x106aa070,
    0x19a4c116, 0x1e376c08, 0x2748774c, 0x34b0bcb5, 0x391c0cb3, 0x4ed8aa4a,
    0x5b9cca4f, 0x682e6ff3, 0x748f82ee, 0x78a5636f, 0x84c87814, 0x8cc70208,
    0x90befffa, 0xa4506ceb, 0xbef9a3f7, 0xc67178f2]

def rotateRight (value amount : UInt32) : UInt32 :=
  value >>> amount ||| value <<< (32 - amount)

def blockWord (block : Bytes) (index : ℕ) : UInt32 :=
  UInt32.ofNat (ofLE (slice block (index * 4) 4).reverse)

/-- Extends the message schedule by `n` words. The schedule is kept newest
first, so `words[index - 15]` of the source is the entry at position 14. -/
def extendWords : ℕ → List UInt32 → List UInt32
  | 0, words => words
  | n + 1, words =>
    let w15 := words.getD 14 0
    let w2 := words.getD 1 0
    let first := rotateRight w15 7 ^^^ rotateRight w15 18 ^^^ (w15 >>> 3)
    let second := rotateRight w2 17 ^^^ rotateRight w2 19 ^^^ (w2 >>> 10)
    extendWords n ((words.getD 15 0 + first + words.getD 6 0 + second) :: words)

def schedule (block : Bytes) : List UInt32 :=
  (extendWords 48 ((List.range 16).map (blockWord block)).reverse).reverse

def round (s : Words) (kw : UInt32 × UInt32) : Words :=
  let choose := (s.e &&& s.f) ^^^ (~~~s.e &&& s.g)
  let majority := (s.a &&& s.b) ^^^ (s.a &&& s.c) ^^^ (s.b &&& s.c)
  let bigE := rotateRight s.e 6 ^^^ rotateRight s.e 11 ^^^ rotateRight s.e 25
  let bigA := rotateRight s.a 2 ^^^ rotateRight s.a 13 ^^^ rotateRight s.a 22
  let temporaryOne := s.h + bigE + choose + kw.1 + kw.2
  let temporaryTwo := bigA + majority
  ⟨temporaryOne + temporaryTwo, s.a, s.b, s.c, s.d + temporaryOne, s.e, s.f, s.g⟩

def transform (s : Words) (block : Bytes) : Words :=
  let r := (constants.zip (schedule block)).foldl round s
  ⟨s.a + r.a, s.b + r.b, s.c + r.c, s.d + r.d, s.e + r.e, s.f + r.f, s.g + r.g, s.h + r.h⟩

/-- A hash in progress. `block` holds the pending bytes. -/
structure Context where
  state : Words
  byteCount : ℕ
  block : Bytes
  finished : Bool
  block_lt : block.length < 64

def initialContext : Context := ⟨initial, 0, [], false, by simp⟩

def pushByte (c : Context) (x : UInt8) : Context :=
  if h : (c.block ++ [x]).length < 64 then
    { c with byteCount := c.byteCount + 1, block := c.block ++ [x], block_lt := h }
  else
    { c with
      byteCount := c.byteCount + 1
      state := transform c.state (c.block ++ [x])
      block := []
      block_lt := by simp }

def maxBytes : ℕ := (2 ^ 64 - 1) / 8

def update (c : Context) (bytes : Bytes) : Except Status Context :=
  if c.byteCount > maxBytes ∨ bytes.length > maxBytes - c.byteCount then
    .error .overflow
  else if c.finished then .error .sequence
  else .ok (bytes.foldl pushByte c)

def wordBytes (w : UInt32) : Bytes := (writeU32 w).reverse

def outputBytes (s : Words) : Bytes :=
  wordBytes s.a ++ wordBytes s.b ++ wordBytes s.c ++ wordBytes s.d ++
    wordBytes s.e ++ wordBytes s.f ++ wordBytes s.g ++ wordBytes s.h

def output (s : Words) : Digest := ⟨outputBytes s, by simp [outputBytes, wordBytes]⟩

/-- The blocks that close a message: the marker byte, zero bytes, and the bit
count in the last eight bytes, in one block or in two. -/
def finalWords (c : Context) : Words :=
  let marked := c.block ++ [0x80]
  let bitCount := (toLE 8 (c.byteCount * 8)).reverse
  if marked.length > 56 then
    let spilled := transform c.state (marked ++ zeros (64 - marked.length))
    transform spilled (zeros 56 ++ bitCount)
  else transform c.state (marked ++ zeros (56 - marked.length) ++ bitCount)

def finish (c : Context) : Except Status Digest :=
  if c.finished then .error .sequence else .ok (output (finalWords c))

@[simp] theorem finished_pushByte (c : Context) (x : UInt8) :
    (pushByte c x).finished = c.finished := by
  rw [pushByte]
  split <;> rfl

@[simp] theorem finished_foldl_pushByte (bytes : Bytes) (c : Context) :
    (bytes.foldl pushByte c).finished = c.finished := by
  induction bytes generalizing c with
  | nil => rfl
  | cons x bytes ih => rw [List.foldl_cons, ih, finished_pushByte]

theorem update_eq_ok {c : Context} {bytes : Bytes} (hf : c.finished = false)
    (h : c.byteCount + bytes.length ≤ maxBytes) :
    update c bytes = .ok (bytes.foldl pushByte c) := by
  have hle : ¬(c.byteCount > maxBytes ∨ bytes.length > maxBytes - c.byteCount) := by
    omega
  simp [update, hle, hf]

end Sha256

def sha256Of (bytes : Bytes) : Digest :=
  Sha256.output (Sha256.finalWords (bytes.foldl Sha256.pushByte Sha256.initialContext))

def sha256 (bytes : Bytes) : Except Status Digest := do
  let c ← Sha256.update Sha256.initialContext bytes
  Sha256.finish c

theorem sha256Of_eq {bytes : Bytes} (h : bytes.length ≤ Sha256.maxBytes) :
    sha256 bytes = .ok (sha256Of bytes) := by
  have hcount : Sha256.initialContext.byteCount + bytes.length ≤ Sha256.maxBytes := by
    simpa [Sha256.initialContext] using h
  have hfin : (bytes.foldl Sha256.pushByte Sha256.initialContext).finished = false := by
    rw [Sha256.finished_foldl_pushByte]
    rfl
  rw [sha256, Sha256.update_eq_ok rfl hcount]
  simp [Bind.bind, Except.bind, Sha256.finish, hfin, sha256Of]

end OpenRFS.PackageState
