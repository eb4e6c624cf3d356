import OpenRFS.Codec.Layout

/-!
# Little-endian words and zero-padded texts

The two kinds of fields fixed layouts are made of. `toLE w n` writes the low
`w` bytes of `n`, least significant first, and `ofLE` reads them back; the
words of 16, 32 and 64 bits are the instances a program stores. `pad w t` is a
text stored at the front of a field of the width `w`, with zero bytes behind
it.

A word field carries any word, so both directions hold without conditions but
for the width. A padded text determines the text it was built from only up to
zero bytes at its end (`takeWhile_pad`).
-/

namespace OpenRFS

open List

abbrev Bytes := List UInt8

variable {w n off : ℕ} {b t : Bytes}

namespace Codec

def toLE : ℕ → ℕ → Bytes
  | 0, _ => []
  | w + 1, n => UInt8.ofNat n :: toLE w (n / 256)

def ofLE : Bytes → ℕ
  | [] => 0
  | b :: bs => b.toNat + 256 * ofLE bs

@[simp] theorem length_toLE (w n : ℕ) : (toLE w n).length = w := by
  induction w generalizing n with
  | zero => rfl
  | succ w ih => simp [toLE, ih]

theorem ofLE_lt (bs : Bytes) : ofLE bs < 256 ^ bs.length := by
  induction bs with
  | nil => simp [ofLE]
  | cons b bs ih =>
    have hb : b.toNat < 256 := b.toNat_lt
    rw [ofLE, length_cons, pow_succ]
    omega

theorem ofLE_toLE (h : n < 256 ^ w) : ofLE (toLE w n) = n := by
  induction w generalizing n with
  | zero =>
    have hn : n = 0 := by simpa using h
    simp [toLE, ofLE, hn]
  | succ w ih =>
    have hq : n / 256 < 256 ^ w := by
      rw [Nat.div_lt_iff_lt_mul (by norm_num), ← pow_succ]
      exact h
    have hb : (UInt8.ofNat n).toNat = n % 256 := UInt8.toNat_ofNat
    rw [toLE, ofLE, ih hq, hb]
    omega

theorem toLE_ofLE (bs : Bytes) : toLE bs.length (ofLE bs) = bs := by
  induction bs with
  | nil => rfl
  | cons b bs ih =>
    have hb : b.toNat < 256 := b.toNat_lt
    have hlow : UInt8.ofNat (b.toNat + 256 * ofLE bs) = b := by
      apply UInt8.toNat_inj.mp
      rw [UInt8.toNat_ofNat']
      omega
    have hhigh : (b.toNat + 256 * ofLE bs) / 256 = ofLE bs := by omega
    rw [ofLE, length_cons, toLE, hlow, hhigh, ih]

def writeU16 (v : UInt16) : Bytes := toLE 2 v.toNat

def writeU32 (v : UInt32) : Bytes := toLE 4 v.toNat

def writeU64 (v : UInt64) : Bytes := toLE 8 v.toNat

def readU16 (b : Bytes) (off : ℕ) : UInt16 := UInt16.ofNat (ofLE (slice b off 2))

def readU32 (b : Bytes) (off : ℕ) : UInt32 := UInt32.ofNat (ofLE (slice b off 4))

def readU64 (b : Bytes) (off : ℕ) : UInt64 := UInt64.ofNat (ofLE (slice b off 8))

@[simp] theorem length_writeU16 (v : UInt16) : (writeU16 v).length = 2 := length_toLE 2 _

@[simp] theorem length_writeU32 (v : UInt32) : (writeU32 v).length = 4 := length_toLE 4 _

@[simp] theorem length_writeU64 (v : UInt64) : (writeU64 v).length = 8 := length_toLE 8 _

theorem readU16_of_slice {v : UInt16} (h : slice b off 2 = writeU16 v) : readU16 b off = v := by
  have hv : v.toNat < 256 ^ 2 := v.toNat_lt
  rw [readU16, h, writeU16, ofLE_toLE hv, UInt16.ofNat_toNat]

theorem readU32_of_slice {v : UInt32} (h : slice b off 4 = writeU32 v) : readU32 b off = v := by
  have hv : v.toNat < 256 ^ 4 := v.toNat_lt
  rw [readU32, h, writeU32, ofLE_toLE hv, UInt32.ofNat_toNat]

theorem readU64_of_slice {v : UInt64} (h : slice b off 8 = writeU64 v) : readU64 b off = v := by
  have hv : v.toNat < 256 ^ 8 := v.toNat_lt
  rw [readU64, h, writeU64, ofLE_toLE hv, UInt64.ofNat_toNat]

/-- A field read as a number is one of its width, and writing the number gives the field
back. -/
theorem ofLE_slice (h : off + w ≤ b.length) :
    ofLE (slice b off w) < 256 ^ w ∧ toLE w (ofLE (slice b off w)) = slice b off w := by
  have hlt := ofLE_lt (slice b off w)
  have hle := toLE_ofLE (slice b off w)
  rw [length_slice_of_le h] at hlt hle
  exact ⟨hlt, hle⟩

theorem writeU16_readU16 (h : off + 2 ≤ b.length) : writeU16 (readU16 b off) = slice b off 2 := by
  rw [writeU16, readU16, UInt16.toNat_ofNat_of_lt' (ofLE_slice h).1, (ofLE_slice h).2]

theorem writeU32_readU32 (h : off + 4 ≤ b.length) : writeU32 (readU32 b off) = slice b off 4 := by
  rw [writeU32, readU32, UInt32.toNat_ofNat_of_lt' (ofLE_slice h).1, (ofLE_slice h).2]

theorem writeU64_readU64 (h : off + 8 ≤ b.length) : writeU64 (readU64 b off) = slice b off 8 := by
  rw [writeU64, readU64, UInt64.toNat_ofNat_of_lt' (ofLE_slice h).1, (ofLE_slice h).2]

theorem toLE_injective {m : ℕ} (hm : m < 256 ^ w) (hn : n < 256 ^ w) (h : toLE w m = toLE w n) :
    m = n := by
  rw [← ofLE_toLE hm, ← ofLE_toLE hn, h]

theorem writeU16_injective : Function.Injective writeU16 := fun a b h =>
  UInt16.toNat_inj.mp (toLE_injective a.toNat_lt b.toNat_lt h)

theorem writeU32_injective : Function.Injective writeU32 := fun a b h =>
  UInt32.toNat_inj.mp (toLE_injective a.toNat_lt b.toNat_lt h)

theorem writeU64_injective : Function.Injective writeU64 := fun a b h =>
  UInt64.toNat_inj.mp (toLE_injective a.toNat_lt b.toNat_lt h)

def zeros (n : ℕ) : Bytes := List.replicate n 0

@[simp] theorem length_zeros (n : ℕ) : (zeros n).length = n := length_replicate

def isZero (b : Bytes) : Bool := b.all (· == 0)

theorem isZero_iff : isZero b ↔ b = zeros b.length := by
  rw [zeros, eq_replicate_iff]
  simp [isZero]

theorem isZero_iff_of_length (h : b.length = n) : isZero b ↔ b = zeros n := by
  rw [isZero_iff, h]

theorem zeros_of_isZero_slice {o : ℕ} (ho : o + n ≤ b.length) (h : isZero (slice b o n)) :
    zeros n = slice b o n :=
  ((isZero_iff_of_length (length_slice_of_le ho)).mp h).symm

def pad (w : ℕ) (t : Bytes) : Bytes := t ++ zeros (w - t.length)

theorem length_pad (h : t.length ≤ w) : (pad w t).length = w := by
  simp [pad]
  omega

theorem takeWhile_append_zeros (t : Bytes) (n : ℕ) :
    (t ++ zeros n).takeWhile (· != 0) = t.takeWhile (· != 0) := by
  induction t with
  | nil => simp [zeros]
  | cons b t ih =>
    by_cases hb : b = 0
    · simp [hb]
    · have hb' : (b != 0) := by simpa using hb
      simp only [cons_append, takeWhile_cons, hb', if_true, ih]

/-- A byte string without a zero byte. -/
def NulFree (t : Bytes) : Prop := (0 : UInt8) ∉ t

instance (t : Bytes) : Decidable (NulFree t) := inferInstanceAs (Decidable (0 ∉ t))

theorem takeWhile_of_nulFree (h : NulFree t) : t.takeWhile (· != 0) = t := by
  rw [takeWhile_eq_self_iff]
  intro x hx
  have hne : x ≠ 0 := fun h0 => h (h0 ▸ hx)
  simpa using hne

/-- The part of a padded field before its first zero byte is the part of the
text before its first zero byte. -/
theorem takeWhile_pad (w : ℕ) (t : Bytes) : (pad w t).takeWhile (· != 0) = t.takeWhile (· != 0) :=
  takeWhile_append_zeros t _

/-- Texts without zero bytes are determined by their padded fields. -/
theorem pad_injective_of_nulFree {u : Bytes} (ht : NulFree t) (hu : NulFree u)
    (h : pad w t = pad w u) : t = u := by
  rw [← takeWhile_of_nulFree ht, ← takeWhile_of_nulFree hu, ← takeWhile_pad w t, h, takeWhile_pad]

end Codec

end OpenRFS
