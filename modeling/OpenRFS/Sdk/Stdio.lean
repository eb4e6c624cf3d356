import OpenRFS.Codec.LittleEndian

/-!
# Streams of the SDK

A stream has one buffer for both directions. The flag `dirty` says that the buffer holds
output; otherwise it holds input, of which `position` bytes have been consumed. What the
kernel answers to a call is a function of the number of the call.

A stream comes with four texts that no function reads: the bytes that were passed to
`rsd_file_write`, those it accepted, those that were taken from callers into the buffer,
and those that calls of `fwrite` reported as written.
-/

namespace OpenRFS.Sdk

def bufSize : ℕ := 1024

def sizeMax : ℕ := 2 ^ 64 - 1

/-- The answers of the kernel. A write accepts some of the bytes, none if it fails. A read
fails, or gives some bytes, none at the end of the file. -/
structure Kernel where
  write : ℕ → ℕ → ℕ
  write_le : ∀ call asked, write call asked ≤ asked
  read : ℕ → ℕ → Option Bytes
  seek : ℕ → Bool

/-- `struct rsd_FILE`. Of the buffer the bytes below `length` are kept. -/
structure Stream where
  readable : Bool
  writable : Bool
  console : Bool
  dirty : Bool := false
  error : Bool := false
  eof : Bool := false
  buffer : Bytes := []
  position : ℕ := 0
  pushed : Option UInt8 := none
  calls : ℕ := 0
  passed : Bytes := []
  accepted : Bytes := []
  supplied : Bytes := []
  reported : Bytes := []
  deriving DecidableEq

variable (k : Kernel)

/-- The loop of `flush_locked`. A pass that does not fail sends a byte at least, so there
are no more passes than bytes. -/
def flushFrom : ℕ → Bytes → Stream → Bool × Stream
  | 0, _, s => (true, s)
  | passes + 1, rest, s =>
    if rest = [] then (true, s)
    else
      let n := k.write s.calls rest.length
      let s := { s with
        calls := s.calls + 1
        passed := s.passed ++ rest
        accepted := s.accepted ++ rest.take n }
      if n = 0 then (false, { s with error := true })
      else flushFrom passes (rest.drop n) s

def flushLocked (s : Stream) : Bool × Stream :=
  if s.buffer = [] ∨ (s.writable && s.dirty) = false then (true, s)
  else
    match flushFrom k s.buffer.length s.buffer s with
    | (true, s) => (true, { s with buffer := [], position := 0, dirty := false })
    | (false, s) => (false, s)

/-- The loop of `read_locked`. A pass that reads is followed by one that copies. -/
def readLoop : ℕ → ℕ → Stream → Bytes × Stream
  | 0, _, s => ([], s)
  | passes + 1, left, s =>
    if left = 0 then ([], s)
    else if s.position < s.buffer.length then
      let chunk := (s.buffer.drop s.position).take left
      let (data, s') := readLoop passes (left - chunk.length)
        { s with position := s.position + chunk.length }
      (chunk ++ data, s')
    else
      match k.read s.calls bufSize with
      | none => ([], { s with calls := s.calls + 1, error := true })
      | some [] => ([], { s with calls := s.calls + 1, eof := true })
      | some bytes => readLoop passes left
          { s with calls := s.calls + 1, position := 0, buffer := bytes }

def readClean (bytes : ℕ) (s : Stream) : Bytes × Stream :=
  let front := if bytes = 0 then [] else s.pushed.toList
  let s := if bytes = 0 then s else { s with pushed := none }
  if s.console ∧ front.length < bytes then
    match k.read s.calls (bytes - front.length) with
    | none => (front, { s with calls := s.calls + 1, error := true })
    | some data => (front ++ data, { s with calls := s.calls + 1 })
  else
    let (data, s) := readLoop k (2 * bytes + 1) (bytes - front.length) s
    (front ++ data, s)

def readLocked (bytes : ℕ) (s : Stream) : Bytes × Stream :=
  if s.readable then
    match if s.dirty then flushLocked k s else (true, s) with
    | (false, s) => ([], s)
    | (true, s) => readClean k bytes s
  else ([], { s with error := true })

/-- The loop of `write_locked`: the bytes that are left when it ends. The flag is set
before the loop and not in it. With a full buffer that is not dirty no pass changes
anything, and the loop does not end; the passes are enough for all others. -/
def writeLoop : ℕ → Bytes → Stream → Option (Bytes × Stream)
  | 0, _, _ => none
  | passes + 1, rest, s =>
    if rest = [] then some ([], s)
    else
      let chunk := rest.take (bufSize - s.buffer.length)
      let rest := rest.drop (bufSize - s.buffer.length)
      let s := { s with buffer := s.buffer ++ chunk, supplied := s.supplied ++ chunk }
      if s.buffer.length = bufSize ∨ (s.console ∧ 0x0a ∈ chunk) then
        match flushLocked k s with
        | (false, s) => some (rest, s)
        | (true, s) => writeLoop passes rest s
      else writeLoop passes rest s

def leaveInput (s : Stream) : Bool × Stream :=
  if s.dirty ∨ s.buffer = [] then (true, s)
  else if s.console ∨ s.buffer.length - s.position = 0 then
    (true, { s with buffer := [], position := 0 })
  else if k.seek s.calls then
    (true, { s with calls := s.calls + 1, buffer := [], position := 0 })
  else (false, { s with calls := s.calls + 1, error := true })

def writeLocked (bytes : Bytes) (s : Stream) : Option (Bytes × Stream) :=
  if s.writable then
    match leaveInput k s with
    | (false, s) => some (bytes, s)
    | (true, s) => writeLoop k (2 * bytes.length + 2) bytes { s with dirty := true }
  else some (bytes, { s with error := true })

/-- The number of bytes does not fit a `size_t`. -/
def tooMany (size count : ℕ) : Bool := decide (size ≠ 0 ∧ sizeMax / size < count)

def elements (size count : ℕ) (data : ℕ → UInt8) : Bytes := (List.range (size * count)).map data

def fread (size count : ℕ) (s : Stream) : Stream :=
  if tooMany size count then s else (readLocked k (size * count) s).2

def fwrite (size count : ℕ) (data : ℕ → UInt8) (s : Stream) : Option (ℕ × Stream) :=
  if tooMany size count then some (0, s)
  else
    match writeLocked k (elements size count data) s with
    | none => none
    | some (left, s) =>
      let n := if size = 0 then 0 else (size * count - left.length) / size
      some (n, { s with
        reported := s.reported ++ (elements size count data).take (n * size) })

def ungetc (character : UInt8) (s : Stream) : Stream :=
  match s.pushed with
  | some _ => s
  | none => { s with pushed := some character, eof := false }

/-- Where the file is positioned shows in the answers of the kernel only. -/
def fseek (s : Stream) : Stream :=
  if s.console then s
  else
    match flushLocked k s with
    | (false, s) => s
    | (true, s) =>
      { s with position := 0, buffer := [], pushed := none, eof := false, calls := s.calls + 1 }

def ftell (s : Stream) : Stream := if s.console then s else { s with calls := s.calls + 1 }

def fflush (s : Stream) : Stream := (flushLocked k s).2

/-- The calls on a stream. `fgetc` is a read of one byte, and `fputc`, `fputs` and `printf`
are writes. -/
inductive Call where
  | fread (size count : ℕ)
  | fwrite (size count : ℕ) (data : ℕ → UInt8)
  | ungetc (character : UInt8)
  | fseek
  | ftell
  | fflush
  | fclose

/-- The stream after a call, unless the call does not return. -/
def step (s : Stream) : Call → Option Stream
  | .fread size count => some (fread k size count s)
  | .fwrite size count data => (fwrite k size count data s).map Prod.snd
  | .ungetc character => some (ungetc character s)
  | .fseek => some (fseek k s)
  | .ftell => some (ftell s)
  | .fflush | .fclose => some (fflush k s)

def run (s : Stream) : List Call → Option Stream
  | [] => some s
  | call :: calls => (step k s call).bind fun s => run s calls

def Stream.opened (readable writable console : Bool) : Stream where
  readable := readable
  writable := writable
  console := console

end OpenRFS.Sdk
