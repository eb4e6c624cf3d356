import OpenRFS.NativeProcess.Pages

/-!
# MEMORY_MAP, MEMORY_UNMAP and THREAD_CREATE

The system calls of `native_process.c` that add pages to a running process and take
them away. Arguments stand for what comes from outside: the request as copied from the
user, whether the response could be written, the answers of the frame allocator and of
the paging layer for each page.
-/

namespace OpenRFS.NativeProcess

open Paging

inductive Errno where
  | eio
  | ebadf
  | enomem
  | eacces
  | efault
  | ebusy
  | einval
  | estale
  deriving DecidableEq

def abiVersion : UInt32 := 1

def sub64 (a b : ℕ) : ℕ := (a + 2 ^ 64 - b) % 2 ^ 64

def spanAddress (base page : ℕ) : ℕ := (base + page * pageSize) % 2 ^ 64

/-- The answers of the frame allocator and of the paging layer for the pages of a call. -/
structure PageAnswers where
  frame : ℕ → Option ℕ
  maps : ℕ → Bool

/-! ### Building and undoing -/

def State.buildPage (s : State) (kind : MappingKind) (address : ℕ) (frame : Option ℕ) (maps : Bool) :
    Bool × State :=
  match s.allocatePage address pagingWrite kind frame with
  | (none, s') => (false, s')
  | (some physicalAddress, s') =>
    match s'.process.mapUserPage kind address physicalAddress pagingWrite maps with
    | none => (false, s')
    | some p => (true, ⟨s'.memory, p.setMapped address true⟩)

def State.releaseRecord (s : State) (address : ℕ) : Bool × State :=
  match s.process.removePageRecord address with
  | none => (false, s)
  | some (removed, p) =>
    match s.memory.releasePageFrame removed with
    | none => (false, ⟨s.memory, p⟩)
    | some m => (true, ⟨m, p⟩)

def State.rollbackPage (s : State) (kind : MappingKind) (address : ℕ) : State :=
  match s.process.pageAt address with
  | none => s
  | some record =>
    if record.mapped then
      (State.releaseRecord
        ⟨s.memory, (s.process.unmapUserPage kind address).getD s.process⟩ address).2
    else (s.releaseRecord address).2

def State.rollback (s : State) (kind : MappingKind) (base : ℕ) (pages : List ℕ) : State :=
  pages.foldl (fun s page => s.rollbackPage kind (base + page * pageSize)) s

/-- The loop that builds a mapping, from `page` on. If a page cannot be built, it and all
before it are undone. -/
def State.buildPages (s : State) (kind : MappingKind) (base : ℕ) (answers : PageAnswers)
    (page : ℕ) : ℕ → Bool × State
  | 0 => (true, s)
  | left + 1 =>
    match s.buildPage kind (base + page * pageSize) (answers.frame page) (answers.maps page) with
    | (true, s') => s'.buildPages kind base answers (page + 1) left
    | (false, s') => (false, s'.rollback kind base (List.range (page + 1)))

/-! ### MEMORY_UNMAP -/

def Process.isAnonymous (p : Process) (address : ℕ) : Bool :=
  match p.pageAt address with
  | none => false
  | some record => record.mapped && decide (record.kind = .nativeAnon)

def State.unmapPage (s : State) (address : ℕ) : Bool × State :=
  match s.process.unmapUserPage .nativeAnon address with
  | none => (false, s)
  | some p => State.releaseRecord ⟨s.memory, p⟩ address

def Process.fault (p : Process) : Process := { p with faulted := true, exiting := true }

def State.unmapPages (s : State) (address : ℕ) : List ℕ → Except Errno Unit × State
  | [] => (.ok (), s)
  | page :: rest =>
    match s.unmapPage (spanAddress address page) with
    | (true, s') => s'.unmapPages address rest
    | (false, s') => (.error .eio, ⟨s'.memory, s'.process.fault⟩)

def State.memoryUnmap (s : State) (address length : ℕ) : Except Errno Unit × State :=
  if length = 0 ∨ address % pageSize ≠ 0 ∨ length % pageSize ≠ 0 ∨ address < nativeAnonBase ∨
      sub64 nativeAnonEnd address < length then
    (.error .einval, s)
  else if (List.range (length / pageSize)).all fun page =>
      s.process.isAnonymous (spanAddress address page) then
    s.unmapPages address (List.range (length / pageSize))
  else (.error .efault, s)

/-! ### MEMORY_MAP -/

structure MemoryMapRequest where
  size : UInt32
  version : UInt32
  length : UInt64
  addressHint : UInt64
  flags : UInt32
  reserved : UInt32

def memoryRead : UInt32 := 1
def memoryWrite : UInt32 := 2
def memoryGuardBefore : UInt32 := 4
def memoryGuardAfter : UInt32 := 8

def memoryFlags : UInt32 := memoryRead ||| memoryWrite ||| memoryGuardBefore ||| memoryGuardAfter

namespace MemoryMapRequest

variable (request : MemoryMapRequest)

def malformed : Bool :=
  request.size != 32 || request.version != abiVersion || request.reserved != 0 ||
    request.flags &&& ~~~memoryFlags != 0 ||
    request.flags &&& (memoryRead ||| memoryWrite) != memoryRead ||| memoryWrite ||
    request.length == 0 || decide (2 ^ 64 - 1 - (pageSize - 1) < request.length.toNat)

def guardBefore : Bool := request.flags &&& memoryGuardBefore != 0

def guardAfter : Bool := request.flags &&& memoryGuardAfter != 0

def pageCount : ℕ := (request.length.toNat + pageSize - 1) / pageSize

def roundedLength : ℕ := request.pageCount * pageSize

end MemoryMapRequest

def Process.anonymousSpanFree (p : Process) (base pageCount : ℕ) (guardBefore guardAfter : Bool) :
    Bool :=
  let first := if guardBefore then sub64 base pageSize else base
  let total := pageCount + guardBefore.toNat + guardAfter.toNat
  decide (nativeAnonBase ≤ base) && decide (pageCount ≤ sub64 nativeAnonEnd base / pageSize) &&
    decide (nativeAnonBase ≤ first) && decide (total ≤ sub64 nativeAnonEnd first / pageSize) &&
    (List.range total).all fun page => (p.pageAt (spanAddress first page)).isNone

def Process.firstFit (p : Process) (pageCount : ℕ) (guardBefore guardAfter : Bool) (candidate : ℕ) :
    Option ℕ :=
  if h : candidate < nativeAnonEnd then
    have : nativeAnonEnd - (candidate + pageSize) < nativeAnonEnd - candidate := by
      have : 0 < pageSize := by decide
      omega
    if pageCount + guardBefore.toNat + guardAfter.toNat ≤
        (nativeAnonEnd - (candidate - guardBefore.toNat * pageSize)) / pageSize then
      if p.anonymousSpanFree candidate pageCount guardBefore guardAfter then some candidate
      else p.firstFit pageCount guardBefore guardAfter (candidate + pageSize)
    else none
  else none
  termination_by nativeAnonEnd - candidate

def Process.placeMapping (p : Process) (request : MemoryMapRequest) : Except Errno ℕ :=
  if request.addressHint ≠ 0 then
    if request.addressHint.toNat % pageSize ≠ 0 then .error .einval
    else if p.anonymousSpanFree request.addressHint.toNat request.pageCount request.guardBefore
        request.guardAfter then .ok request.addressHint.toNat
    else .error .ebusy
  else
    match p.firstFit request.pageCount request.guardBefore request.guardAfter
      (nativeAnonBase + request.guardBefore.toNat * pageSize) with
    | none => .error .enomem
    | some base => .ok base

def Process.hasRoom (p : Process) (pageCount : ℕ) : Bool :=
  decide (pageCount ≠ 0) && decide (pageCount ≤ processPageLimit) &&
    decide (p.pages.length ≤ processPageLimit - pageCount) &&
    decide ((p.pages.length + pageCount) * pageSize ≤ p.memoryLimit)

/-- What a call of MEMORY_MAP meets: the request if it could be copied and the response
range is valid, whether the response could be written, and the answers for the pages. -/
structure MapInput where
  request : Option MemoryMapRequest
  copied : Bool
  answers : PageAnswers

def State.memoryMap (s : State) (input : MapInput) : Except Errno (ℕ × ℕ) × State :=
  match input.request with
  | none => (.error .efault, s)
  | some request =>
    if request.malformed then (.error .einval, s)
    else if s.process.hasRoom request.pageCount then
      match s.process.placeMapping request with
      | .error e => (.error e, s)
      | .ok base =>
        match s.buildPages .nativeAnon base input.answers 0 request.pageCount with
        | (false, s') => (.error .enomem, s')
        | (true, s') =>
          if input.copied then (.ok (base, request.roundedLength), s')
          else (.error .efault, (s'.memoryUnmap base request.roundedLength).2)
    else (.error .enomem, s)

end OpenRFS.NativeProcess
