import OpenRFS.NativeHandle.Table
import OpenRFS.Volume.Store

/-!
# The cursor of an open file

`FILE_READ` and `FILE_WRITE` move their bytes in chunks: at the cursor of the handle, or at
the offset of the request. What the process, the handle table and the backend answer is part
of a request. The handle was opened without append.
-/

namespace OpenRFS.FileIo

open List NativeHandle Volume

def copyChunk : ℕ := 4096

/-- Why a call fails. The status of another layer stands for its error number. -/
inductive Failure
  | fault | invalid | badHandle
  | handle (status : HandleStatus)
  | filesystem (status : FsStatus)
  deriving DecidableEq

/-- What the backend answers to a read or a write. Some that fail have moved the cursor: a
read of FAT32 that breaks off, and a write of either backend whose volume fails to close. -/
structure Answer where
  status : FsStatus
  transferred : ℕ
  moves : Bool
  moves_of_ok : status = .ok → moves

/-- What the backend answers to a seek, before the target is known and after, and its largest
cursor. -/
structure SeekAnswer where
  before : FsStatus
  after : FsStatus
  limit : ℕ

def rsdfsSeek (a : SeekAnswer) (base : ℕ) (offset : ℤ) : Except FsStatus ℕ :=
  if a.before ≠ .ok then .error a.before
  else if base + offset < 0 ∨ a.limit < base + offset then .error .range
  else if a.after ≠ .ok then .error a.after
  else .ok (base + offset).toNat

/-- A request to read or write. The copies and the answers are those of the chunk that starts
after so many bytes. -/
structure IoRequest where
  write : Bool
  requestCopied : Bool
  formed : Bool
  resolved : HandleStatus
  length : ℕ
  inRange : Bool
  offset : UInt64
  seek : SeekAnswer
  copied : ℕ → Bool
  answer : ℕ → Answer

/-- One call of the backend: the bytes it touched, and how far it moved the cursor. -/
structure Access where
  position : ℕ
  transferred : ℕ
  moved : ℕ
  deriving DecidableEq

structure Outcome where
  result : Except Failure ℕ
  cursor : ℕ
  accesses : List Access

def Outcome.moved (o : Outcome) : ℕ := (o.accesses.map Access.moved).sum

namespace IoRequest

variable (r : IoRequest) (completed cursor : ℕ)

def positional : Bool := r.offset.toNat ≠ 2 ^ 64 - 1

def pread : Bool := !r.write && r.positional

def access : Access :=
  let a := r.answer completed
  if r.pread then ⟨r.offset.toNat + completed, a.transferred, 0⟩
  else ⟨cursor, a.transferred, if a.moves then a.transferred else 0⟩

/-- An error is reported only if nothing was transferred before. -/
def stop (failure : Failure) : Except Failure ℕ :=
  if completed = 0 then .error failure else .ok completed

def transfer (completed cursor : ℕ) : Outcome :=
  if completed < r.length then
    if r.write && !r.copied completed then ⟨stop completed .fault, cursor, []⟩
    else if r.pread && 2 ^ 64 - 1 - r.offset.toNat < completed then
      ⟨stop completed .invalid, cursor, []⟩
    else
      let a := r.answer completed
      let access := r.access completed cursor
      if a.status ≠ .ok then
        ⟨stop completed (.filesystem a.status), cursor + access.moved, [access]⟩
      else if !r.write && a.transferred ≠ 0 && !r.copied completed then
        ⟨stop completed .fault, cursor + access.moved, [access]⟩
      else if a.transferred < min (r.length - completed) copyChunk then
        ⟨.ok (completed + a.transferred), cursor + access.moved, [access]⟩
      else
        let rest := transfer (completed + a.transferred) (cursor + access.moved)
        { rest with accesses := access :: rest.accesses }
  else ⟨.ok completed, cursor, []⟩
termination_by r.length - completed
decreasing_by
  simp +zetaDelta only [copyChunk] at *
  omega

/-- The checks before the loop, and where the loop starts if there is something to do. -/
def start : Except Failure (Option ℕ) :=
  if !r.requestCopied then .error .fault
  else if !r.formed then .error .invalid
  else if r.resolved ≠ .ok then .error (.handle r.resolved)
  else if r.length = 0 then .ok none
  else if !r.inRange then .error .fault
  else if r.write && r.positional then
    if 2 ^ 63 ≤ r.offset.toNat then .error .invalid
    else match rsdfsSeek r.seek 0 r.offset.toNat with
      | .error status => .error (.filesystem status)
      | .ok position => .ok (some position)
  else .ok (some cursor)

end IoRequest

def syscallFileIo (r : IoRequest) (cursor : ℕ) : Outcome :=
  match r.start cursor with
  | .error failure => ⟨.error failure, cursor, []⟩
  | .ok none => ⟨.ok 0, cursor, []⟩
  | .ok (some position) => r.transfer 0 position

inductive Origin
  | start | current | finish

structure SeekRequest where
  requestCopied : Bool
  formed : Bool
  resolved : HandleStatus
  origin : Origin
  offset : ℤ
  size : ℕ
  seek : SeekAnswer

def syscallFileSeek (r : SeekRequest) (cursor : ℕ) : Outcome :=
  if !r.requestCopied then ⟨.error .fault, cursor, []⟩
  else if !r.formed then ⟨.error .invalid, cursor, []⟩
  else if r.resolved ≠ .ok then ⟨.error .badHandle, cursor, []⟩
  else
    let base := match r.origin with
      | .start => 0
      | .current => cursor
      | .finish => r.size
    match rsdfsSeek r.seek base r.offset with
    | .error status => ⟨.error (.filesystem status), cursor, []⟩
    | .ok position => ⟨.ok position, position, []⟩

inductive Call
  | io (r : IoRequest)
  | seek (r : SeekRequest)

namespace Call

def positional : Call → Bool
  | io r => r.positional
  | seek _ => false

def outcome : Call → ℕ → Outcome
  | io r => syscallFileIo r
  | seek r => syscallFileSeek r

end Call

def cursorAfter (calls : List Call) (cursor : ℕ) : ℕ :=
  calls.foldl (fun cursor c => (c.outcome cursor).cursor) cursor

/-- The bytes that the calls at the cursor touch, call by call. -/
def touched : List Call → ℕ → List (List Access)
  | [], _ => []
  | c :: calls, cursor =>
    (if c.positional then [] else [(c.outcome cursor).accesses]) ++
      touched calls (c.outcome cursor).cursor

/-- Each positional call leaves the cursor. -/
def Unmoved (calls : List Call) (cursor : ℕ) : Prop :=
  ∀ before c after, calls = before ++ c :: after → c.positional →
    cursorAfter (before ++ [c]) cursor = cursorAfter before cursor

/-- A positional write that passes the checks before its seek, and whose `rsdfs_seek`
succeeds. -/
structure IoRequest.Seeks (r : IoRequest) : Prop where
  write : r.write
  positional : r.positional
  requestCopied : r.requestCopied
  formed : r.formed
  resolved : r.resolved = .ok
  length : r.length ≠ 0
  inRange : r.inRange
  offset : r.offset.toNat < 2 ^ 63
  before : r.seek.before = .ok
  limit : r.offset.toNat ≤ r.seek.limit
  after : r.seek.after = .ok

section Cursor

variable {r : IoRequest} {completed cursor position : ℕ} {calls : List Call}

theorem transfer_cursor :
    (r.transfer completed cursor).cursor = cursor + (r.transfer completed cursor).moved := by
  fun_induction IoRequest.transfer r completed cursor with
  | case6 completed cursor _ _ _ a access _ _ _ rest ih =>
    calc rest.cursor = cursor + access.moved + rest.moved := ih
      _ = cursor + (access.moved + rest.moved) := add_assoc ..
  | _ => rfl

theorem moved_of_pread (h : r.pread) : (r.transfer completed cursor).moved = 0 := by
  have haccess : ∀ completed cursor, (r.access completed cursor).moved = 0 := by
    simp [IoRequest.access, h]
  fun_induction IoRequest.transfer r completed cursor with
  | case6 completed cursor _ _ _ a access _ _ _ rest ih =>
    calc access.moved + rest.moved = 0 + 0 := by rw [haccess, ih]
  | case3 | case4 | case5 => exact haccess ..
  | _ => rfl

theorem start_position (h : r.start cursor = .ok (some position)) :
    position = if r.write && r.positional then r.offset.toNat else cursor := by
  unfold IoRequest.start rsdfsSeek at h
  split_ifs at h ⊢ <;> simp_all

theorem start_of_seeks (h : r.Seeks) (cursor : ℕ) : r.start cursor = .ok (some r.offset.toNat) := by
  have hseek : rsdfsSeek r.seek 0 r.offset.toNat = .ok r.offset.toNat := by
    have hlimit := h.limit
    rw [rsdfsSeek, if_neg (not_not.mpr h.before), if_neg (by omega), if_neg (not_not.mpr h.after)]
    simp
  simp only [IoRequest.start, h.write, h.positional, h.requestCopied, h.formed, h.resolved,
    h.length, h.inRange, if_neg (not_le.mpr h.offset), hseek]
  rfl

theorem seeks_of_start (hwrite : r.write) (hpositional : r.positional)
    (h : r.start cursor = .ok (some position)) : r.Seeks := by
  unfold IoRequest.start rsdfsSeek at h
  split_ifs at h
  all_goals simp_all
  constructor
  all_goals simp_all

/-- The cursor a seeking write leaves does not depend on the one it found. -/
theorem cursor_of_seeks (h : r.Seeks) (cursor : ℕ) : (syscallFileIo r cursor).cursor =
    r.offset.toNat + (r.transfer 0 r.offset.toNat).moved := by
  simp only [syscallFileIo, start_of_seeks h]
  exact transfer_cursor

theorem cursor_of_not_seeks (hpositional : r.positional) (h : ¬ r.Seeks) (cursor : ℕ) :
    (syscallFileIo r cursor).cursor = cursor := by
  unfold syscallFileIo
  cases hstart : r.start cursor with
  | error failure => rfl
  | ok start =>
    cases start with
    | none => rfl
    | some position =>
      have hread : r.write = false := by
        by_contra hwrite
        exact h (seeks_of_start (by simpa using hwrite) hpositional hstart)
      have hpread : r.pread := by simp [IoRequest.pread, hread, hpositional]
      dsimp only
      rw [transfer_cursor, moved_of_pread hpread, start_position hstart, hread]
      rfl

theorem cursorAfter_concat (calls : List Call) (c : Call) (cursor : ℕ) :
    cursorAfter (calls ++ [c]) cursor = (c.outcome (cursorAfter calls cursor)).cursor :=
  foldl_concat ..

theorem unmoved_of_not_seeks (h : ∀ r, .io r ∈ calls → ¬ r.Seeks) (cursor : ℕ) :
    Unmoved calls cursor := by
  intro before c after hcalls hpositional
  rw [cursorAfter_concat]
  cases c with
  | io r => exact cursor_of_not_seeks hpositional (h r (by simp [hcalls])) _
  | seek r => exact absurd hpositional (by simp [Call.positional])

theorem IoRequest.Seeks.not_unmoved (h : r.Seeks) : ∃ cursor, ¬ Unmoved [.io r] cursor := by
  refine ⟨r.offset.toNat + (r.transfer 0 r.offset.toNat).moved + 1, fun hunmoved => ?_⟩
  have hsame := hunmoved [] (.io r) [] rfl h.positional
  rw [cursorAfter_concat] at hsame
  have hcursor := (cursor_of_seeks h _).symm.trans hsame
  simp [cursorAfter] at hcursor

theorem Unmoved.touched (h : Unmoved calls cursor) :
    touched calls cursor = touched (calls.filter (!·.positional)) cursor := by
  induction calls generalizing cursor with
  | nil => rfl
  | cons c calls ih =>
    have hrest : Unmoved calls (c.outcome cursor).cursor := fun before d after hcalls =>
      h (c :: before) d after (congrArg (c :: ·) hcalls)
    cases hc : c.positional with
    | true =>
      have hcursor : (c.outcome cursor).cursor = cursor := h [] c calls rfl hc
      rw [hcursor] at hrest
      simp [FileIo.touched, hc, hcursor, ih hrest]
    | false => simp [FileIo.touched, hc, ih hrest]


/-- Positional calls leave the cursor, and the calls at the cursor touch what they would
without them, in every sequence of the given calls and from every cursor, exactly if none of
the calls is a positional write whose `rsdfs_seek` succeeds. -/
theorem positional_frame_iff (permitted : Set Call) :
    (∀ calls : List Call, (∀ c ∈ calls, c ∈ permitted) → ∀ cursor, Unmoved calls cursor ∧
        touched calls cursor = touched (calls.filter (!·.positional)) cursor) ↔
      ∀ r, .io r ∈ permitted → ¬ r.Seeks := by
  constructor
  · intro h r hr hseeks
    obtain ⟨cursor, hmoved⟩ := hseeks.not_unmoved
    exact hmoved (h [.io r] (by simpa using hr) cursor).1
  · intro h calls hcalls cursor
    have hunmoved := unmoved_of_not_seeks (fun r hr => h r (hcalls _ hr)) cursor
    exact ⟨hunmoved, hunmoved.touched⟩

def fourAtTen : IoRequest where
  write := true
  requestCopied := true
  formed := true
  resolved := .ok
  length := 4
  inRange := true
  offset := 10
  seek := ⟨.ok, .ok, 2 ^ 24⟩
  copied _ := true
  answer _ := ⟨.ok, 4, true, fun _ => rfl⟩

theorem seeks_fourAtTen : fourAtTen.Seeks := by
  constructor
  all_goals decide

/-- The cursor at the start of the file is lost. -/
theorem positional_write_moves : ¬ Unmoved [.io fourAtTen] 0 := by
  intro h
  have hback := h [] (.io fourAtTen) [] rfl (by decide)
  rw [cursorAfter_concat] at hback
  have hcursor := (cursor_of_seeks seeks_fourAtTen 0).symm.trans hback
  simp [cursorAfter, fourAtTen] at hcursor

end Cursor

end OpenRFS.FileIo
