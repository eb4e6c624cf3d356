import OpenRFS.Crash.Program
import OpenRFS.Volume.Operations
import OpenRFS.PackageState.Database

/-!
# The machine of the package service

The package service calls the filesystem and uses its own memory. A call is a command
of the type `Cmd`, and the world the commands act on consists of the data volume, the
state of the drive, and the memory of the service. The report is part of the world, so
that a run that is cut off shows how far its report had come.

Both filesystems write a change to the medium and flush it before the operation
returns. What a completed operation has done therefore stays: a crash between two
calls leaves the store as it was between them, whether or not a sync came after.

An operation of the filesystem may fail with a device status, and its change is then
on the medium or it is not. A status that tells about the store itself, such as
`notFound`, is an answer and no failure.
-/

namespace OpenRFS.PackageService

open Volume Crash

/-- The result codes of the package service, in the order of the source. -/
inductive Status
  | ok | nullArgument | busy | absent | unavailable | filesystem | resource | state
  | incomplete | immutableFile | nameSpace | durability | cleanup
  deriving DecidableEq, Repr

/-- The report of a call, without the counters that only measure it and without the
fields of generations. -/
structure Report where
  status : Status := .ok
  filesystemStatus : FsStatus := .ok
  stateStatus : PackageState.Status := .ok
  repositoryFloor : UInt64 := 0
  liveFileHandles : ℕ := 0
  liveAllocations : ℕ := 0
  deriving DecidableEq

structure Memory where
  report : Report := {}
  servicing : Bool := false
  deriving DecidableEq

structure Drive where
  present : Bool
  mounted : Bool
  healthy : Bool
  readOnly : Bool
  deriving DecidableEq

structure World where
  store : Store
  drive : Drive
  heapActive : Bool
  memory : Memory

inductive Cmd
  | stat (path : Path)
  | openFile (path : Path)
  | create (path : Path) (mode : UInt16)
  | read (path : Path) (position count : ℕ)
  | write (path : Path) (position : ℕ) (bytes : Bytes)
  | close (path : Path)
  | mkdir (path : Path)
  | rename (source destination : Path)
  | unlink (path : Path)
  | sync
  | drive
  | heapActive
  | load
  | modify (f : Memory → Memory)

def Reply : Cmd → Type
  | .stat _ => Except FsStatus Stat
  | .read _ _ _ => Except FsStatus Bytes
  | .write _ _ _ => Except FsStatus ℕ
  | .drive => Drive
  | .heapActive => Bool
  | .load => Memory
  | .modify _ => Unit
  | .openFile _ | .create _ _ | .close _ | .mkdir _ | .rename _ _ | .unlink _ | .sync => FsStatus

def statusOf {α : Type} : Except FsStatus α → FsStatus
  | .ok _ => .ok
  | .error e => e

def World.mutate (w : World) : Except FsStatus Store → World
  | .ok s => { w with store := s }
  | .error _ => w

/-- The effect of a call that does not fail. -/
def step : (c : Cmd) → World → Reply c × World
  | .stat p, w => (w.store.stat p, w)
  | .openFile p, w => (statusOf (w.store.openFile p), w)
  | .create p mode, w =>
    (statusOf (w.store.create p mode), w.mutate (w.store.create p mode))
  | .read p off n, w => (w.store.read p off n, w)
  | .write p off bytes, w =>
    ((w.store.write p off bytes).map fun _ => bytes.length, w.mutate (w.store.write p off bytes))
  | .close _, w => (.ok, w)
  | .mkdir p, w => (statusOf (w.store.mkdir p), w.mutate (w.store.mkdir p))
  | .rename p q, w => (statusOf (w.store.rename p q), w.mutate (w.store.rename p q))
  | .unlink p, w => (statusOf (w.store.unlink p), w.mutate (w.store.unlink p))
  -- the changes are on the medium already
  | .sync, w => (.ok, w)
  | .drive, w => (w.drive, w)
  | .heapActive, w => (w.heapActive, w)
  | .load, w => (w.memory, w)
  | .modify f, w => ((), { w with memory := f w.memory })

/-- A status that a failing device gives: it tells nothing about the store. -/
def Device (e : FsStatus) : Prop :=
  e ≠ .ok ∧ e ≠ .notFound

instance (e : FsStatus) : Decidable (Device e) :=
  inferInstanceAs (Decidable (_ ∧ _))

def Fails : (c : Cmd) → Reply c → Prop
  | .stat _, r => ∃ e, Device e ∧ r = .error e
  | .read _ _ _, r => ∃ e, Device e ∧ r = .error e
  | .write _ _ _, r => ∃ e, Device e ∧ r = .error e
  | .drive, _ | .heapActive, _ | .load, _ | .modify _, _ => False
  | .openFile _, r | .create _ _, r | .close _, r | .mkdir _, r | .rename _ _, r
  | .unlink _, r | .sync, r => Device r

/-- The world in which the first call after a start finds the store: the drive is
online, and the memory is fresh. -/
def boot (s : Store) : World where
  store := s
  drive := ⟨true, true, true, false⟩
  heapActive := true
  memory := {}

def machine : Machine Cmd Reply World where
  step := step
  Fails := Fails

abbrev Service := Prog Cmd Reply

end OpenRFS.PackageService
