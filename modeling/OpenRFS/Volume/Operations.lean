import OpenRFS.Volume.Store

/-!
# Operations on a volume

The operations of the virtual filesystem that the package service calls, as
functions of the store. An operation that fails leaves the store as it is, so a
mutation is a function into `Except FsStatus Store`. Every operation refuses a
path that the filesystem does not accept before it looks at the store.

The service opens a file, uses the handle in one function and closes it there,
and no file changes its name meanwhile. A handle is therefore the path it was
opened at, and its position is an argument of the read or the write.
-/

namespace OpenRFS.Volume

open Codec

structure Stat where
  size : ℕ
  objectId : ℕ
  mode : UInt16
  links : UInt16
  directory : Bool
  deriving DecidableEq

def Node.stat : Node → Stat
  | .directory => ⟨0, 0, 0, 1, true⟩
  | .file f => ⟨f.bytes.length, f.objectId, f.mode, f.links, false⟩

def File.write (f : File) (off : ℕ) (bytes : Bytes) : File :=
  { f with bytes := f.bytes.take off ++ bytes ++ f.bytes.drop (off + bytes.length) }

def File.append (f : File) (bytes : Bytes) : File :=
  { f with bytes := f.bytes ++ bytes }

theorem File.write_length (f : File) (bytes : Bytes) :
    f.write f.bytes.length bytes = f.append bytes := by
  simp [File.write, File.append]

@[simp] theorem File.append_nil (f : File) : f.append [] = f := by
  simp [File.append]

@[simp] theorem File.append_append (f : File) (a b : Bytes) :
    (f.append a).append b = f.append (a ++ b) := by
  simp [File.append]

/-- Refuses a path that the filesystem does not accept. -/
def checkPath {α : Type} (p : Path) (x : Except FsStatus α) : Except FsStatus α :=
  if pathStatus p = .ok then x else .error (pathStatus p)

namespace Store

def stat (s : Store) (p : Path) : Except FsStatus Stat :=
  checkPath p <|
    match s.get? p with
    | none => .error .notFound
    | some n => .ok n.stat

def openFile (s : Store) (p : Path) : Except FsStatus Unit :=
  checkPath p <|
    match s.get? p with
    | none => .error .notFound
    | some .directory => .error .isDirectory
    | some (.file _) => .ok ()

def read (s : Store) (p : Path) (off n : ℕ) : Except FsStatus Bytes :=
  match s.get? p with
  | some (.file f) => .ok (slice f.bytes off n)
  | _ => .error .staleHandle

def write (s : Store) (p : Path) (off : ℕ) (bytes : Bytes) : Except FsStatus Store :=
  match h : s.get? p with
  | some (.file f) => .ok (s.setFile p (f.write off bytes) h)
  | _ => .error .staleHandle

def parentStatus (s : Store) (p : Path) : FsStatus :=
  if s.get? p.dropLast = none then .notFound else .notDirectory

def add (s : Store) (p : Path) (n : Node) : Except FsStatus Store :=
  checkPath p <|
    if hnew : s.get? p = none then
      if hready : pathStatus p = .ok ∧ s.parentReady p then
        .ok (s.insert p n hready.1 hnew hready.2)
      else .error (s.parentStatus p)
    else .error .entryExists

def create (s : Store) (p : Path) (mode : UInt16) : Except FsStatus Store :=
  s.add p (.file ⟨mode, 1, s.nextObject, []⟩)

def mkdir (s : Store) (p : Path) : Except FsStatus Store :=
  s.add p .directory

def rename (s : Store) (p q : Path) : Except FsStatus Store :=
  checkPath p <| checkPath q <|
    match h : s.get? p with
    | none => .error .notFound
    | some .directory => .error .isDirectory
    | some (.file _) =>
      if hnew : s.get? q = none then
        if hready : pathStatus q = .ok ∧ s.parentReady q then
          .ok (s.move p q h hready.1 hnew hready.2)
        else .error (s.parentStatus q)
      else .error .entryExists

def unlink (s : Store) (p : Path) : Except FsStatus Store :=
  checkPath p <|
    match h : s.get? p with
    | none => .error .notFound
    | some .directory => .error .isDirectory
    | some (.file _) => .ok (s.erase p (childless_of_file h))

end Store

end OpenRFS.Volume
