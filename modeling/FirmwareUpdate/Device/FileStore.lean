import FirmwareUpdate.Action
import FirmwareUpdate.Bytes
import FirmwareUpdate.Device.Flash

/-! A file system with a fixed number of handles. Opening needs a mounted store; the other calls
need a handle that is open. -/
namespace FirmwareUpdate

/-- What a file is opened for. -/
inductive FileMode where
  | read
  | readWrite
  deriving DecidableEq, Repr

/-- Handles that can be open at the same time. -/
def handleCount : Nat := 4

/-- Files by path, each path once. A handle is the path it was opened on. The records of writes,
newest first, hold offsets in their file. -/
structure FileStore where
  granule : Nat
  files : List (String × Bytes) := []
  handles : Vector (Option String) handleCount := Vector.replicate handleCount none
  mounted : Bool := false
  writes : List WriteEntry := []
  closes : Nat := 0
  deriving DecidableEq

namespace FileStore

def file? (s : FileStore) (path : String) : Option Bytes := s.files.lookup path

/-- Gives `path` the contents in place of those it had. -/
def putFile : List (String × Bytes) → String → Bytes → List (String × Bytes)
  | [], path, contents => [(path, contents)]
  | (p, c) :: rest, path, contents =>
    if p = path then (path, contents) :: rest else (p, c) :: putFile rest path contents

def setFile (s : FileStore) (path : String) (contents : Bytes) : FileStore :=
  { s with files := putFile s.files path contents }

/-- Inverts every bit of one byte of a file that is long enough. -/
def flipFile? (s : FileStore) (path : String) (offset : Nat) : Option FileStore := do
  let contents ← s.file? path
  let byte ← contents[offset]?
  return s.setFile path (contents.set offset (~~~byte))

def truncateFile (s : FileStore) (path : String) (length : Nat) : FileStore :=
  match s.file? path with
  | none => s
  | some contents => s.setFile path (contents.take length)

def openCount (s : FileStore) : Nat := s.handles.toList.countP Option.isSome

/-- Calls on the store. -/
abbrev Call := Action FileStore DeviceError

def init : Call Unit := modify fun s => { s with mounted := true }

/-- Every handle is lost. -/
def release : Call Unit := modify fun s =>
  { s with mounted := false, handles := Vector.replicate handleCount none }

/-- Gives out the first free handle. -/
def takeHandle (path : String) : Call Nat := do
  let s ← get
  match s.handles.findFinIdx? Option.isNone with
  | none => Action.fail .tooManyOpenFiles
  | some handle => do
    set { s with handles := s.handles.set handle (some path) }
    return handle

/-- A missing file is created in the mode that allows writing, before a handle is looked for. -/
def openFile (path : String) (mode : FileMode) : Call Nat := do
  let s ← get
  if s.mounted then
    match s.file? path, mode with
    | some _, _ => takeHandle path
    | none, .read => Action.fail .fileNotFound
    | none, .readWrite => do
      set (s.setFile path [])
      takeHandle path
  else Action.fail .notInitialized

def handlePath (handle : Nat) : Call String := do
  match (← get).handles[handle]? with
  | some (some path) => return path
  | _ => Action.fail .invalidParameter

/-- The path of a handle and the contents of its file. -/
def fileOf (handle : Nat) : Call (String × Bytes) := do
  let path ← handlePath handle
  match (← get).file? path with
  | some contents => return (path, contents)
  | none => Action.fail .fileNotFound

/-- Up to `length` bytes; fewer where the file ends. -/
def read (handle offset length : Nat) : Call Bytes := do
  let (_, contents) ← fileOf handle
  return Bytes.slice contents offset length

/-- Overwrites from `offset` on; a gap before it is filled with erased bytes. -/
def write (handle offset : Nat) (data : Bytes) : Call Unit := do
  let (path, contents) ← fileOf handle
  modify fun s =>
    { s.setFile path (Bytes.splice (Bytes.extend contents (offset + data.length)) offset data) with
      writes := ⟨offset, data⟩ :: s.writes }

/-- Erases a range, extending the file to its end. -/
def erase (handle offset length : Nat) : Call Unit := do
  let (path, contents) ← fileOf handle
  modify fun s =>
    s.setFile path
      (Bytes.splice (Bytes.extend contents (offset + length)) offset (Bytes.blank length))

def close (handle : Nat) : Call Unit := do
  let _ ← handlePath handle
  modify fun s =>
    { s with handles := s.handles.setIfInBounds handle none, closes := s.closes + 1 }

end FileStore
end FirmwareUpdate
