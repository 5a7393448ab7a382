import Mathlib.Data.Int.Notation
import Mathlib.Data.Nat.Notation
import Mathlib.Logic.Function.Basic

/-! # What `CZipTools` works on

A folder as it is enumerated, the disk, and the calls that can fail. Files are lists of bytes; where
a path leads is the file system's own affair, and so is which bytes an archive is made of. -/
namespace AppUtil.Zip
set_option autoImplicit false

abbrev Path := List Char

abbrev Bytes := List UInt8

/-- `path\name`. -/
def Path.child (path name : Path) : Path := path ++ '\\' :: name

/-- What `_findfirst` and `_findnext` find in a folder, one entry after the other. -/
inductive Folder where
  | done
  | file (name : Path) (contents : Bytes) (rest : Folder)
  | subdir (name : Path) (below rest : Folder)
  deriving Repr

/-- Every regular file below the folder at `path`, at any depth. -/
def Folder.files (path : Path) : Folder → List (Path × Bytes)
  | .done => []
  | .file name contents rest => (path.child name, contents) :: rest.files path
  | .subdir name below rest => below.files (path.child name) ++ rest.files path

inductive Node where
  | file (bytes : Bytes)
  | folder
  deriving DecidableEq, Repr

/-- What stands at each place of the disk. -/
abbrev Disk (κ : Type) := κ → Option Node

/-- An entry of an archive: its name and what was packed under it. -/
structure Entry where
  name : Path
  contents : Bytes
  deriving DecidableEq, Repr

/-- The archive format. `draft` is what is in an archive that was not closed, or not without an error.
Other entries are packed into other bytes, so that these tell what was packed: `entriesIn` is no call of
minizip. `delivered` is what its read side makes of them, of which nothing is promised. -/
structure ZipFormat where
  pack : List Entry → Bytes
  draft : Bytes
  entriesIn : Bytes → Option (List Entry)
  delivered : Bytes → Option (List Entry)
  entriesIn_pack : ∀ es, entriesIn (pack es) = some es
  entriesIn_draft : entriesIn draft = none

/-- Where paths lead, and for each call whether it succeeds: for a file by its path, for an entry by
its name, for a buffer by its number as well. -/
structure System (κ : Type) where
  format : ZipFormat
  locate : Path → κ
  findFirst : Path → Bool
  makeDir : Path → Bool
  fopen : Path → Bool
  fread : Path → ℕ → Bool
  zipOpen64 : Bool
  zipOpenNewFileInZip64 : Path → Bool
  zipWriteInFileInZip : Path → ℕ → Bool
  zipCloseFileInZip : Path → Bool
  zipClose : Bool

inductive Fault where
  | outOfRange
  | nullFile
  | freed
  | overrun
  deriving DecidableEq, Repr

/-- The file system as `UnCompress` sees it, whatever else changes it. `create` is `fopen` for
writing, and `fwrite` tells whether `ferror` stays clear. -/
structure FileOps (σ : Type) where
  accessFile : σ → Path → Bool
  deleteFile : σ → Path → σ
  makeDir : σ → Path → Option σ
  create : σ → Path → Option σ
  fwrite : σ → Path → Bytes → Bool × σ

namespace System

variable {κ : Type} [DecidableEq κ] (sys : System κ)

/-- `DTK_AccessFile` with `DTK_F_OK`. -/
def accessFile (d : Disk κ) (path : Path) : Bool := (d (sys.locate path)).isSome

/-- `DTK_DeleteFile`, whose result nobody looks at. -/
def deleteFile (d : Disk κ) (path : Path) : Disk κ :=
  match d (sys.locate path) with
  | some (.file _) => Function.update d (sys.locate path) none
  | _ => d

/-- `DTK_MakeDir`; `none` is a negative result. -/
def mkDir (d : Disk κ) (path : Path) : Option (Disk κ) :=
  if d (sys.locate path) = none ∧ sys.makeDir path then
    some (Function.update d (sys.locate path) (some .folder))
  else none

def setFile (d : Disk κ) (path : Path) (bytes : Bytes) : Disk κ :=
  Function.update d (sys.locate path) (some (.file bytes))

/-- `fopen` for reading, and what there is to read; `none` is NULL. -/
def openRead (d : Disk κ) (path : Path) : Option Bytes :=
  match d (sys.locate path) with
  | some (.file bytes) => if sys.fopen path then some bytes else none
  | _ => none

/-- `fopen` for writing. -/
def openWrite (d : Disk κ) (path : Path) : Option (Disk κ) :=
  if d (sys.locate path) ≠ some .folder ∧ sys.fopen path then some (sys.setFile d path []) else none

/-- `fwrite` at the end of the file. -/
def append (d : Disk κ) (path : Path) (bytes : Bytes) : Bool × Disk κ :=
  match d (sys.locate path) with
  | some (.file old) => (true, sys.setFile d path (old ++ bytes))
  | _ => (false, d)

def ops : FileOps (Disk κ) where
  accessFile := sys.accessFile
  deleteFile := sys.deleteFile
  makeDir := sys.mkDir
  create := sys.openWrite
  fwrite := sys.append

/-- The entries that are in the archive at `path`. -/
def archiveAt (d : Disk κ) (path : Path) : Option (List Entry) :=
  match d (sys.locate path) with
  | some (.file bytes) => sys.format.entriesIn bytes
  | _ => none

/-- The folder at `path` is on the disk. -/
def Holds (d : Disk κ) (path : Path) (folder : Folder) : Prop :=
  ∀ p contents, (p, contents) ∈ folder.files path → d (sys.locate p) = some (.file contents)

end System

end AppUtil.Zip
