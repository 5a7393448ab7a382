import AppUtil.Zip.Disk

/-! # The write side of minizip

An archive that is being written: the entries closed so far, and the one that is open. A failed
`zipCloseFileInZip` leaves its entry out, or with a local header that the read side refuses. -/
namespace AppUtil.Zip
set_option autoImplicit false

def zipOk : ℤ := 0
def zipErrno : ℤ := -1
def zipParamError : ℤ := -102

/-- `zip64_internal`. -/
structure ZipFile where
  entries : List Entry
  opened : Option Entry
  deriving DecidableEq, Repr

/-- A `zipFile`. -/
inductive Handle where
  | null
  | live (z : ZipFile)
  | freed
  deriving DecidableEq, Repr

inductive OpenMode where
  | create
  | addInZip
  deriving DecidableEq, Repr

namespace ZipFile

variable {κ : Type} (sys : System κ)

def closeFileInZip (z : ZipFile) : ℤ × ZipFile :=
  match z.opened with
  | none => (zipParamError, z)
  | some e =>
    if sys.zipCloseFileInZip e.name then (zipOk, ⟨z.entries ++ [e], none⟩)
    else (zipErrno, ⟨z.entries, none⟩)

/-- An entry that is still open is closed first. -/
def closeOpened (z : ZipFile) : ℤ × ZipFile :=
  if z.opened = none then (zipOk, z) else z.closeFileInZip sys

def openNewFileInZip64 (z : ZipFile) (filename : Path) : ℤ × ZipFile :=
  let (err, z) := z.closeOpened sys
  if err ≠ zipOk then (err, z)
  else if sys.zipOpenNewFileInZip64 filename then (zipOk, { z with opened := some ⟨filename, []⟩ })
  else (zipErrno, z)

/-- The `k`-th buffer of the open entry. -/
def writeInFileInZip (z : ZipFile) (k : ℕ) (buf : Bytes) : ℤ × ZipFile :=
  match z.opened with
  | none => (zipParamError, z)
  | some e =>
    if sys.zipWriteInFileInZip e.name k then
      (zipOk, { z with opened := some ⟨e.name, e.contents ++ buf⟩ })
    else (zipErrno, z)

end ZipFile

/-- What a function of minizip does with its `zipFile`. -/
def Handle.call (zFp : Handle) (f : ZipFile → ℤ × ZipFile) : Except Fault (ℤ × Handle) :=
  match zFp with
  | .null => .ok (zipParamError, .null)
  | .live z => .ok ((f z).1, .live (f z).2)
  | .freed => .error .freed

section Calls
variable {κ : Type} [DecidableEq κ] (sys : System κ)

/-- A new archive truncates the file. -/
def zipOpen64 (d : Disk κ) (path : Path) (mode : OpenMode) : Disk κ × Handle :=
  match mode with
  | .create =>
    if d (sys.locate path) ≠ some .folder ∧ sys.zipOpen64 then
      (sys.setFile d path sys.format.draft, .live ⟨[], none⟩)
    else (d, .null)
  | .addInZip =>
    match sys.archiveAt d path with
    | some entries => if sys.zipOpen64 then (d, .live ⟨entries, none⟩) else (d, .null)
    | none => (d, .null)

def zipOpenNewFileInZip64 (zFp : Handle) (filename : Path) : Except Fault (ℤ × Handle) :=
  zFp.call fun z => z.openNewFileInZip64 sys filename

def zipWriteInFileInZip (zFp : Handle) (k : ℕ) (buf : Bytes) : Except Fault (ℤ × Handle) :=
  zFp.call fun z => z.writeInFileInZip sys k buf

def zipCloseFileInZip (zFp : Handle) : Except Fault (ℤ × Handle) :=
  zFp.call fun z => z.closeFileInZip sys

/-- The central directory is written, the file is closed and the handle is freed. -/
def zipClose (d : Disk κ) (path : Path) (zFp : Handle) : Except Fault (ℤ × Disk κ × Handle) :=
  match zFp with
  | .null => .ok (zipParamError, d, .null)
  | .live z =>
    let (err, z) := z.closeOpened sys
    if err = zipOk ∧ sys.zipClose then
      .ok (zipOk, sys.setFile d path (sys.format.pack z.entries), .freed)
    else .ok (zipErrno, sys.setFile d path sys.format.draft, .freed)
  | .freed => .error .freed

end Calls

end AppUtil.Zip
