import AppUtil.SevenZip.Callback
import AppUtil.Zip.Traversal

/-! # `Compress`

The list of the files, and what is handed to `UpdateItems`. The texts are those that `GetAnsiString` and
`GetUnicodeString` leave as they are. -/
namespace AppUtil.SevenZip
open AppUtil.Zip (Path Folder afterLast beforeLast isDots)
set_option autoImplicit false

/-- What is not archived. -/
def svn : Path := ['.', 's', 'v', 'n']

structure FileInfo where
  attrib : UInt32
  size : UInt64
  cTime : UInt64
  aTime : UInt64
  mTime : UInt64
  deriving DecidableEq, Repr

/-- `CDirItem`. -/
structure DirItem extends FileInfo where
  name : Path
  fullPath : Path
  deriving DecidableEq, Repr

/-- What `FileFind.cpp` sees of the disk. A path denotes a place, which is told by the names on the way
to it; `path\*` looks there. `items` are those that are delivered, and `find` is `CFileInfoW::Find`. -/
structure FileFind where
  place : Path → List Path
  opens : List Path → Bool
  items : List Path → Folder
  find : Path → Option FileInfo

/-- `strFileName` in the folder, if there is one. -/
def inFolder (strFolderPath strFileName : Path) : Path :=
  if strFolderPath = [] then strFileName else strFolderPath.child strFileName

/-! ## `TraverseFloder` -/

section Traverse
variable (os : FileFind)

/-- The loop of `TraverseFloder`. It begins with `FindNext`: where `first` is set the item is the one that
`FindFirst` has delivered. -/
def traverseItems (strFolderPath : Path) : Bool → Path → Folder → List Path
  | _, _, .done => []
  | first, strFileName, .file name _ rest =>
    (if first ∨ name = svn then [] else [strFileName.child name]) ++
      traverseItems strFolderPath false strFileName rest
  | first, strFileName, .subdir name below rest =>
    (if first ∨ isDots name ∨ name = svn then []
      else if os.opens (os.place (inFolder strFolderPath (strFileName.child name))) then
        traverseItems strFolderPath true (strFileName.child name) below
      else []) ++ traverseItems strFolderPath false strFileName rest

/-- `TraverseFloder`: what it adds to the list, `none` where it returns -1. -/
def traverseFloder (strFileName strFolderPath : Path) : Option (List Path) :=
  let place := os.place (inFolder strFolderPath strFileName)
  if os.opens place = false then none
  else
    match os.items place with
    | .done => none
    | folder => some (traverseItems os strFolderPath true strFileName folder)

/-- `dirItems`: `none` where a file of the list is not found. -/
def dirItems (strFolderPath : Path) : List Path → Option (List DirItem)
  | [] => some []
  | file :: vecFilelist => do
    let name := inFolder strFolderPath file
    let fi ← os.find name
    let items ← dirItems strFolderPath vecFilelist
    pure ({ toFileInfo := fi, name := file, fullPath := name } :: items)

end Traverse

/-! ## `Compress` -/

def errorCompressFaild : ℤ := 0x10006
def errorFolederFaild : ℤ := 0x10007
def errorFindfileFaild : ℤ := 0x10008
def errorCreatearchiveFaild : ℤ := 0x10009
def errorHasfilesFaild : ℤ := 0x1000A
def errorNotSupport : ℤ := 0x1000B

/-- 7z.dll and the archive: `setProperties` is `none` where there is no `ISetProperties`, and
`updateItems` tells also how many files could not be opened. -/
structure Packer where
  load : Bool
  getProc : Bool
  create : Path → Bool
  createObject : Bool
  setProperties : Option ℤ
  updateItems : List DirItem → ℤ × ℕ

/-- `strFolderPath`. -/
def strFolderPath (strPak : Path) : Path := if '\\' ∈ strPak then beforeLast strPak else []

/-- `strFileName`. -/
def strFileName (strPak : Path) : Path := afterLast strPak

/-- `Compress`, with the items handed to `UpdateItems` where it comes to that. -/
def compress (os : FileFind) (packer : Packer) (strPak strName : Path) : Option (List DirItem) × ℤ :=
  if packer.load = false then (none, errorLoad7zFiald)
  else if packer.getProc = false then (none, errorCreateobjectFiald)
  else
    match traverseFloder os (strFileName strPak) (strFolderPath strPak) with
    | none => (none, errorFolederFaild)
    | some vecFilelist =>
      match dirItems os (strFolderPath strPak) vecFilelist with
      | none => (none, errorFindfileFaild)
      | some items =>
        if packer.create strName = false then (none, errorCreatearchiveFaild)
        else if packer.createObject = false then (none, errorGetobjectFiald)
        else
          match packer.setProperties with
          | none => (none, errorNotSupport)
          | some hr =>
            if hr ≠ sOk then (none, hr)
            else
              let (result, failedFiles) := packer.updateItems items
              (some items,
                if result ≠ sOk then errorCompressFaild
                else if failedFiles ≠ 0 then errorHasfilesFaild
                else errorOk)

/-- Nothing but the files decides what is handed over. -/
structure Packer.Ready (packer : Packer) (strName : Path) : Prop where
  load : packer.load = true
  getProc : packer.getProc = true
  create : packer.create strName = true
  createObject : packer.createObject = true
  setProperties : packer.setProperties = some sOk

theorem compress_handed {os : FileFind} {packer : Packer} {strPak strName : Path}
    (h : packer.Ready strName) : (compress os packer strPak strName).1 =
      (traverseFloder os (strFileName strPak) (strFolderPath strPak)).bind
        (dirItems os (strFolderPath strPak)) := by
  obtain ⟨hload, hproc, hcreate, hobject, hprop⟩ := h
  unfold compress
  rw [hload, hproc, hcreate, hobject, hprop]
  simp only [Bool.true_eq_false, if_false, ne_eq, not_true_eq_false]
  cases traverseFloder os (strFileName strPak) (strFolderPath strPak) with
  | none => rfl
  | some vecFilelist =>
    dsimp only [Option.bind_some]
    cases dirItems os (strFolderPath strPak) vecFilelist <;> rfl

end AppUtil.SevenZip
