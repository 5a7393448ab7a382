import AppUtil.Zip.ZipTools

/-! # `CArchiveExtractCallback`

The callback through which 7z.dll asks for the stream of each item, with `CreateComplexDirectory` as
`FileDir.cpp` has it. What the calls change is recorded as a list of effects. -/
namespace AppUtil.SevenZip
open AppUtil.Zip (Path beforeLast splitDirs)
set_option autoImplicit false

def sOk : ℤ := 0
def eAbort : ℤ := -2147467260
def eFail : ℤ := -2147467259

/-- `NAskMode::kExtract`. -/
def kExtract : ℤ := 0

/-! ## The file system -/

/-- What `MyCreateDirectory` and `GetLastError` tell. -/
inductive CreateResult where
  | created
  | alreadyExists
  | failed
  deriving DecidableEq, Repr

/-- The file system, whatever else changes it. `find` is `CFileInfoW::Find` with `IsDir`, and
`openAlways` is `COutFileStream::Open` with `CREATE_ALWAYS`. -/
structure FileApi (σ : Type) where
  myCreateDirectory : σ → Path → CreateResult × σ
  find : σ → Path → Option Bool
  deleteFileAlways : σ → Path → Bool × σ
  openAlways : σ → Path → Option σ

/-- Streams are told apart by the order in which they are made. -/
inductive Effect where
  | createComplexDirectory (pathName : Path)
  | myCreateDirectory (pathName : Path)
  | deleteFileAlways (name : Path)
  | openAlways (stream : ℕ) (fileName : Path)
  deriving DecidableEq, Repr

def Effect.path : Effect → Path
  | createComplexDirectory pathName => pathName
  | myCreateDirectory pathName => pathName
  | deleteFileAlways name => name
  | openAlways _ fileName => fileName

/-- `NormalizeDirPathPrefix`. -/
def normalizeDirPathPrefix (dirPath : Path) : Path :=
  if dirPath = [] then dirPath
  else if dirPath.getLast? = some '\\' then dirPath
  else dirPath ++ ['\\']

/-! ## `CreateComplexDirectory` -/

section Folders
variable {σ : Type} (api : FileApi σ)

/-- `c:\`, for which there is nothing to create. -/
def isDiskFolder (pathName : Path) : Bool :=
  pathName.length = 3 && pathName[1]? = some ':' && pathName.getLast? = some '\\'

/-- The path without a separator at its end. -/
def withoutSlash (pathName : Path) : Path :=
  if pathName.getLast? = some '\\' ∧ 1 < pathName.length then pathName.dropLast else pathName

/-- What `pathName.Left(pos)` runs through, of a path written backwards. It ends at the root of a path
and behind a drive. -/
def aboveReversed : Path → List Path
  | [] => []
  | c :: rest =>
    if c = '\\' then
      if rest = [] ∨ rest.head? = some ':' then [] else rest.reverse :: aboveReversed rest
    else aboveReversed rest

/-- A folder and those above it. -/
def outward (pathName : Path) : List Path := pathName :: aboveReversed pathName.reverse

/-- The folders from the position `pos` on down to `pathName`. -/
def inward (pos : ℕ) (pathName : Path) : List Path :=
  if pos < pathName.length then (splitDirs [] pathName).filter (pos < ·.length) ++ [pathName] else []

/-- The first loop: a value to return, or the position from which to go on. -/
def climb : List Path → σ → List Effect × Except Bool ℕ × σ
  | [], s => ([], .error false, s)
  | pathName :: above, s =>
    match api.myCreateDirectory s pathName with
    | (.created, s) => ([.myCreateDirectory pathName], .ok pathName.length, s)
    | (.alreadyExists, s) =>
      ([.myCreateDirectory pathName],
        match api.find s pathName with
        | none => .error true
        | some false => .error false
        | some true => .ok pathName.length, s)
    | (.failed, s) =>
      let (effects, r, s) := climb above s
      (.myCreateDirectory pathName :: effects, r, s)

/-- The second loop. -/
def descend : List Path → σ → List Effect × Bool × σ
  | [], s => ([], true, s)
  | pathName :: below, s =>
    match api.myCreateDirectory s pathName with
    | (.created, s) =>
      let (effects, r, s) := descend below s
      (.myCreateDirectory pathName :: effects, r, s)
    | (_, s) => ([.myCreateDirectory pathName], false, s)

/-- `CreateComplexDirectory`. -/
def createComplexDirectory (aPathName : Path) (s : σ) : List Effect × Bool × σ :=
  if isDiskFolder aPathName then ([.createComplexDirectory aPathName], true, s)
  else
    let pathName := withoutSlash aPathName
    match climb api (outward pathName) s with
    | (tried, .error r, s) => (.createComplexDirectory aPathName :: tried, r, s)
    | (tried, .ok pos, s) =>
      let (made, r, s) := descend api (inward pos pathName) s
      (.createComplexDirectory aPathName :: tried ++ made, r, s)

end Folders

/-! ## The properties of an item -/

inductive PropId where
  | path
  | attrib
  | isDir
  | mTime
  | size
  deriving DecidableEq, Repr

/-- `PROPVARIANT`; the text of a `BSTR` is the one up to its first NUL. -/
inductive PropVariant where
  | empty
  | bstr (bstrVal : Path)
  | bool (boolVal : Bool)
  | ui1 (bVal : UInt8)
  | ui2 (uiVal : UInt16)
  | ui4 (ulVal : UInt32)
  | ui8 (uhVal : UInt64)
  | filetime (filetime : UInt64)
  | other
  deriving DecidableEq, Repr

/-- `IInArchive`: for each item and property the result of `GetProperty` and the value. -/
structure InArchive where
  getProperty : UInt32 → PropId → ℤ × PropVariant

/-- `CProcessedFileInfo`. -/
structure ProcessedFileInfo where
  mTime : UInt64
  attrib : UInt32
  isDir : Bool
  attribDefined : Bool
  mTimeDefined : Bool
  deriving DecidableEq, Repr

/-- How a callback ends early. -/
inductive Stop where
  | result (hr : ℤ)
  | thrown (code : ℤ)
  deriving DecidableEq, Repr

section Properties
variable (archive : InArchive) (index : UInt32)

/-- What is read into `_processedFileInfo`. -/
abbrev Reading := ExceptT Stop (StateM ProcessedFileInfo)

/-- `RINOK(GetProperty(...))`. -/
def getProperty (propID : PropId) : Except Stop PropVariant :=
  let (hr, prop) := archive.getProperty index propID
  if hr ≠ sOk then .error (.result hr) else .ok prop

def readPath : Except Stop Path := do
  match ← getProperty archive index .path with
  | .empty => pure "[Content]".toList
  | .bstr bstrVal => pure bstrVal
  | _ => .error (.result eFail)

def readAttrib : Reading Unit := do
  match ← getProperty archive index .attrib with
  | .empty => modify fun info => { info with attrib := 0, attribDefined := false }
  | .ui4 ulVal => modify fun info => { info with attrib := ulVal, attribDefined := true }
  | _ => throw (.result eFail)

/-- `IsArchiveItemFolder`. -/
def isArchiveItemFolder : Except Stop Bool := do
  match ← getProperty archive index .isDir with
  | .bool boolVal => pure boolVal
  | .empty => pure false
  | _ => .error (.result eFail)

def readIsDir : Reading Unit := do
  let isDir ← isArchiveItemFolder archive index
  modify fun info => { info with isDir := isDir }

def readMTime : Reading Unit := do
  let prop ← getProperty archive index .mTime
  modify fun info => { info with mTimeDefined := false }
  match prop with
  | .empty => pure ()
  | .filetime filetime => modify fun info => { info with mTime := filetime, mTimeDefined := true }
  | _ => throw (.result eFail)

/-- `ConvertPropVariantToUInt64`. -/
def convertPropVariantToUInt64 : PropVariant → Except Stop UInt64
  | .ui1 bVal => .ok bVal.toUInt64
  | .ui2 uiVal => .ok uiVal.toUInt64
  | .ui4 ulVal => .ok ulVal.toUInt64
  | .ui8 uhVal => .ok uhVal
  | _ => .error (.thrown 151199)

/-- The size of the item; nothing uses it. -/
def readSize : Except Stop (Option UInt64) := do
  let prop ← getProperty archive index .size
  if prop = .empty then pure none
  else
    let newFileSize ← convertPropVariantToUInt64 prop
    pure (some newFileSize)

def readInfo : Reading Unit := do
  readAttrib archive index
  readIsDir archive index
  readMTime archive index
  let _ ← readSize archive index

end Properties

/-! ## `GetStream` -/

/-- `CArchiveExtractCallback`; `streams` is how many `COutFileStream`s it has made. The stream that
`outFileStreamSpec` points to need not live any more. -/
structure ExtractCallback where
  directoryPath : Path
  filePath : Path
  diskFilePath : Path
  processedFileInfo : ProcessedFileInfo
  outFileStreamSpec : Option ℕ
  outFileStream : Option ℕ
  streams : ℕ
  deriving DecidableEq, Repr

/-- What a callback did and how it ended; where it returns `S_OK`, with the `*outStream` it hands out. -/
structure Outcome (σ : Type) where
  effects : List Effect
  result : Except Stop (Option ℕ)
  callback : ExtractCallback
  files : σ

namespace ExtractCallback

/-- `Init`. -/
def init (directoryPath : Path) (cb : ExtractCallback) : ExtractCallback :=
  { cb with directoryPath := normalizeDirPathPrefix directoryPath }

variable {σ : Type} (api : FileApi σ)

/-- The file of the item, in place of one that is there. -/
def openOutput (fullProcessedPath : Path) (cb : ExtractCallback) (s : σ) : Outcome σ :=
  let (deleted, fine, s) :=
    if (api.find s fullProcessedPath).isSome then
      let (fine, s) := api.deleteFileAlways s fullProcessedPath
      ([Effect.deleteFileAlways fullProcessedPath], fine, s)
    else ([], true, s)
  if fine = false then ⟨deleted, .error (.result eAbort), cb, s⟩
  else
    let stream := cb.streams
    let cb := { cb with outFileStreamSpec := some stream, streams := stream + 1 }
    let effects := deleted ++ [.openAlways stream fullProcessedPath]
    match api.openAlways s fullProcessedPath with
    | none => ⟨effects, .error (.result eAbort), cb, s⟩
    | some s => ⟨effects, .ok (some stream), { cb with outFileStream := some stream }, s⟩

/-- The folder part of the name. -/
def createFolders (cb : ExtractCallback) (s : σ) : List Effect × σ :=
  if '\\' ∈ cb.filePath then
    let (effects, _, s) := createComplexDirectory api (cb.directoryPath ++ beforeLast cb.filePath) s
    (effects, s)
  else ([], s)

/-- `GetStream` from where the properties are read. -/
def createItem (cb : ExtractCallback) (s : σ) : Outcome σ :=
  let (folders, s) := cb.createFolders api s
  let fullProcessedPath := cb.directoryPath ++ cb.filePath
  let cb := { cb with diskFilePath := fullProcessedPath }
  if cb.processedFileInfo.isDir then
    let (effects, _, s) := createComplexDirectory api fullProcessedPath s
    ⟨folders ++ effects, .ok none, cb, s⟩
  else
    let o := cb.openOutput api fullProcessedPath s
    { o with effects := folders ++ o.effects }

/-- `GetStream`. -/
def getStream (archive : InArchive) (index : UInt32) (askExtractMode : ℤ) (cb : ExtractCallback)
    (s : σ) : Outcome σ :=
  let cb := { cb with outFileStream := none }
  match readPath archive index with
  | .error stop => ⟨[], .error stop, cb, s⟩
  | .ok fullPath =>
    let cb := { cb with filePath := fullPath }
    if askExtractMode ≠ kExtract then ⟨[], .ok none, cb, s⟩
    else
      match (readInfo archive index).run.run cb.processedFileInfo with
      | (.error stop, info) => ⟨[], .error stop, { cb with processedFileInfo := info }, s⟩
      | (.ok (), info) => createItem api { cb with processedFileInfo := info } s

end ExtractCallback

end AppUtil.SevenZip
