import AppUtil.Lib.Logged
import AppUtil.SevenZip.ZipLib

/-! # The callbacks of an extraction

For each item 7z.dll calls `GetStream`, `PrepareOperation` with the same mode, `SetCompleted` any
number of times, and `SetOperationResult`; it stops at the first that fails. -/
namespace AppUtil.SevenZip
open AppUtil.Lib
open AppUtil.Zip (Path)
set_option autoImplicit false

def sFalse : ℤ := 1

/-- `NOperationResult::kOK`. -/
def kOk : ℤ := 0

/-- The file system with what is done to a `COutFileStream` after it was opened, and `m_pfnCB`, `none`
for NULL. -/
structure StreamApi (σ : Type) extends FileApi σ where
  setMTime : σ → ℕ → UInt64 → σ
  close : σ → ℕ → ℤ × σ
  mySetFileAttributes : σ → Path → UInt32 → σ
  progress : Option (σ → UInt64 → UInt64 → ℤ × σ)

/-- What the callbacks do. `opened` stands for an `Open` that succeeds, and `hr` is what `Close` returns. -/
inductive Act where
  | effect (e : Effect)
  | opened (stream : ℕ)
  | setMTime (stream : ℕ) (mTime : UInt64)
  | close (stream : ℕ) (hr : ℤ)
  | setFileAttributes (fileName : Path) (attrib : UInt32)
  deriving DecidableEq, Repr

/-- The callback with the members that `GetStream` does not use, and the files. -/
structure Session (σ : Type) where
  callback : ExtractCallback
  extractMode : Bool
  numErrors : ℕ
  uiTotal : UInt64
  files : σ

/-- An item as the handler treats it: `writes` is what it writes to the stream. -/
structure Item (σ : Type) where
  index : UInt32
  askExtractMode : ℤ
  writes : σ → σ
  completed : List UInt64
  operationResult : ℤ

namespace Session

variable {σ : Type}

/-- A new `CArchiveExtractCallback` after `Init`. -/
def start (directoryPath : Path) (files : σ) : Session σ where
  callback := ExtractCallback.init directoryPath ⟨[], [], [], ⟨0, 0, false, false, false⟩, none, none, 0⟩
  extractMode := false
  numErrors := 0
  uiTotal := 0
  files := files

variable (api : StreamApi σ) (archive : InArchive)

/-- `SetTotal`. -/
def setTotal (size : UInt64) (x : Session σ) : Session σ := { x with uiTotal := size }

/-- `SetCompleted`. -/
def setCompleted (x : Session σ) (completeValue : UInt64) : Except Stop (Session σ) :=
  match api.progress with
  | none => .ok x
  | some pfnCB =>
    let (iRet, files) := pfnCB x.files x.uiTotal completeValue
    if iRet < 0 then .error (.result sFalse) else .ok { x with files := files }

/-- `GetStream`. -/
def getStream (index : UInt32) (askExtractMode : ℤ) (x : Session σ) : Logged Act Stop (Session σ) :=
  let o := x.callback.getStream api.toFileApi archive index askExtractMode x.files
  let opened := match o.result with
    | .ok (some stream) => [.opened stream]
    | _ => []
  ⟨o.effects.map .effect ++ opened,
    o.result.map fun _ => { x with callback := o.callback, files := o.files }⟩

/-- `PrepareOperation`. -/
def prepareOperation (askExtractMode : ℤ) (x : Session σ) : Session σ :=
  { x with extractMode := askExtractMode = kExtract }

/-- What `SetOperationResult` does with the stream. -/
def closeStream (x : Session σ) : Logged Act Stop (Session σ) :=
  match x.callback.outFileStream, x.callback.outFileStreamSpec with
  | some _, some stream => do
    let info := x.callback.processedFileInfo
    let x ←
      if info.mTimeDefined then
        Logged.step (.setMTime stream info.mTime)
          (.ok { x with files := api.setMTime x.files stream info.mTime })
      else pure x
    let (hr, files) := api.close x.files stream
    Logged.step (.close stream hr) (if hr ≠ sOk then .error (.result hr) else .ok { x with files := files })
  | _, _ => pure x

/-- `SetOperationResult`. -/
def setOperationResult (operationResult : ℤ) (x : Session σ) : Logged Act Stop (Session σ) := do
  let x := if operationResult = kOk then x else { x with numErrors := x.numErrors + 1 }
  let x ← closeStream api x
  let x := { x with callback := { x.callback with outFileStream := none } }
  let info := x.callback.processedFileInfo
  let diskFilePath := x.callback.diskFilePath
  if x.extractMode ∧ info.attribDefined then
    Logged.step (.setFileAttributes diskFilePath info.attrib)
      (.ok { x with files := api.mySetFileAttributes x.files diskFilePath info.attrib })
  else pure x

/-- The callbacks for one item. -/
def treatItem (item : Item σ) (x : Session σ) : Logged Act Stop (Session σ) := do
  let x ← getStream api archive item.index item.askExtractMode x
  let x := prepareOperation item.askExtractMode x
  let x := { x with files := item.writes x.files }
  let x ← Logged.lift (item.completed.foldlM (setCompleted api) x)
  setOperationResult api item.operationResult x

/-- The callbacks for all items, each act with the number of its item. -/
def drive : ℕ → List (Item σ) → Session σ → Logged (ℕ × Act) Stop (Session σ)
  | _, [], x => pure x
  | i, item :: rest, x => do
    let x ← (treatItem api archive item x).mapLog (i, ·)
    drive (i + 1) rest x

end Session

/-! ## `UnCompress` -/

def errorOk : ℤ := 0
def errorLoad7zFiald : ℤ := 0x10001
def errorCreateobjectFiald : ℤ := 0x10002
def errorGetobjectFiald : ℤ := 0x10003
def errorOpenarchiveFaild : ℤ := 0x10004
def errorExtractFaild : ℤ := 0x10005
def errorExparamWarn : ℤ := 0x1001E

/-- 7z.dll and the archive, as far as it gets: `none` where an archive cannot be opened. -/
structure Library (σ : Type) where
  load : Bool
  getProc : Bool
  createObject : Bool
  openFile : σ → Path → Bool
  openArchive : σ → Path → Option (InArchive × UInt64 × List (Item σ))

/-- The files when the output folder has been seen to. -/
def outputFolder {σ : Type} (api : StreamApi σ) (uncompressName : Path) (files : σ) : σ :=
  if (api.find files uncompressName).isSome then files
  else (createComplexDirectory api.toFileApi uncompressName files).2.2

/-- `UnCompress`. `Extract` returns what a callback returned that failed, else `S_OK`. -/
def unCompress {σ : Type} (api : StreamApi σ) (lib : Library σ) (strPak strName : Path) (files : σ) :
    Except Stop ℤ :=
  if lib.load = false then .ok errorLoad7zFiald
  else if lib.getProc = false then .ok errorCreateobjectFiald
  else
    let files := outputFolder api strName files
    if lib.createObject = false then .ok errorGetobjectFiald
    else if lib.openFile files strPak = false then .ok errorOpenarchiveFaild
    else
      match lib.openArchive files strPak with
      | none => .ok errorOpenarchiveFaild
      | some (archive, total, items) =>
        let iRet := if api.progress.isNone then errorExparamWarn else errorOk
        match (Session.drive api archive 0 items ((Session.start strName files).setTotal total)).result with
        | .error (.thrown code) => .error (.thrown code)
        | .error (.result _) => .ok errorExtractFaild
        | .ok _ => .ok iRet

end AppUtil.SevenZip
