import AppUtil.Lib.Run
import AppUtil.Zip.MiniZip

/-! # `CZipTools`

The Windows branch. `CompressFile` does not look at the results of `zipOpenNewFileInZip64`, `fopen`
and `zipCloseFileInZip`, nor `Compress` at those of `TraverseFloder`, `zipOpen64` and `zipClose`. -/
namespace AppUtil.Zip
open AppUtil.Lib
set_option autoImplicit false

/-! ## `ZIP_FILE_CODE_E` and `ZIP_STATE_CODE_E` -/

def zipFileAppend : ℤ := 0
def zipFileReplace : ℤ := 1
def zipFileExit : ℤ := 2
def zipFileSkip : ℤ := 3

def zipStateErr : ℤ := -1
def zipStateFileNotFound : ℤ := -2
def zipStateFileIsExist : ℤ := -3
def zipStateIoError : ℤ := -4
def zipStateDirIsNull : ℤ := -5

def bufLen : ℕ := 16384
def maxPath : ℕ := 260

/-! ## Paths -/

/-- `substr(0, find_last_of("\\") + 1)`. -/
def upToLast (path : Path) : Path := (path.reverse.dropWhile (· ≠ '\\')).reverse

/-- `substr(find_last_of("\\") + 1)`. -/
def afterLast (path : Path) : Path := (path.reverse.takeWhile (· ≠ '\\')).reverse

/-- `substr(0, find_last_of("\\"))`. -/
def beforeLast (path : Path) : Path := if '\\' ∈ path then (upToLast path).dropLast else path

/-- `NetPathToWinPath`. -/
def netPathToWinPath (strSrc : Path) : Path := strSrc.map fun c => if c = '/' then '\\' else c

/-- `m_FolderPath`. -/
def folderPath (strPackPath : Path) : Path :=
  if strPackPath.getLast? = some '\\' then strPackPath.dropLast else strPackPath

/-- `m_FolderName`. -/
def folderName (strPackPath : Path) : Path := afterLast (folderPath strPackPath)

/-- `GetRelativePath`. -/
def getRelativePath (strPackPath strFullPath : Path) : Path :=
  strFullPath.drop ((folderPath strPackPath).length - (folderName strPackPath).length)

/-! ## Folders -/

section Folders
variable {κ σ : Type}

def isDots (name : Path) : Bool := name = ['.'] || name = ['.', '.']

/-- The loop of `TraverseFloder`. A subfolder that cannot be opened adds nothing to the list. -/
def traverseEntries (sys : System κ) (strFolderPath : Path) : Folder → List Path
  | .done => []
  | .file name _ rest => strFolderPath.child name :: traverseEntries sys strFolderPath rest
  | .subdir name below rest =>
    (if isDots name then []
      else if sys.findFirst (strFolderPath.child name) then
        traverseEntries sys (strFolderPath.child name) below
      else []) ++ traverseEntries sys strFolderPath rest

/-- `TraverseFloder`. -/
def traverseFloder (sys : System κ) (strFolderPath : Path) (folder : Folder) : List Path :=
  if sys.findFirst strFolderPath then traverseEntries sys strFolderPath folder else []

/-- `vPath`: what stands before each `\`. -/
def splitDirs (strTemp : Path) : Path → List Path
  | [] => []
  | c :: rest =>
    if c ≠ '\\' then splitDirs (strTemp ++ [c]) rest
    else strTemp :: splitDirs (strTemp ++ [c]) rest

/-- The last loop of `CreatedMultipleDirectory`. -/
def makeDirs (ops : FileOps σ) (bSuccess : Bool) : List Path → σ → Bool × σ
  | [], s => (bSuccess, s)
  | path :: rest, s =>
    if ops.accessFile s path then makeDirs ops false rest s
    else
      match ops.makeDir s path with
      | none => (false, s)
      | some s' => makeDirs ops true rest s'

/-- `CreatedMultipleDirectory`. -/
def createdMultipleDirectory (ops : FileOps σ) (szPath : Path) (s : σ) : Except Fault (Bool × σ) :=
  if szPath = [] then .error .outOfRange
  else
    let strDir := if szPath.getLast? = some '\\' then szPath else szPath ++ ['\\']
    .ok (makeDirs ops false (splitDirs [] strDir) s)

end Folders

/-! ## `Compress` -/

section Compress
variable {κ : Type} [DecidableEq κ] (sys : System κ)

/-- What the `fread`s of a file deliver, until `feof`. -/
def buffers (contents : Bytes) : List Bytes :=
  (List.range (contents.length / bufLen + 1)).map fun k => (contents.drop (k * bufLen)).take bufLen

/-- The loop of `CompressFile`, from its `k`-th pass on. -/
def compressLoop (strFullPath : Path) : ℕ → List Bytes → Handle → Except Fault (ℤ × Handle)
  | _, [], zFp => pure (zipOk, zFp)
  | k, szbuf :: rest, zFp =>
    if sys.fread strFullPath k = false then do
      let (_, zFp) ← zipCloseFileInZip sys zFp
      pure (zipStateIoError, zFp)
    else do
      let (iRet, zFp) ← zipWriteInFileInZip sys zFp k szbuf
      if iRet ≠ zipOk then do
        let (_, zFp) ← zipCloseFileInZip sys zFp
        pure (zipStateIoError, zFp)
      else compressLoop strFullPath (k + 1) rest zFp

/-- `CompressFile`. `fread` on NULL is a fault. -/
def compressFile (d : Disk κ) (zFp : Handle) (strRelPath strFullPath : Path) :
    Except Fault (ℤ × Handle) := do
  let (_, zFp) ← zipOpenNewFileInZip64 sys zFp strRelPath
  match sys.openRead d strFullPath with
  | none => .error .nullFile
  | some contents => do
    let (iRet, zFp) ← compressLoop sys strFullPath 0 (buffers contents) zFp
    let (_, zFp) ← zipCloseFileInZip sys zFp
    pure (iRet, zFp)

/-- The loop of `Compress`. -/
def archiveLoop (strSrcDir strDstDir : Path) :
    List Path → Disk κ → Handle → Except Fault (ℤ × Disk κ × Handle)
  | [], d, zFp => pure (zipOk, d, zFp)
  | strFullPath :: rest, d, zFp => do
    let (iRet, zFp) ← compressFile sys d zFp (getRelativePath strSrcDir strFullPath) strFullPath
    if iRet ≠ zipOk then do
      let (_, d, zFp) ← zipClose sys d strDstDir zFp
      pure (iRet, sys.deleteFile d strDstDir, zFp)
    else archiveLoop strSrcDir strDstDir rest d zFp

/-- What is done about a destination that exists; `none` is `ZIP_STATE_FILE_IS_EXIST`. Both tests
assign to `iFlag`. -/
def existingFile (_iFlag : ℤ) (d : Disk κ) (strDstDir : Path) : Option (OpenMode × Disk κ) :=
  let iFlag := zipFileReplace
  if iFlag ≠ 0 then some (.create, sys.deleteFile d strDstDir)
  else
    let iFlag := zipFileAppend
    if iFlag ≠ 0 then some (.addInZip, d) else none

/-- The folder of the archive is created unless it is there. -/
def prepareFolder (d : Disk κ) (strDstDir : Path) : Except Fault (Bool × Disk κ) :=
  if sys.accessFile d (upToLast strDstDir) then .ok (true, d)
  else createdMultipleDirectory sys.ops (upToLast strDstDir) d

/-- `Compress` from the `try` on. -/
def packFiles (strSrcDir strDstDir : Path) (iOpenMode : OpenMode) (vctFileList : List Path)
    (d : Disk κ) : Except Fault (ℤ × Disk κ) := do
  let (d, zFp) := zipOpen64 sys d strDstDir iOpenMode
  let (iRet, d, zFp) ← archiveLoop sys strSrcDir strDstDir vctFileList d zFp
  let (_, d, _) ← zipClose sys d strDstDir zFp
  pure (iRet, d)

/-- `Compress` of the folder that is at `strSrcDir`. -/
def compress (folder : Folder) (strSrcDir strDstDir : Option Path) (iFlag : ℤ) (d : Disk κ) :
    Except Fault (ℤ × Disk κ) :=
  match strSrcDir, strDstDir with
  | some strSrcDir, some strDstDir =>
    let vctFileList := traverseFloder sys strSrcDir folder
    if vctFileList = [] then pure (zipStateDirIsNull, d)
    else
      match if sys.accessFile d strDstDir then existingFile sys iFlag d strDstDir
        else some (.create, d) with
      | none => pure (zipStateFileIsExist, d)
      | some (iOpenMode, d) => do
        let (bSuccess, d) ← prepareFolder sys d strDstDir
        if bSuccess = false then pure (zipStateErr, d)
        else if strSrcDir = [] then .error .outOfRange
        else packFiles sys strSrcDir strDstDir iOpenMode vctFileList d
  | _, _ => pure (zipStateErr, d)

end Compress

/-! ## `UnCompress` -/

section UnCompress
variable {σ : Type} (ops : FileOps σ)

/-- An entry as the read side delivers it: the name in the archive, what stands in memory behind the
260 bytes it is read into, the buffers, and whether `unzReadCurrentFile` fails after them. -/
structure UnzEntry where
  name : Path
  beyond : Path
  buffers : List Bytes
  fails : Bool
  deriving DecidableEq, Repr

/-- `std::string(szFilePath)`: a name that fills the buffer is not terminated. -/
def UnzEntry.szFilePath (e : UnzEntry) : Path :=
  (if e.name.length < maxPath then e.name else e.name.take maxPath ++ e.beyond).takeWhile
    (· ≠ Char.ofNat 0)

/-- `strOutFilePath`. -/
def outFilePath (strZipFilePath : Path) (e : UnzEntry) : Path :=
  netPathToWinPath (strZipFilePath.child e.szFilePath)

/-- What `unzOpen64` and `unzGetGlobalInfo64` find; `entries` is `number_entry` long. -/
structure UnzFile where
  info : Bool
  entries : List UnzEntry

/-- The copy of one entry. A negative result of `unzReadCurrentFile` is not below zero as an
unsigned number: `fwrite` reads past the buffer. -/
def writeLoop (path : Path) (fails : Bool) : List Bytes → σ → Except Fault (ℤ × σ)
  | [], s => if fails then .error .overrun else .ok (zipOk, s)
  | szBuf :: rest, s =>
    let (good, s) := ops.fwrite s path szBuf
    if good then writeLoop path fails rest s else .ok (zipStateIoError, s)

/-- The folder of the file, `none` to leave the loop with the code. It is created when it is there. -/
def entryFolder (strTempFilePath : Path) (s : σ) : (Option ℤ) × σ :=
  if ops.accessFile s strTempFilePath then
    match createdMultipleDirectory ops strTempFilePath s with
    | .error _ => (some zipStateErr, s)
    | .ok (false, s) => (some zipOk, s)
    | .ok (true, s) => (none, s)
  else (none, s)

/-- The loop over the entries: the paths it deletes or opens for writing, and how it ends. -/
def unCompressLoop (strZipFilePath : Path) (iFlag : ℤ) :
    List UnzEntry → σ → List Path × Except Fault (ℤ × σ)
  | [], s => ([], .ok (zipOk, s))
  | e :: rest, s =>
    let strOutFilePath := outFilePath strZipFilePath e
    match entryFolder ops (beforeLast strOutFilePath) s with
    | (some iRet, s) => ([], .ok (iRet, s))
    | (none, s) =>
      let there := ops.accessFile s strOutFilePath
      if there ∧ iFlag = zipFileSkip then unCompressLoop strZipFilePath iFlag rest s
      else
        let s := if there then ops.deleteFile s strOutFilePath else s
        let touched := if there then [strOutFilePath, strOutFilePath] else [strOutFilePath]
        match ops.create s strOutFilePath with
        | none => (touched, .error .nullFile)
        | some s =>
          match writeLoop ops strOutFilePath e.fails e.buffers s with
          | .error f => (touched, .error f)
          | .ok (iRet, s) =>
            if iRet ≠ zipOk then (touched, .ok (iRet, s))
            else
              let (more, r) := unCompressLoop strZipFilePath iFlag rest s
              (touched ++ more, r)

/-- `UnCompress`. An archive that is there is not found. -/
def unCompress (unzOpen64 : σ → Path → Option UnzFile) (strSrcDir strDstDir : Option Path) (iFlag : ℤ)
    (s : σ) : Except Fault (ℤ × σ) :=
  match strSrcDir, strDstDir with
  | some strSrcDir, some strDstDir =>
    if ops.accessFile s strSrcDir then .ok (zipStateFileNotFound, s)
    else do
      let (bSuccess, s) ←
        if ops.accessFile s strDstDir then createdMultipleDirectory ops strDstDir s
        else pure (true, s)
      if bSuccess = false then pure (zipStateErr, s)
      else
        match unzOpen64 s strSrcDir with
        | none => pure (zipStateIoError, s)
        | some unzFp =>
          if unzFp.info = false then pure (zipStateIoError, s)
          else (unCompressLoop ops strDstDir iFlag unzFp.entries s).2
  | _, _ => .ok (zipStateErr, s)

/-- The read side on an archive of this disk. -/
def System.unzOpen64 {κ : Type} (sys : System κ) (d : Disk κ) (path : Path) : Option UnzFile :=
  match d (sys.locate path) with
  | some (.file bytes) =>
    (sys.format.delivered bytes).map fun es =>
      ⟨true, es.map fun e => ⟨e.name, [], (buffers e.contents).filter (· ≠ []), false⟩⟩
  | _ => none

end UnCompress

end AppUtil.Zip
