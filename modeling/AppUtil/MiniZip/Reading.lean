import AppUtil.Lib.BackSearch
import AppUtil.MiniZip.Writing
import AppUtil.Zip.ZipTools

/-! # `unzip.c`

What `UnCompress` calls of the read side, on the bytes of a file. Each function sets the position before
it reads, so that a read is a reader on the rest of the file from there. Seeks and allocations succeed.
A block that runs past the end of the file is not read, a number that does is: `unz64local_getByte` answers
`UNZ_EOF` there, which is `UNZ_OK`. -/
namespace AppUtil.MiniZip
open AppUtil.Lib
open AppUtil.Zip (Bytes)
set_option autoImplicit false

def unzOk : ℤ := 0
def unzEof : ℤ := 0
def unzErrno : ℤ := -1
def unzEndOfListOfFile : ℤ := -100
def unzParamError : ℤ := -102
def unzBadZipFile : ℤ := -103
def unzCrcError : ℤ := -105

def unzBufSize : ℕ := 16384
def bufReadComment : ℕ := 0x400
def sizeCentralDirItem : ℕ := 0x2e
def sizeZipLocalHeader : ℕ := 0x1e
def zBzip2ed : ℕ := 12

/-! ## Numbers -/

/-- `unz64local_getByte`, with what `*pi` was. At the end of the file it is left alone. -/
def getByte (pi : UInt8) : Reader UInt8 := fun rest =>
  match rest with
  | [] => some (pi, [])
  | c :: rest => some (c, rest)

/-- `n` calls of `getByte` with the same `i`. -/
def getBytes : ℕ → UInt8 → Reader Bytes
  | 0, _ => pure []
  | n + 1, i => do
    let i ← getByte i
    let bs ← getBytes n i
    return i :: bs

/-- `unz64local_getShort`, `unz64local_getLong` and `unz64local_getLong64`. -/
def getNumber (n : ℕ) : Reader ℕ := do
  let bs ← getBytes n 0
  return ofBytes bs

def getShort : Reader ℕ := getNumber 2
def getLong : Reader ℕ := getNumber 4
def getLong64 : Reader ℕ := getNumber 8

theorem run_getBytes {n : ℕ} {bs : Bytes} (h : bs.length = n) (i : UInt8) (rest : Bytes) :
    (getBytes n i).run (bs ++ rest) = some (bs, rest) := by
  induction bs generalizing n i with
  | nil =>
    obtain rfl : 0 = n := h
    rfl
  | cons b bs ih =>
    obtain rfl : bs.length + 1 = n := h
    have hbyte : (getByte i).run (b :: (bs ++ rest)) = some (b, bs ++ rest) := rfl
    rw [getBytes, List.cons_append, Reader.run_bind_of_some hbyte, Reader.run_bind_of_some (ih rfl b)]
    rfl

theorem run_getNumber {n : ℕ} {bs : Bytes} (h : bs.length = n) (rest : Bytes) :
    (getNumber n).run (bs ++ rest) = some (ofBytes bs, rest) := by
  rw [getNumber, Reader.run_bind_of_some (run_getBytes h 0 rest)]
  rfl

theorem gives_getBytes (n : ℕ) (i : UInt8) : Reader.Gives (getBytes n i) fun bs => bs.length = n := by
  induction n generalizing i with
  | zero => exact Reader.gives_pure rfl
  | succ n ih =>
    refine (Reader.gives_any _).bind fun b _ => (ih b).bind fun bs hbs => Reader.gives_pure ?_
    rw [List.length_cons, hbs]

theorem gives_getNumber (n : ℕ) : Reader.Gives (getNumber n) fun x => x < 256 ^ n :=
  (gives_getBytes n 0).bind fun bs hbs => Reader.gives_pure (hbs ▸ ofBytes_lt bs)

/-- `tm_unz`. -/
structure TmUnz where
  sec : ℕ
  min : ℕ
  hour : ℕ
  mday : ℕ
  mon : ℕ
  year : ℕ
  deriving DecidableEq, Repr, Inhabited

/-- `unz64local_DosDateToTmuDate`. -/
def dosDateToTmuDate (ulDosDate : ℕ) : TmUnz :=
  let uDate := ulDosDate >>> 16
  { mday := uDate &&& 0x1f
    mon := ((uDate &&& 0x1e0) / 0x20 + 2 ^ 32 - 1) % 2 ^ 32
    year := (uDate &&& 0xfe00) / 0x200 + 1980
    hour := (ulDosDate &&& 0xf800) / 0x800
    min := (ulDosDate &&& 0x7e0) / 0x20
    sec := 2 * (ulDosDate &&& 0x1f) }

/-! ## The end of the central directory -/

/-- The search that `unz64local_SearchCentralDir` and `unz64local_SearchCentralDir64` begin with: over
the last 65535 bytes, in blocks of `BUFREADCOMMENT+4`. -/
def searchSignature (signature file : Bytes) : ℕ :=
  let uMaxBack := min 0xffff file.length
  backSearch signature file bufReadComment uMaxBack (uMaxBack + 1) signature.length

def endSignature : Bytes := [0x50, 0x4b, 0x05, 0x06]
def locatorSignature : Bytes := [0x50, 0x4b, 0x06, 0x07]

/-- `unz64local_SearchCentralDir`. -/
def searchCentralDir (file : Bytes) : ℕ := searchSignature endSignature file

/-- The fields of the zip64 locator: disk, offset and number of disks. -/
def readLocator : Reader (ℕ × ℕ × ℕ) := do
  let _ ← getLong
  let disk ← getLong
  let relativeOffset ← getLong64
  let disks ← getLong
  return (disk, relativeOffset, disks)

/-- `unz64local_SearchCentralDir64`. -/
def searchCentralDir64 (file : Bytes) : ℕ :=
  let uPosFound := searchSignature locatorSignature file
  if uPosFound = 0 then 0
  else
    match readLocator.run (file.drop uPosFound) with
    | none => 0
    | some ((disk, relativeOffset, disks), _) =>
      if disk ≠ 0 ∨ disks ≠ 1 then 0
      else
        match getLong.run (file.drop relativeOffset) with
        | none => 0
        | some (uL, _) => if uL ≠ zip64EndHeaderMagic then 0 else relativeOffset

/-- What is read at the end of the central directory. -/
structure EndInfo where
  numberDisk : ℕ
  numberDiskWithCD : ℕ
  numberEntry : ℕ
  numberEntryCD : ℕ
  sizeCentralDir : ℕ
  offsetCentralDir : ℕ
  deriving DecidableEq, Repr

def readZip64EndRecord : Reader EndInfo := do
  let _ ← getLong
  let _ ← getLong64
  let _ ← getShort
  let _ ← getShort
  let numberDisk ← getLong
  let numberDiskWithCD ← getLong
  let numberEntry ← getLong64
  let numberEntryCD ← getLong64
  let sizeCentralDir ← getLong64
  let offsetCentralDir ← getLong64
  return ⟨numberDisk, numberDiskWithCD, numberEntry, numberEntryCD, sizeCentralDir, offsetCentralDir⟩

def readEndRecord : Reader EndInfo := do
  let _ ← getLong
  let numberDisk ← getShort
  let numberDiskWithCD ← getShort
  let numberEntry ← getShort
  let numberEntryCD ← getShort
  let sizeCentralDir ← getLong
  let offsetCentralDir ← getLong
  let _ ← getShort
  return ⟨numberDisk, numberDiskWithCD, numberEntry, numberEntryCD, sizeCentralDir, offsetCentralDir⟩

/-! ## The current file -/

/-- `unz_file_info64`. -/
structure FileInfo where
  version : ℕ
  versionNeeded : ℕ
  flag : ℕ
  compressionMethod : ℕ
  dosDate : ℕ
  crc : ℕ
  compressedSize : ℕ
  uncompressedSize : ℕ
  sizeFilename : ℕ
  sizeFileExtra : ℕ
  sizeFileComment : ℕ
  diskNumStart : ℕ
  internalFa : ℕ
  externalFa : ℕ
  tmuDate : TmUnz
  deriving DecidableEq, Repr, Inhabited

/-- The 46 bytes of a header in the central directory: its magic, the info, and `offset_curfile`. -/
def readCentralHeader : Reader (ℕ × FileInfo × ℕ) := do
  let uMagic ← getLong
  let version ← getShort
  let versionNeeded ← getShort
  let flag ← getShort
  let compressionMethod ← getShort
  let dosDate ← getLong
  let crc ← getLong
  let compressedSize ← getLong
  let uncompressedSize ← getLong
  let sizeFilename ← getShort
  let sizeFileExtra ← getShort
  let sizeFileComment ← getShort
  let diskNumStart ← getShort
  let internalFa ← getShort
  let externalFa ← getLong
  let offsetCurfile ← getLong
  return (uMagic, {
    version, versionNeeded, flag, compressionMethod, dosDate, crc, compressedSize, uncompressedSize,
    sizeFilename, sizeFileExtra, sizeFileComment, diskNumStart, internalFa, externalFa,
    tmuDate := dosDateToTmuDate dosDate }, offsetCurfile)

/-- A number of four bytes that is all ones stands in the extra field. -/
def getIfInvalid (value : ℕ) : Reader ℕ := if value = invalidValue then getLong64 else pure value

/-- The zip64 extra field. `disk_num_start` was read from two bytes. -/
def readZip64Extra (info : FileInfo) (offsetCurfile : ℕ) : Reader (FileInfo × ℕ) := do
  let uncompressedSize ← getIfInvalid info.uncompressedSize
  let compressedSize ← getIfInvalid info.compressedSize
  let offsetCurfile ← getIfInvalid offsetCurfile
  let _ ← (if info.diskNumStart = invalidValue then getLong else pure 0)
  return ({ info with uncompressedSize, compressedSize }, offsetCurfile)

/-- The loop over the extra fields. Each takes four bytes at least, so that it has no more rounds than
there are bytes. -/
def readExtraFields : ℕ → ℕ → FileInfo → ℕ → Reader (FileInfo × ℕ)
  | 0, _, info, offsetCurfile => pure (info, offsetCurfile)
  | fuel + 1, acc, info, offsetCurfile =>
    if acc < info.sizeFileExtra then do
      let headerId ← getShort
      let dataSize ← getShort
      if headerId = 0x0001 then do
        let (info, offsetCurfile) ← readZip64Extra info offsetCurfile
        readExtraFields fuel (acc + (2 + 2 + dataSize)) info offsetCurfile
      else do
        Reader.skip dataSize
        readExtraFields fuel (acc + (2 + 2 + dataSize)) info offsetCurfile
    else pure (info, offsetCurfile)

/-- What was not read of the name is passed over when there are extra fields behind it. -/
def passOver (info : FileInfo) (lSeek : ℕ) : Reader Unit :=
  if info.sizeFileExtra = 0 then pure () else Reader.skip lSeek

/-- What is read of the name into a buffer. -/
def readFilename (info : FileInfo) : Option ℕ → Reader Bytes
  | none => do
    passOver info info.sizeFilename
    return []
  | some fileNameBufferSize => do
    let uSizeRead := min info.sizeFilename fileNameBufferSize
    let szFileName ← Reader.bytes uSizeRead
    passOver info (info.sizeFilename - uSizeRead)
    return szFileName

/-- The name and the extra fields. -/
def readVariableFields (info : FileInfo) (offsetCurfile : ℕ) (fileNameBufferSize : Option ℕ) :
    Reader (FileInfo × ℕ × Bytes) := do
  let szFileName ← readFilename info fileNameBufferSize
  let (info, offsetCurfile) ← readExtraFields info.sizeFileExtra 0 info offsetCurfile
  return (info, offsetCurfile, szFileName)

/-- `file_in_zip64_read_info_s`. `nextIn` is what is left of `read_buffer`. -/
structure ReadInfo (ι : Type) where
  stream : ι
  nextIn : Bytes
  totalOut : ℕ
  posInZipfile : ℕ
  crc32 : ℕ
  crc32Wait : ℕ
  restReadCompressed : ℕ
  restReadUncompressed : ℕ
  compressionMethod : ℕ
  raw : Bool

/-- `unz64_s`. -/
structure Unz (ι : Type) where
  file : Bytes
  numberEntry : ℕ
  byteBeforeTheZipfile : ℕ
  numFile : ℕ
  posInCentralDir : ℕ
  currentFileOk : Bool
  centralPos : ℕ
  sizeCentralDir : ℕ
  offsetCentralDir : ℕ
  curFileInfo : FileInfo
  offsetCurfile : ℕ
  pfileInZipRead : Option (ReadInfo ι)

namespace Unz
variable {ι : Type}

/-- `ZSEEK64` to a position in the archive. -/
def seekSet (s : Unz ι) (pos : ℕ) : Bytes := s.file.drop ((pos + s.byteBeforeTheZipfile) % 2 ^ 64)

/-- `unz64local_GetCurrentFileInfoInternal` without buffers for extra field and comment. -/
def getCurrentFileInfoInternal (s : Unz ι) (fileNameBufferSize : Option ℕ) : Except ℤ (FileInfo × ℕ × Bytes) :=
  match readCentralHeader.run (s.seekSet s.posInCentralDir) with
  | none => .error unzErrno
  | some ((uMagic, info, offsetCurfile), rest) =>
    if uMagic ≠ centralHeaderMagic then .error unzBadZipFile
    else
      match (readVariableFields info offsetCurfile fileNameBufferSize).run rest with
      | none => .error unzErrno
      | some (found, _) => .ok found

/-- What it leaves in `szFileName`: where the file ends within the name it is an error, but what there is of the
name has been read. -/
def szFileName (s : Unz ι) (fileNameBufferSize : ℕ) : Bytes :=
  match readCentralHeader.run (s.seekSet s.posInCentralDir) with
  | none => []
  | some ((uMagic, info, _), rest) =>
    if uMagic ≠ centralHeaderMagic then [] else rest.take (min info.sizeFilename fileNameBufferSize)

/-- The file at `pos_in_central_dir` becomes the current one. -/
def loadCurrentFile (s : Unz ι) : ℤ × Unz ι :=
  match s.getCurrentFileInfoInternal none with
  | .ok (info, offsetCurfile, _) =>
    (unzOk, { s with curFileInfo := info, offsetCurfile := offsetCurfile, currentFileOk := true })
  | .error err => (err, { s with currentFileOk := false })

/-- `unzGoToFirstFile`. -/
def unzGoToFirstFile (s : Unz ι) : ℤ × Unz ι :=
  loadCurrentFile { s with posInCentralDir := s.offsetCentralDir, numFile := 0 }

/-- `unzGoToNextFile`. An archive that says it has 65535 files is followed to its end. -/
def unzGoToNextFile (s : Unz ι) : ℤ × Unz ι :=
  if s.currentFileOk = false then (unzEndOfListOfFile, s)
  else if s.numberEntry ≠ 0xffff ∧ s.numFile + 1 = s.numberEntry then (unzEndOfListOfFile, s)
  else
    loadCurrentFile { s with
      posInCentralDir := s.posInCentralDir + (sizeCentralDirItem + s.curFileInfo.sizeFilename +
        s.curFileInfo.sizeFileExtra + s.curFileInfo.sizeFileComment)
      numFile := s.numFile + 1 }

end Unz

/-! ## `unzOpen64` -/

/-- The end of the central directory, and where it stands. -/
def findEnd (file : Bytes) : Option (ℕ × EndInfo) :=
  let centralPos := searchCentralDir64 file
  if centralPos ≠ 0 then
    (readZip64EndRecord.run (file.drop centralPos)).map fun (info, _) => (centralPos, info)
  else
    let centralPos := searchCentralDir file
    if centralPos = 0 then none
    else (readEndRecord.run (file.drop centralPos)).map fun (info, _) => (centralPos, info)

/-- What `unzOpenInternal` checks. -/
def EndInfo.Accepted (info : EndInfo) (centralPos : ℕ) : Prop :=
  info.numberEntryCD = info.numberEntry ∧ info.numberDiskWithCD = 0 ∧ info.numberDisk = 0 ∧
    ¬ centralPos < (info.offsetCentralDir + info.sizeCentralDir) % 2 ^ 64

instance (info : EndInfo) (centralPos : ℕ) : Decidable (info.Accepted centralPos) :=
  inferInstanceAs (Decidable (_ ∧ _ ∧ _ ∧ _))

/-- `unzOpen64`. -/
def unzOpen64 {ι : Type} (file : Bytes) : Option (Unz ι) :=
  match findEnd file with
  | none => none
  | some (centralPos, info) =>
    if info.Accepted centralPos then
      some (Unz.unzGoToFirstFile {
        file := file
        numberEntry := info.numberEntry
        byteBeforeTheZipfile := centralPos - (info.offsetCentralDir + info.sizeCentralDir) % 2 ^ 64
        numFile := 0
        posInCentralDir := 0
        currentFileOk := false
        centralPos := centralPos
        sizeCentralDir := info.sizeCentralDir
        offsetCentralDir := info.offsetCentralDir
        curFileInfo := default
        offsetCurfile := 0
        pfileInZipRead := none }).2
    else none

/-! ## The data of a file -/

/-- What is read of a local header. -/
def readLocalHeader : Reader (ℕ × ℕ × ℕ × ℕ × ℕ × ℕ × ℕ × ℕ) := do
  let uMagic ← getLong
  let _ ← getShort
  let uFlags ← getShort
  let method ← getShort
  let _ ← getLong
  let crc ← getLong
  let compressedSize ← getLong
  let uncompressedSize ← getLong
  let sizeFilename ← getShort
  let sizeExtraField ← getShort
  return (uMagic, uFlags, method, crc, compressedSize, uncompressedSize, sizeFilename, sizeExtraField)

/-- A size of the local header agrees with the directory, or is not told there. -/
def sizeCoherent (uFlags uData size : ℕ) : Bool := uData = 0xffffffff || uData = size || uFlags &&& 8 ≠ 0

section Data
variable {ι : Type}

/-- `unz64local_CheckCurrentFileCoherencyHeader`: the size of name and extra field. -/
def checkCurrentFileCoherencyHeader (s : Unz ι) : Option ℕ :=
  match readLocalHeader.run (s.seekSet s.offsetCurfile) with
  | none => none
  | some ((uMagic, uFlags, method, crc, compressedSize, uncompressedSize, sizeFilename, sizeExtraField), _) =>
    if uMagic = localHeaderMagic ∧ method = s.curFileInfo.compressionMethod ∧
        (s.curFileInfo.compressionMethod = 0 ∨ s.curFileInfo.compressionMethod = zBzip2ed ∨
          s.curFileInfo.compressionMethod = zDeflated) ∧
        (crc = s.curFileInfo.crc ∨ uFlags &&& 8 ≠ 0) ∧
        sizeCoherent uFlags compressedSize s.curFileInfo.compressedSize ∧
        sizeCoherent uFlags uncompressedSize s.curFileInfo.uncompressedSize ∧
        sizeFilename = s.curFileInfo.sizeFilename then
      some (sizeFilename + sizeExtraField)
    else none

/-- `unzCloseCurrentFile`. -/
def unzCloseCurrentFile (s : Unz ι) : ℤ × Unz ι :=
  match s.pfileInZipRead with
  | none => (unzParamError, s)
  | some p =>
    (if p.restReadUncompressed = 0 ∧ p.raw = false ∧ p.crc32 ≠ p.crc32Wait then unzCrcError else unzOk,
      { s with pfileInZipRead := none })

variable {δ : Type} (Z : Zlib δ ι)

/-- A new `pfile_in_zip_read_info`. Without bzip2 such data is delivered as it is. -/
def newReadInfo (s : Unz ι) (raw : Bool) (iSizeVar : ℕ) : ReadInfo ι := {
  stream := Z.inflateInit2
  nextIn := []
  totalOut := 0
  posInZipfile := s.offsetCurfile + sizeZipLocalHeader + iSizeVar
  crc32 := 0
  crc32Wait := s.curFileInfo.crc
  restReadCompressed := s.curFileInfo.compressedSize
  restReadUncompressed := s.curFileInfo.uncompressedSize
  compressionMethod := s.curFileInfo.compressionMethod
  raw := raw || decide (s.curFileInfo.compressionMethod = zBzip2ed) }

/-- `unzOpenCurrentFile3`, which takes no password. -/
def unzOpenCurrentFile3 (s : Unz ι) (raw password : Bool) : ℤ × Unz ι :=
  if password ∨ s.currentFileOk = false then (unzParamError, s)
  else
    let s := (unzCloseCurrentFile s).2
    match checkCurrentFileCoherencyHeader s with
    | none => (unzBadZipFile, s)
    | some iSizeVar => (unzOk, { s with pfileInZipRead := some (newReadInfo Z s raw iSizeVar) })

/-- `unzOpenCurrentFile`. -/
def unzOpenCurrentFile (s : Unz ι) : ℤ × Unz ι := unzOpenCurrentFile3 Z s false false

/-- The buffer is filled again when it is empty; `none` if that fails. -/
def refill (s : Unz ι) (p : ReadInfo ι) : Option (ReadInfo ι) :=
  if p.nextIn = [] ∧ 0 < p.restReadCompressed then
    let uReadThis := min unzBufSize p.restReadCompressed
    ((Reader.bytes uReadThis).run (s.seekSet p.posInZipfile)).map fun (buf, _) =>
      { p with
        posInZipfile := p.posInZipfile + uReadThis
        restReadCompressed := p.restReadCompressed - uReadThis
        nextIn := buf }
  else some p

/-- What a piece of output changes. `total_out` has 32 bits, `rest_read_uncompressed` 64. -/
def ReadInfo.delivered (p : ReadInfo ι) (taken : ℕ) (out : Bytes) : ReadInfo ι :=
  let uTotalOutAfter := (p.totalOut + out.length) % 2 ^ 32
  let uOutThis := (uTotalOutAfter + 2 ^ 64 - p.totalOut) % 2 ^ 64
  { p with
    totalOut := uTotalOutAfter
    nextIn := p.nextIn.drop taken
    crc32 := Z.crc32 p.crc32 out
    restReadUncompressed := (p.restReadUncompressed + 2 ^ 64 - uOutThis) % 2 ^ 64 }

/-- The loop of `unzReadCurrentFile`, with room for `availOut` bytes more behind `out`. -/
def readLoop (s : Unz ι) : ℕ → ReadInfo ι → ℕ → Bytes → Option (ℤ × Bytes × ReadInfo ι)
  | 0, _, _, _ => none
  | fuel + 1, p, availOut, out =>
    if availOut = 0 then some (out.length, out, p)
    else
      match refill s p with
      | none => some (unzErrno, out, p)
      | some p =>
        if p.compressionMethod = 0 ∨ p.raw then
          if p.nextIn = [] ∧ p.restReadCompressed = 0 then
            some (if out = [] then unzEof else out.length, out, p)
          else
            let uDoCopy := min availOut p.nextIn.length
            let buf := p.nextIn.take uDoCopy
            readLoop s fuel { p with
              totalOut := (p.totalOut + uDoCopy) % 2 ^ 32
              nextIn := p.nextIn.drop uDoCopy
              crc32 := Z.crc32 p.crc32 buf
              restReadUncompressed := (p.restReadUncompressed + 2 ^ 64 - uDoCopy) % 2 ^ 64 }
              (availOut - uDoCopy) (out ++ buf)
        else
          let r := Z.inflate p.stream p.nextIn availOut
          let err := if 0 ≤ r.ret ∧ Z.msg r.stream then zDataError else r.ret
          let p := { p.delivered Z r.taken r.out with stream := r.stream }
          let out := out ++ r.out
          if err = zStreamEnd then some (if out = [] then unzEof else out.length, out, p)
          else if err ≠ zOk then some (err, out, p)
          else readLoop s fuel p (availOut - r.out.length) out

/-- `avail_out` at first. -/
def ReadInfo.availOut (p : ReadInfo ι) (len : ℕ) : ℕ :=
  if p.raw then min len (p.restReadCompressed + p.nextIn.length) else min len p.restReadUncompressed

/-- `unzReadCurrentFile`: what it returns, where that fits an `int`, and what it has put into the buffer. -/
def unzReadCurrentFile (fuel : ℕ) (s : Unz ι) (len : ℕ) : Option (ℤ × Bytes × Unz ι) :=
  match s.pfileInZipRead with
  | none => some (unzParamError, [], s)
  | some p =>
    if len = 0 then some (0, [], s)
    else (readLoop Z s fuel p (p.availOut len) []).map fun (ret, out, p) =>
      (ret, out, { s with pfileInZipRead := some p })

/-! ## The loop of `UnCompress` -/

/-- `unzReadCurrentFile` until it returns zero: the buffers, and whether it failed after them. -/
def readBuffers (fuel : ℕ) : ℕ → Unz ι → Option (List Bytes × Bool × Unz ι)
  | 0, _ => none
  | rounds + 1, s => do
    let (iReadLen, szBuf, s) ← unzReadCurrentFile Z fuel s Zip.bufLen
    if iReadLen < 0 then return ([], true, s)
    else if iReadLen = 0 then return ([], false, s)
    else do
      let (buffers, fails, s) ← readBuffers fuel rounds s
      return (szBuf :: buffers, fails, s)

/-- A name in the archive, byte by byte. -/
def pathOf (bytes : Bytes) : Zip.Path := bytes.map fun b => Char.ofNat b.toNat

/-- What the loop sees of the current file. It does not ask whether `unzGetCurrentFileInfo64` failed. -/
def readEntry (fuel : ℕ) (s : Unz ι) : Option (Zip.UnzEntry × Unz ι) := do
  let name := s.szFileName Zip.maxPath
  let s := (unzOpenCurrentFile Z s).2
  let (buffers, fails, s) ← readBuffers Z fuel fuel s
  let s := (unzCloseCurrentFile s).2
  let s := s.unzGoToNextFile.2
  return (⟨pathOf name, [], buffers, fails⟩, s)

def readEntries (fuel : ℕ) : ℕ → Unz ι → Option (List Zip.UnzEntry)
  | 0, _ => some []
  | n + 1, s => do
    let (e, s) ← readEntry Z fuel s
    let rest ← readEntries fuel n s
    return e :: rest

/-- What `unzOpen64` and `unzGetGlobalInfo64` find, and the files one after the other. -/
def unzFile (fuel : ℕ) (file : Bytes) : Option (Option Zip.UnzFile) :=
  match unzOpen64 file with
  | none => some none
  | some s => (readEntries Z fuel s.numberEntry s).map fun entries => some ⟨true, entries⟩

end Data

end AppUtil.MiniZip
