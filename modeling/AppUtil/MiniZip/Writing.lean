import AppUtil.Lib.Bytes
import AppUtil.MiniZip.Zlib

/-! # `zip.c`

An archive that is created, entry by entry: each with its name, deflated, without extra fields, comment
or password. Reads, writes and allocations succeed. -/
namespace AppUtil.MiniZip
open AppUtil.Lib
open AppUtil.Zip (Bytes zipOk zipParamError)
set_option autoImplicit false

def zipBadZipFile : ℤ := -103

def zBufSize : ℕ := 65536
def sizeDataInDatablock : ℕ := 4096 - 4 * 4

def localHeaderMagic : ℕ := 0x04034b50
def centralHeaderMagic : ℕ := 0x02014b50
def endHeaderMagic : ℕ := 0x06054b50
def zip64EndHeaderMagic : ℕ := 0x06064b50
def zip64EndLocHeaderMagic : ℕ := 0x07064b50

def zDeflated : ℕ := 8
def zAscii : ℕ := 1

/-- What a field of four bytes can not hold is written as all ones, and stands elsewhere. -/
def invalidValue : ℕ := 0xffffffff

/-- `zip64local_putValue`, and in memory: a number that does not fit fills the field with ones. -/
def putValue (x nbByte : ℕ) : Bytes :=
  if x / 256 ^ nbByte ≠ 0 then List.replicate nbByte 0xff else lowBytes nbByte x

/-! ## The file -/

structure OutFile where
  bytes : Bytes
  pos : ℕ
  deriving DecidableEq, Repr

namespace OutFile

def write (f : OutFile) (buf : Bytes) : OutFile := ⟨patch f.pos buf f.bytes, f.pos + buf.length⟩

def seek (f : OutFile) (pos : ℕ) : OutFile := { f with pos := pos }

def putValue (f : OutFile) (x nbByte : ℕ) : OutFile := f.write (MiniZip.putValue x nbByte)

end OutFile

/-! ## Dates -/

/-- `tm_zip`. -/
structure TmZip where
  sec : ℕ
  min : ℕ
  hour : ℕ
  mday : ℕ
  mon : ℕ
  year : ℕ
  deriving DecidableEq, Repr

/-- `zip64local_TmzDateToDosDate`. -/
def tmzDateToDosDate (ptm : TmZip) : ℕ :=
  let year := if ptm.year ≥ 1980 then ptm.year - 1980 else if ptm.year ≥ 80 then ptm.year - 80 else ptm.year
  ((ptm.mday + 32 * (ptm.mon + 1) + 512 * year) <<< 16) % 2 ^ 32 |||
    (ptm.sec / 2 + 32 * ptm.min + 2048 * ptm.hour) % 2 ^ 32

/-- `zip_fileinfo`. -/
structure ZipFileInfo where
  tmzDate : TmZip
  dosDate : ℕ
  internalFa : ℕ
  externalFa : ℕ
  deriving DecidableEq, Repr

/-- The date that an entry is given. -/
def ZipFileInfo.chosenDate (zipfi : ZipFileInfo) : ℕ :=
  if zipfi.dosDate ≠ 0 then zipfi.dosDate else tmzDateToDosDate zipfi.tmzDate

/-! ## Headers -/

/-- The fields of a local header, and what follows it before the data. -/
structure LocalHeader where
  versionNeeded : ℕ
  flag : ℕ
  dosDate : ℕ
  crc : ℕ
  compressedSize : ℕ
  uncompressedSize : ℕ
  sizeFilename : ℕ
  sizeExtra : ℕ
  filename : Bytes
  deriving DecidableEq, Repr

/-- As `Write_LocalFileHeader` writes it, up to the name. -/
def LocalHeader.bytes (h : LocalHeader) : Bytes :=
  putValue localHeaderMagic 4 ++ (putValue h.versionNeeded 2 ++ (putValue h.flag 2 ++
    (putValue zDeflated 2 ++ (putValue h.dosDate 4 ++ (putValue h.crc 4 ++ (putValue h.compressedSize 4 ++
    (putValue h.uncompressedSize 4 ++ (putValue h.sizeFilename 2 ++ (putValue h.sizeExtra 2 ++
    h.filename)))))))))

/-- The zip64 extra field of a local header. -/
def localZip64Extra (uncompressedSize compressedSize : ℕ) : Bytes :=
  putValue 1 2 ++ (putValue 16 2 ++ (putValue uncompressedSize 8 ++ putValue compressedSize 8))

/-- The fields of a header of the central directory. -/
structure CentralHeader where
  versionMadeBy : ℕ
  versionNeeded : ℕ
  flag : ℕ
  dosDate : ℕ
  crc : ℕ
  compressedSize : ℕ
  uncompressedSize : ℕ
  sizeFilename : ℕ
  sizeExtra : ℕ
  internalFa : ℕ
  externalFa : ℕ
  offset : ℕ
  filename : Bytes
  extra : Bytes
  deriving DecidableEq, Repr

/-- `central_header`: 46 bytes, the name, and what is added to it. -/
def CentralHeader.bytes (h : CentralHeader) : Bytes :=
  putValue centralHeaderMagic 4 ++ (putValue h.versionMadeBy 2 ++ (putValue h.versionNeeded 2 ++
    (putValue h.flag 2 ++ (putValue zDeflated 2 ++ (putValue h.dosDate 4 ++ (putValue h.crc 4 ++
    (putValue h.compressedSize 4 ++ (putValue h.uncompressedSize 4 ++ (putValue h.sizeFilename 2 ++
    (putValue h.sizeExtra 2 ++ (putValue 0 2 ++ (putValue 0 2 ++ (putValue h.internalFa 2 ++
    (putValue h.externalFa 4 ++ (putValue h.offset 4 ++ (h.filename ++ h.extra))))))))))))))))

/-! ## The list of data blocks -/

/-- The loop of `add_data_in_datablock`, from the last block on. -/
def fillBlocks : ℕ → Bytes → Bytes → List Bytes
  | 0, ldi, _ => [ldi]
  | fuel + 1, ldi, buf =>
    if buf = [] then [ldi]
    else if ldi.length = sizeDataInDatablock then
      ldi :: fillBlocks fuel (buf.take sizeDataInDatablock) (buf.drop sizeDataInDatablock)
    else
      let copyThis := min (sizeDataInDatablock - ldi.length) buf.length
      fillBlocks fuel (ldi ++ buf.take copyThis) (buf.drop copyThis)

/-- `add_data_in_datablock`. -/
def addDataInDatablock (ll : List Bytes) (buf : Bytes) : List Bytes :=
  match ll.getLast? with
  | none => fillBlocks (buf.length + 1) [] buf
  | some ldi => ll.dropLast ++ fillBlocks (buf.length + 1) ldi buf

/-! ## The entry that is written -/

/-- `curfile64_info`. `buffered` is `buffered_data` up to `pos_in_buffered_data`, and `totalIn` the
`total_in` of the stream. -/
structure CurFile (δ : Type) where
  stream : δ
  totalIn : ℕ
  buffered : Bytes
  posLocalHeader : ℕ
  centralHeader : Bytes
  sizeCentralExtra : ℕ
  sizeCentralExtraFree : ℕ
  flag : ℕ
  dosDate : ℕ
  crc32 : ℕ
  zip64 : Bool
  posZip64ExtraInfo : ℕ
  totalCompressedData : ℕ
  totalUncompressedData : ℕ

namespace CurFile
variable {δ : Type}

/-- `avail_out` of the stream. -/
def availOut (ci : CurFile δ) : ℕ := zBufSize - ci.buffered.length

/-- What a call of `deflate` leaves. -/
def deflated (ci : CurFile δ) (r : ZCall δ) : CurFile δ :=
  { ci with
    stream := r.stream
    totalIn := (ci.totalIn + r.taken) % 2 ^ 32
    buffered := ci.buffered ++ r.out }

/-- `zip64FlushWriteBuffer`. -/
def flushWriteBuffer (ci : CurFile δ) (f : OutFile) : CurFile δ × OutFile :=
  ({ ci with
      totalIn := 0
      buffered := []
      totalCompressedData := ci.totalCompressedData + ci.buffered.length
      totalUncompressedData := ci.totalUncompressedData + ci.totalIn }, f.write ci.buffered)

/-- Before each call of `deflate`: a full buffer is written. -/
def makeRoom (ci : CurFile δ) (f : OutFile) : CurFile δ × OutFile :=
  if ci.availOut = 0 then ci.flushWriteBuffer f else (ci, f)

/-- `Write_LocalFileHeader`. -/
def writeLocalFileHeader (ci : CurFile δ) (filename : Bytes) (f : OutFile) : CurFile δ × OutFile :=
  let f := f.putValue localHeaderMagic 4
  let f := f.putValue (if ci.zip64 then 45 else 20) 2
  let f := f.putValue ci.flag 2
  let f := f.putValue zDeflated 2
  let f := f.putValue ci.dosDate 4
  let f := f.putValue 0 4
  let f := f.putValue (if ci.zip64 then invalidValue else 0) 4
  let f := f.putValue (if ci.zip64 then invalidValue else 0) 4
  let f := f.putValue filename.length 2
  let f := f.putValue (if ci.zip64 then 20 else 0) 2
  let f := f.write filename
  if ci.zip64 then
    let ci := { ci with posZip64ExtraInfo := f.pos }
    let f := f.putValue 1 2
    let f := f.putValue 16 2
    let f := f.putValue 0 8
    (ci, f.putValue 0 8)
  else (ci, f)

/-- The sizes and the offset that take eight bytes, as `zipCloseFileInZipRaw64` puts them together. -/
def zip64Extra (ci : CurFile δ) : Bytes :=
  (if ci.totalUncompressedData ≥ invalidValue then putValue ci.totalUncompressedData 8 else []) ++
    ((if ci.totalCompressedData ≥ invalidValue then putValue ci.totalCompressedData 8 else []) ++
    (if ci.posLocalHeader ≥ invalidValue then putValue ci.posLocalHeader 8 else []))

/-- `central_header` with the sizes in their fields. -/
def closedHeader (ci : CurFile δ) (text : Bool) : Bytes :=
  let header := ci.centralHeader
  let header :=
    if ci.totalCompressedData ≥ invalidValue ∨ ci.totalUncompressedData ≥ invalidValue ∨
        ci.posLocalHeader ≥ invalidValue then
      patch 6 (putValue 45 2) (patch 4 (putValue 45 2) header)
    else header
  let header := patch 16 (putValue ci.crc32 4) header
  let header := patch 20 (putValue (if ci.totalCompressedData ≥ invalidValue then invalidValue
    else ci.totalCompressedData) 4) header
  let header := if text then patch 36 (putValue zAscii 2) header else header
  patch 24 (putValue (if ci.totalUncompressedData ≥ invalidValue then invalidValue
    else ci.totalUncompressedData) 4) header

/-- The extra field is appended to the header, and its size entered there. -/
def extendedHeader (ci : CurFile δ) (header : Bytes) : Bytes :=
  let datasize := ci.zip64Extra.length
  if 0 < datasize then
    patch 30 (putValue (ci.sizeCentralExtra + (datasize + 4)) 2)
      (header ++ (putValue 1 2 ++ (putValue datasize 2 ++ ci.zip64Extra)))
  else header

/-- The local header is given its sizes; the position in the file is kept. -/
def updateLocalHeader (ci : CurFile δ) (f : OutFile) : OutFile :=
  let curPosInzip := f.pos
  let f := f.seek (ci.posLocalHeader + 14)
  let f := f.putValue ci.crc32 4
  let f :=
    if ci.totalUncompressedData ≥ invalidValue then
      if ci.posZip64ExtraInfo > 0 then
        let f := f.seek (ci.posZip64ExtraInfo + 4)
        let f := f.putValue ci.totalUncompressedData 8
        f.putValue ci.totalCompressedData 8
      else f
    else
      let f := f.putValue ci.totalCompressedData 4
      f.putValue ci.totalUncompressedData 4
  f.seek curPosInzip

end CurFile

/-- `zip64_internal`. -/
structure ZipInternal (δ : Type) where
  filestream : OutFile
  centralDir : List Bytes
  opened : Option (CurFile δ)
  numberEntry : ℕ

/-- `zipOpen64` of a new archive. -/
def zipOpen64 {δ : Type} : ZipInternal δ := ⟨⟨[], 0⟩, [], none, 0⟩

section Writing
variable {δ ι : Type} (Z : Zlib δ ι)

/-- The loop of `zipWriteInFileInZip`; `none` if it is not left within `fuel` rounds. -/
def writeLoop : ℕ → CurFile δ → OutFile → Bytes → Option (ℤ × CurFile δ × OutFile)
  | 0, _, _, _ => none
  | fuel + 1, ci, f, nextIn =>
    if nextIn = [] then some (zipOk, ci, f)
    else
      let (ci, f) := ci.makeRoom f
      let r := Z.deflate ci.stream .noFlush nextIn ci.availOut
      if r.ret ≠ zOk then some (r.ret, ci.deflated r, f)
      else writeLoop fuel (ci.deflated r) f (nextIn.drop r.taken)

/-- `zipWriteInFileInZip`. -/
def zipWriteInFileInZip (fuel : ℕ) (zi : ZipInternal δ) (buf : Bytes) : Option (ℤ × ZipInternal δ) :=
  match zi.opened with
  | none => some (zipParamError, zi)
  | some ci =>
    (writeLoop Z fuel { ci with crc32 := Z.crc32 ci.crc32 buf } zi.filestream buf).map
      fun (err, ci, f) => (err, { zi with filestream := f, opened := some ci })

/-- The loop of `zipCloseFileInZipRaw64`. -/
def finishLoop : ℕ → CurFile δ → OutFile → Option (ℤ × CurFile δ × OutFile)
  | 0, _, _ => none
  | fuel + 1, ci, f =>
    let (ci, f) := ci.makeRoom f
    let r := Z.deflate ci.stream .finish [] ci.availOut
    if r.ret ≠ zOk then some (r.ret, ci.deflated r, f) else finishLoop fuel (ci.deflated r) f

/-- `zipCloseFileInZipRaw64` after its loop. -/
def closeEntry (zi : ZipInternal δ) (err : ℤ) (ci : CurFile δ) (f : OutFile) : ℤ × ZipInternal δ :=
  let err := if err = zStreamEnd then zipOk else err
  let (ci, f) := if 0 < ci.buffered.length ∧ err = zipOk then ci.flushWriteBuffer f else (ci, f)
  let err := if err = zipOk then Z.deflateEnd ci.stream else err
  let header := ci.closedHeader (Z.isText ci.stream)
  if 0 < ci.zip64Extra.length ∧ ci.sizeCentralExtraFree < ci.zip64Extra.length + 4 then
    (zipBadZipFile, { zi with filestream := f, opened := some ci })
  else
    let header := ci.extendedHeader header
    (err, {
      filestream := if err = zipOk then ci.updateLocalHeader f else f
      centralDir := if err = zipOk then addDataInDatablock zi.centralDir header else zi.centralDir
      opened := none
      numberEntry := zi.numberEntry + 1 })

/-- `zipCloseFileInZip`. -/
def zipCloseFileInZip (fuel : ℕ) (zi : ZipInternal δ) : Option (ℤ × ZipInternal δ) :=
  match zi.opened with
  | none => some (zipParamError, zi)
  | some ci => (finishLoop Z fuel ci zi.filestream).map fun (err, ci, f) => closeEntry Z zi err ci f

/-- An entry that is still open is closed first. -/
def closeOpened (fuel : ℕ) (zi : ZipInternal δ) : Option (ℤ × ZipInternal δ) :=
  if zi.opened.isSome then zipCloseFileInZip Z fuel zi else some (zipOk, zi)

/-- The flags tell the level. -/
def levelFlag (level : ℤ) : ℕ :=
  if level = 8 ∨ level = 9 then 2 else if level = 2 then 4 else if level = 1 then 6 else 0

/-- `central_header` of an entry that is opened at `pos`. -/
def newHeader (pos : ℕ) (filename : Bytes) (zipfi : ZipFileInfo) (level : ℤ) : CentralHeader := {
  versionMadeBy := 0
  versionNeeded := 20
  flag := levelFlag level
  dosDate := zipfi.chosenDate
  crc := 0
  compressedSize := 0
  uncompressedSize := 0
  sizeFilename := filename.length
  sizeExtra := 0
  internalFa := zipfi.internalFa
  externalFa := zipfi.externalFa
  offset := if pos ≥ invalidValue then invalidValue else pos
  filename := filename
  extra := [] }

/-- `zipOpenNewFileInZip4_64` on an archive with no entry open. -/
def openEntry (zi : ZipInternal δ) (filename : Bytes) (zipfi : ZipFileInfo) (level : ℤ) (zip64 : Bool) :
    ZipInternal δ :=
  let pos := zi.filestream.pos
  let ci : CurFile δ := {
    stream := Z.deflateInit2 level
    totalIn := 0
    buffered := []
    posLocalHeader := pos
    centralHeader := (newHeader pos filename zipfi level).bytes
    sizeCentralExtra := 0
    sizeCentralExtraFree := 32
    flag := levelFlag level
    dosDate := zipfi.chosenDate
    crc32 := 0
    zip64 := zip64
    posZip64ExtraInfo := 0
    totalCompressedData := 0
    totalUncompressedData := 0 }
  let (ci, f) := ci.writeLocalFileHeader filename zi.filestream
  { zi with filestream := f, opened := some ci }

/-- `zipOpenNewFileInZip64`. -/
def zipOpenNewFileInZip64 (fuel : ℕ) (zi : ZipInternal δ) (filename : Bytes) (zipfi : ZipFileInfo)
    (level : ℤ) (zip64 : Bool) : Option (ℤ × ZipInternal δ) :=
  (closeOpened Z fuel zi).map fun (err, zi) =>
    if err ≠ zipOk then (err, zi) else (zipOk, openEntry Z zi filename zipfi level zip64)

end Writing

/-! ## The end of the archive -/

/-- `Write_Zip64EndOfCentralDirectoryRecord`. -/
def writeZip64EndOfCentralDirectoryRecord (numberEntry sizeCentraldir centraldirPosInzip : ℕ) (f : OutFile) :
    OutFile :=
  let f := f.putValue zip64EndHeaderMagic 4
  let f := f.putValue 44 8
  let f := f.putValue 45 2
  let f := f.putValue 45 2
  let f := f.putValue 0 4
  let f := f.putValue 0 4
  let f := f.putValue numberEntry 8
  let f := f.putValue numberEntry 8
  let f := f.putValue sizeCentraldir 8
  f.putValue centraldirPosInzip 8

/-- `Write_Zip64EndOfCentralDirectoryLocator`. -/
def writeZip64EndOfCentralDirectoryLocator (zip64eocdPosInzip : ℕ) (f : OutFile) : OutFile :=
  let f := f.putValue zip64EndLocHeaderMagic 4
  let f := f.putValue 0 4
  let f := f.putValue zip64eocdPosInzip 8
  f.putValue 1 4

/-- `Write_EndOfCentralDirectoryRecord`. -/
def writeEndOfCentralDirectoryRecord (numberEntry sizeCentraldir centraldirPosInzip : ℕ) (f : OutFile) :
    OutFile :=
  let f := f.putValue endHeaderMagic 4
  let f := f.putValue 0 2
  let f := f.putValue 0 2
  let f := f.putValue (if numberEntry ≥ 0xffff then 0xffff else numberEntry) 2
  let f := f.putValue (if numberEntry ≥ 0xffff then 0xffff else numberEntry) 2
  let f := f.putValue sizeCentraldir 4
  f.putValue (if centraldirPosInzip ≥ invalidValue then invalidValue else centraldirPosInzip) 4

/-- `Write_GlobalComment` without a comment. -/
def writeGlobalComment (f : OutFile) : OutFile := f.putValue 0 2

/-- The blocks of the central directory are written, and their sizes added up. -/
def writeBlocks (f : OutFile) (sizeCentraldir : ℕ) : List Bytes → OutFile × ℕ
  | [] => (f, sizeCentraldir)
  | ldi :: rest =>
    writeBlocks (if 0 < ldi.length then f.write ldi else f) ((sizeCentraldir + ldi.length) % 2 ^ 32) rest

/-- `zipClose`: what it returns, and the file. -/
def zipClose {δ ι : Type} (Z : Zlib δ ι) (fuel : ℕ) (zi : ZipInternal δ) : Option (ℤ × Bytes) :=
  (closeOpened Z fuel zi).map fun (err, zi) =>
    let centraldirPosInzip := zi.filestream.pos
    let (f, sizeCentraldir) :=
      if err = zipOk then writeBlocks zi.filestream 0 zi.centralDir else (zi.filestream, 0)
    let f :=
      if centraldirPosInzip ≥ invalidValue then
        let zip64EocdPos := f.pos
        writeZip64EndOfCentralDirectoryLocator zip64EocdPos
          (writeZip64EndOfCentralDirectoryRecord zi.numberEntry sizeCentraldir centraldirPosInzip f)
      else f
    let f :=
      if err = zipOk then
        writeGlobalComment
          (writeEndOfCentralDirectoryRecord zi.numberEntry sizeCentraldir centraldirPosInzip f)
      else f
    (err, f.bytes)

end AppUtil.MiniZip
