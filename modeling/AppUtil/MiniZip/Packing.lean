import AppUtil.MiniZip.Streams
import AppUtil.Zip.Writing
import Mathlib.Data.List.Forall2

/-! # From the calls to the archive

One lemma for each call of the write side: what it makes of an archive that holds some entries. -/
namespace AppUtil.MiniZip
open AppUtil.Lib
open AppUtil.Zip (Bytes zipOk zipStateIoError buffers buffers_flatten)
set_option autoImplicit false
variable {δ ι : Type} {Z : Zlib δ ι}

theorem localParts_concat (items : List Item) (it : Item) :
    localParts (items ++ [it]) = localParts items ++ it.localPart := by
  rw [localParts, localParts, List.flatMap_append, List.flatMap_singleton]

theorem localParts_cons (it : Item) (items : List Item) :
    localParts (it :: items) = it.localPart ++ localParts items := List.flatMap_cons

theorem centralDir_concat (offset : ℕ) (items : List Item) (it : Item) :
    centralDir offset (items ++ [it]) =
      centralDir offset items ++ (it.centralHeader (offset + (localParts items).length)).bytes := by
  induction items generalizing offset with
  | nil => exact List.append_nil _
  | cons it' rest ih =>
    rw [List.cons_append, centralDir, ih, centralDir, localParts_cons, List.length_append, List.append_assoc,
      Nat.add_assoc]

/-- An archive that holds these entries, and none is open. -/
structure Holds (items : List Item) (zi : ZipInternal δ) : Prop where
  file : zi.filestream = .ended (localParts items)
  dir : zi.centralDir.flatten = centralDir 0 items
  blocks : ∀ block ∈ zi.centralDir, block.length ≤ sizeDataInDatablock
  opened : zi.opened = none
  number : zi.numberEntry = items.length

/-- What is fixed about an entry when it is opened behind `items`. -/
structure Opens (items : List Item) (filename : Bytes) (zipfi : ZipFileInfo) (level : ℤ) (ci : CurFile δ) :
    Prop where
  posLocalHeader : ci.posLocalHeader = (localParts items).length
  centralHeader : ci.centralHeader = (newHeader (localParts items).length filename zipfi level).bytes
  sizeCentralExtra : ci.sizeCentralExtra = 0
  sizeCentralExtraFree : ci.sizeCentralExtraFree = 32
  posZip64ExtraInfo : ci.posZip64ExtraInfo = (localParts items).length + (30 + filename.length)

theorem Opens.same {items : List Item} {filename : Bytes} {zipfi : ZipFileInfo} {level : ℤ} {ci₀ ci : CurFile δ}
    (h : Opens items filename zipfi level ci₀) (hs : ci₀.Same ci) : Opens items filename zipfi level ci :=
  ⟨hs.1.trans h.1, hs.2.trans h.2, hs.3.trans h.3, hs.4.trans h.4, hs.6.trans h.5⟩

/-- What is in the file before the data of an entry that is opened behind `items`. -/
def headOf (items : List Item) (filename : Bytes) (zipfi : ZipFileInfo) (level : ℤ) : Bytes :=
  localParts items ++ ((openedHeader filename (levelFlag level) zipfi.chosenDate).bytes ++ localZip64Extra 0 0)

/-- An archive that holds these entries, and behind them one is open that was fed `fed`. -/
structure Entering (Z : Zlib δ ι) (items : List Item) (filename : Bytes) (zipfi : ZipFileInfo) (level : ℤ)
    (fed : Bytes) (zi : ZipInternal δ) (ci : CurFile δ) (written : Bytes) : Prop where
  opened : zi.opened = some ci
  opens : Opens items filename zipfi level ci
  crc32 : ci.crc32 = Z.crc32 0 fed
  feeding : Feeding Z.Deflating ci (headOf items filename zipfi level) ci zi.filestream fed written
  dir : zi.centralDir.flatten = centralDir 0 items
  blocks : ∀ block ∈ zi.centralDir, block.length ≤ sizeDataInDatablock
  number : zi.numberEntry = items.length

section Calls
variable {items : List Item} {filename fed written : Bytes} {zipfi : ZipFileInfo} {level : ℤ}
  {zi : ZipInternal δ} {ci : CurFile δ}

theorem holds_zipOpen64 : Holds [] (zipOpen64 : ZipInternal δ) :=
  ⟨rfl, rfl, fun _ h => absurd h List.not_mem_nil, rfl, rfl⟩

theorem openEntry_spec (hZ : Z.Documented) (h : Holds items zi) (filename : Bytes) (zipfi : ZipFileInfo)
    (level : ℤ) :
    ∃ ci, Entering Z items filename zipfi level [] (openEntry Z zi filename zipfi level true) ci [] := by
  have hpos : zi.filestream.pos = (localParts items).length := by rw [h.file, OutFile.ended]
  unfold openEntry
  rw [hpos, h.file]
  simp only [writeLocalFileHeader_eq]
  refine ⟨_, rfl, ⟨rfl, rfl, rfl, rfl, rfl⟩, (hZ.crc32_nil 0).symm, ⟨⟨rfl, rfl, rfl, rfl, rfl, rfl⟩, ?_,
    .init level, Nat.zero_le _, rfl, rfl⟩, h.dir, h.blocks, h.number⟩
  rw [headOf, List.append_nil]

theorem zipWriteInFileInZip_spec (fuel : ℕ) (hZ : Z.Documented)
    (h : Entering Z items filename zipfi level fed zi ci written)
    (buf : Bytes) (hlen : (fed ++ buf).length < 2 ^ 32) (hfuel : Z.deflateBound (fed ++ buf).length + 2 ≤ fuel) :
    ∃ zi' ci' written', zipWriteInFileInZip Z fuel zi buf = some (zipOk, zi') ∧
      Entering Z items filename zipfi level (fed ++ buf) zi' ci' written' := by
  have hopens : Opens items filename zipfi level { ci with crc32 := Z.crc32 ci.crc32 buf } :=
    ⟨h.opens.1, h.opens.2, h.opens.3, h.opens.4, h.opens.5⟩
  have hstart : Feeding Z.Deflating { ci with crc32 := Z.crc32 ci.crc32 buf } (headOf items filename zipfi level)
      { ci with crc32 := Z.crc32 ci.crc32 buf } zi.filestream fed written :=
    ⟨⟨rfl, rfl, rfl, rfl, rfl, rfl⟩, h.feeding.file, h.feeding.stream, h.feeding.room, h.feeding.compressed,
      h.feeding.uncompressed⟩
  obtain ⟨ci', f', written', hloop, hfeed⟩ :=
    writeLoop_spec hZ fuel buf hstart hlen (by omega) (.inr (by omega))
  have hcall : zipWriteInFileInZip Z fuel zi buf =
      some (zipOk, { zi with filestream := f', opened := some ci' }) := by
    rw [zipWriteInFileInZip, h.opened]
    show (writeLoop Z fuel { ci with crc32 := Z.crc32 ci.crc32 buf } zi.filestream buf).map _ = _
    rw [hloop]
    rfl
  refine ⟨_, ci', written', hcall, rfl, hopens.same hfeed.same, ?_, ?_, h.dir, h.blocks, h.number⟩
  · rw [hfeed.same.crc32, hZ.crc32_append, ← h.crc32]
  · exact ⟨⟨rfl, rfl, rfl, rfl, rfl, rfl⟩, hfeed.file, hfeed.stream, hfeed.room, hfeed.compressed,
      hfeed.uncompressed⟩

/-- The rest of the buffer is written, and all of the input is counted. -/
theorem finished {R : δ → Bytes → Bytes → Prop} {ci₀ : CurFile δ} {head : Bytes} {f : OutFile}
    (h : Feeding R ci₀ head ci f fed written) (hcounted : ci.buffered = [] → ci.totalIn = 0) :
    ∃ ci' f', (if 0 < ci.buffered.length then ci.flushWriteBuffer f else (ci, f)) = (ci', f') ∧ ci₀.Same ci' ∧
      f' = .ended (head ++ (written ++ ci.buffered)) ∧ ci'.stream = ci.stream ∧
      ci'.totalCompressedData = (written ++ ci.buffered).length ∧ ci'.totalUncompressedData = fed.length := by
  by_cases hpos : 0 < ci.buffered.length
  · rw [if_pos hpos]
    have hflush := h.flush
    exact ⟨_, _, rfl, hflush.same, hflush.file, rfl, hflush.compressed, hflush.uncompressed⟩
  · have hnil : ci.buffered = [] := List.length_eq_zero_iff.mp (by omega)
    have hsum := h.uncompressed
    rw [hcounted hnil, Nat.add_zero] at hsum
    rw [if_neg hpos, hnil, List.append_nil]
    exact ⟨ci, f, rfl, h.same, h.file, rfl, h.compressed, hsum⟩

/-- What `zipCloseFileInZipRaw64` does after its loop when nothing fails. -/
theorem closeEntry_eq {ci₂ : CurFile δ} {f f₂ : OutFile}
    (hflush : (if 0 < ci.buffered.length then ci.flushWriteBuffer f else (ci, f)) = (ci₂, f₂))
    (hend : Z.deflateEnd ci₂.stream = zOk) (hfree : ci₂.zip64Extra.length + 4 ≤ ci₂.sizeCentralExtraFree) :
    closeEntry Z zi zStreamEnd ci f = (zipOk, {
      filestream := ci₂.updateLocalHeader f₂
      centralDir := addDataInDatablock zi.centralDir (ci₂.extendedHeader (ci₂.closedHeader (Z.isText ci₂.stream)))
      opened := none
      numberEntry := zi.numberEntry + 1 }) := by
  have hroom : ¬ (0 < ci₂.zip64Extra.length ∧ ci₂.sizeCentralExtraFree < ci₂.zip64Extra.length + 4) := by omega
  unfold closeEntry
  simp only [if_true, and_true, hflush, if_neg hroom, hend]
  rfl

theorem zipCloseFileInZip_spec (fuel : ℕ) (hZ : Z.Documented)
    (h : Entering Z items filename zipfi level fed zi ci written)
    (hlen : fed.length < 2 ^ 32) (hfuel : Z.deflateBound fed.length + 1 ≤ fuel) :
    ∃ zi' text c, zipCloseFileInZip Z fuel zi = some (zipOk, zi') ∧ Z.Deflated fed c ∧
      Holds (items ++ [newItem filename zipfi level text (Z.crc32 0 fed) c fed.length]) zi' := by
  have hstart : Feeding Z.Finishing ci (headOf items filename zipfi level) ci zi.filestream fed written :=
    ⟨h.feeding.same, h.feeding.file, .start h.feeding.stream, h.feeding.room, h.feeding.compressed,
      h.feeding.uncompressed⟩
  obtain ⟨ci₁, f₁, written₁, hloop, hfeed, hcounted⟩ := finishLoop_spec hZ fuel hstart hlen (by omega)
    (.inl fun room hroom => hZ.finish_out h.feeding.stream hroom)
  obtain ⟨ci₂, f₂, hflush, hsame, hfile, hstream, hcsize, husize⟩ := finished hfeed hcounted
  obtain ⟨hdeflated, hend⟩ := hfeed.stream
  rw [← hstream] at hend
  have hopens := h.opens.same hsame
  have hcrc : ci₂.crc32 = Z.crc32 0 fed := hsame.crc32.trans h.crc32
  generalize written₁ ++ ci₁.buffered = c at hfile hcsize hdeflated
  generalize htext : Z.isText ci₂.stream = text
  have hfree : ci₂.zip64Extra.length + 4 ≤ ci₂.sizeCentralExtraFree := by
    have hle : ci₂.zip64Extra.length ≤ 24 := by
      rw [CurFile.zip64Extra, List.length_append, List.length_append, length_putValue_if, length_putValue_if,
        length_putValue_if]
      split <;> split <;> split <;> omega
    rw [hopens.sizeCentralExtraFree]
    omega
  have hcall : zipCloseFileInZip Z fuel zi = some (zipOk, {
      filestream := ci₂.updateLocalHeader f₂
      centralDir := addDataInDatablock zi.centralDir (ci₂.extendedHeader (ci₂.closedHeader text))
      opened := none
      numberEntry := zi.numberEntry + 1 }) := by
    rw [zipCloseFileInZip, h.opened]
    show (finishLoop Z fuel ci zi.filestream).map _ = _
    rw [hloop, ← htext, ← closeEntry_eq hflush hend hfree]
    rfl
  have hheader := extendedHeader_closed filename c zipfi level text
    (by rw [hopens.centralHeader, hopens.posLocalHeader]) hopens.sizeCentralExtra hcsize
  have hlocal := updateLocalHeader_eq (localParts items) filename c zipfi level text hopens.posLocalHeader
    hopens.posZip64ExtraInfo hcsize
  rw [hcrc, husize] at hheader hlocal
  obtain ⟨hflat, hblocks⟩ := addDataInDatablock_spec h.blocks (ci₂.extendedHeader (ci₂.closedHeader text))
  refine ⟨_, text, c, hcall, hdeflated, ?_, ?_, hblocks, rfl, ?_⟩
  · rw [localParts_concat, ← hlocal, hfile, headOf, List.append_assoc, List.append_assoc]
  · rw [hflat, h.dir, hheader, centralDir_concat, Nat.zero_add, hopens.posLocalHeader]
  · show zi.numberEntry + 1 = _
    rw [h.number, List.length_append, List.length_singleton]

theorem zipClose_spec (fuel : ℕ) (h : Holds items zi) : zipClose Z fuel zi = some (zipOk, archive items) := by
  have hopened : closeOpened Z fuel zi = some (zipOk, zi) := by
    rw [closeOpened, h.opened]
    rfl
  have hblocks := writeBlocks_eq (localParts items) 0 zi.centralDir
  rw [Nat.zero_mod, Nat.zero_add, h.dir] at hblocks
  have hpos : (OutFile.ended (localParts items)).pos = (localParts items).length := rfl
  have hdir : (OutFile.ended (localParts items ++ centralDir 0 items)).pos =
      (localParts items).length + (centralDir 0 items).length := List.length_append
  unfold zipClose
  rw [hopened]
  simp only [Option.map_some, if_true, h.file, hblocks, h.number, hpos, hdir, write_zip64End]
  by_cases hlarge : (localParts items).length ≥ invalidValue
  · rw [if_pos hlarge, write_endRecord, archive, zip64End, if_pos hlarge]
    simp only [OutFile.ended, List.append_assoc]
  · rw [if_neg hlarge, write_endRecord, archive, zip64End, if_neg hlarge]
    simp only [OutFile.ended, List.append_assoc, List.nil_append]

end Calls

/-! ## `CZipTools` on top -/

/-- A file that is packed. -/
structure Source where
  filename : Bytes
  zipfi : ZipFileInfo
  contents : Bytes

section Driver
variable (Z : Zlib δ ι) (fuel : ℕ)

/-- The loop of `CompressFile`. -/
def compressLoop : List Bytes → ZipInternal δ → Option (ℤ × ZipInternal δ)
  | [], zFp => some (zipOk, zFp)
  | szbuf :: rest, zFp =>
    match zipWriteInFileInZip Z fuel zFp szbuf with
    | none => none
    | some (iRet, zFp) =>
      if iRet ≠ zipOk then (zipCloseFileInZip Z fuel zFp).map fun (_, zFp) => (zipStateIoError, zFp)
      else compressLoop rest zFp

/-- `CompressFile` of a file that can be read. The level is `Z_DEFAULT_COMPRESSION`. -/
def compressFile (zFp : ZipInternal δ) (src : Source) : Option (ℤ × ZipInternal δ) := do
  let (_, zFp) ← zipOpenNewFileInZip64 Z fuel zFp src.filename src.zipfi (-1) true
  let (iRet, zFp) ← compressLoop Z fuel (buffers src.contents) zFp
  let (_, zFp) ← zipCloseFileInZip Z fuel zFp
  return (iRet, zFp)

/-- The loop of `Compress`, left with the first file that fails. -/
def compressFiles : List Source → ZipInternal δ → Option (ℤ × ZipInternal δ)
  | [], zFp => some (zipOk, zFp)
  | src :: rest, zFp => do
    let (iRet, zFp) ← compressFile Z fuel zFp src
    if iRet ≠ zipOk then return (iRet, zFp) else compressFiles rest zFp

/-- `Compress` from `zipOpen64` to the first `zipClose`. -/
def packFiles (sources : List Source) : Option (ℤ × Bytes) := do
  let (iRet, zFp) ← compressFiles Z fuel sources zipOpen64
  let (_, bytes) ← zipClose Z fuel zFp
  return (iRet, bytes)

end Driver

/-- The entry that a file becomes. -/
def BecomesItem (Z : Zlib δ ι) (src : Source) (it : Item) : Prop :=
  ∃ text c, Z.Deflated src.contents c ∧
    it = newItem src.filename src.zipfi (-1) text (Z.crc32 0 src.contents) c src.contents.length

section Driver
variable {items : List Item} {zi : ZipInternal δ} (fuel : ℕ)

theorem compressLoop_spec (hZ : Z.Documented) {filename : Bytes} {zipfi : ZipFileInfo} {level : ℤ} (szbufs : List Bytes)
    {fed written : Bytes} {ci : CurFile δ} (h : Entering Z items filename zipfi level fed zi ci written)
    (hlen : (fed ++ szbufs.flatten).length < 2 ^ 32)
    (hfuel : Z.deflateBound (fed ++ szbufs.flatten).length + 2 ≤ fuel) :
    ∃ zi' ci' written', compressLoop Z fuel szbufs zi = some (zipOk, zi') ∧
      Entering Z items filename zipfi level (fed ++ szbufs.flatten) zi' ci' written' := by
  induction szbufs generalizing zi ci fed written with
  | nil =>
    rw [List.flatten_nil, List.append_nil]
    exact ⟨zi, ci, written, rfl, h⟩
  | cons szbuf rest ih =>
    rw [List.flatten_cons, ← List.append_assoc] at hlen hfuel ⊢
    have hle : (fed ++ szbuf).length ≤ (fed ++ szbuf ++ rest.flatten).length := by simp
    have hmono := hZ.bound_mono hle
    obtain ⟨zi₁, ci₁, written₁, hcall, h₁⟩ := zipWriteInFileInZip_spec fuel hZ h szbuf (by omega) (by omega)
    obtain ⟨zi₂, ci₂, written₂, hrest, h₂⟩ := ih h₁ hlen hfuel
    refine ⟨zi₂, ci₂, written₂, ?_, h₂⟩
    rw [compressLoop, hcall]
    exact hrest

theorem compressFile_spec (hZ : Z.Documented) (h : Holds items zi) {src : Source} (hlen : src.contents.length < 2 ^ 32)
    (hfuel : Z.deflateBound src.contents.length + 2 ≤ fuel) :
    ∃ zi' it, compressFile Z fuel zi src = some (zipOk, zi') ∧ BecomesItem Z src it ∧ Holds (items ++ [it]) zi' := by
  obtain ⟨ci, hopen⟩ := openEntry_spec hZ h src.filename src.zipfi (-1)
  have hnew : zipOpenNewFileInZip64 Z fuel zi src.filename src.zipfi (-1) true =
      some (zipOk, openEntry Z zi src.filename src.zipfi (-1) true) := by
    rw [zipOpenNewFileInZip64, closeOpened, h.opened]
    rfl
  have hflat : [] ++ (buffers src.contents).flatten = src.contents := buffers_flatten src.contents
  obtain ⟨zi₁, ci₁, written₁, hloop, h₁⟩ := compressLoop_spec fuel hZ (buffers src.contents) hopen
    (by rw [hflat]; exact hlen) (by rw [hflat]; exact hfuel)
  rw [hflat] at h₁
  obtain ⟨zi₂, text, c, hclose, hdeflated, h₂⟩ := zipCloseFileInZip_spec fuel hZ h₁ hlen (by omega)
  refine ⟨zi₂, _, ?_, ⟨text, c, hdeflated, rfl⟩, h₂⟩
  rw [compressFile, hnew]
  show (compressLoop Z fuel (buffers src.contents) _ >>= _) = _
  rw [hloop]
  show (zipCloseFileInZip Z fuel zi₁ >>= _) = _
  rw [hclose]
  rfl

/-- Every file becomes an entry, in order. -/
theorem compressFiles_spec (hZ : Z.Documented) (sources : List Source) (h : Holds items zi)
    (hlen : ∀ src ∈ sources, src.contents.length < 2 ^ 32)
    (hfuel : ∀ src ∈ sources, Z.deflateBound src.contents.length + 2 ≤ fuel) :
    ∃ zi' more, compressFiles Z fuel sources zi = some (zipOk, zi') ∧ List.Forall₂ (BecomesItem Z) sources more ∧
      Holds (items ++ more) zi' := by
  induction sources generalizing zi items with
  | nil =>
    refine ⟨zi, [], rfl, .nil, ?_⟩
    rw [List.append_nil]
    exact h
  | cons src rest ih =>
    obtain ⟨zi₁, it, hcall, hitem, h₁⟩ :=
      compressFile_spec fuel hZ h (hlen src (List.mem_cons_self ..)) (hfuel src (List.mem_cons_self ..))
    obtain ⟨zi₂, more, hrest, hmore, h₂⟩ := ih h₁ (fun s hs => hlen s (List.mem_cons_of_mem src hs))
      (fun s hs => hfuel s (List.mem_cons_of_mem src hs))
    rw [List.append_assoc, List.singleton_append] at h₂
    refine ⟨zi₂, it :: more, ?_, .cons hitem hmore, h₂⟩
    rw [compressFiles, hcall]
    exact hrest

/-- What `Compress` writes is an archive of what the files become. -/
theorem packFiles_spec (hZ : Z.Documented) (sources : List Source)
    (hlen : ∀ src ∈ sources, src.contents.length < 2 ^ 32)
    (hfuel : ∀ src ∈ sources, Z.deflateBound src.contents.length + 2 ≤ fuel) :
    ∃ items, packFiles Z fuel sources = some (zipOk, archive items) ∧
      List.Forall₂ (BecomesItem Z) sources items := by
  obtain ⟨zi, items, hcall, hitems, h⟩ := compressFiles_spec fuel hZ sources holds_zipOpen64 hlen hfuel
  refine ⟨items, ?_, hitems⟩
  rw [packFiles, hcall]
  show (zipClose Z fuel zi >>= _) = _
  rw [zipClose_spec fuel h]
  rfl

end Driver

end AppUtil.MiniZip
