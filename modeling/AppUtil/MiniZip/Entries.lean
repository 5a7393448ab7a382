import AppUtil.MiniZip.Layout

/-! # What the calls for an entry leave in the archive -/
namespace AppUtil.MiniZip
open AppUtil.Lib
open AppUtil.Zip (Bytes zipOk)
set_option autoImplicit false
variable {δ ι : Type} {Z : Zlib δ ι}

/-! ## The headers -/

/-- A local header before the sizes are known. -/
def openedHeader (filename : Bytes) (flag dosDate : ℕ) : LocalHeader := {
  versionNeeded := 45
  flag := flag
  dosDate := dosDate
  crc := 0
  compressedSize := invalidValue
  uncompressedSize := invalidValue
  sizeFilename := filename.length
  sizeExtra := 20
  filename := filename }

theorem writeLocalFileHeader_eq (ci : CurFile δ) (filename bytes : Bytes) (hzip64 : ci.zip64 = true) :
    ci.writeLocalFileHeader filename (.ended bytes) =
      ({ ci with posZip64ExtraInfo := bytes.length + (30 + filename.length) },
        .ended (bytes ++ ((openedHeader filename ci.flag ci.dosDate).bytes ++ localZip64Extra 0 0))) := by
  have hlen := LocalHeader.length_bytes (openedHeader filename ci.flag ci.dosDate)
  simp only [LocalHeader.bytes, openedHeader, List.length_append] at hlen
  simp only [CurFile.writeLocalFileHeader, hzip64, if_true, OutFile.putValue_ended, OutFile.write_ended,
    List.append_assoc, LocalHeader.bytes, openedHeader, localZip64Extra]
  simp only [OutFile.ended, List.length_append, hlen]

/-- The entry that is made of what was given for it and what was found on the way. -/
def newItem (filename : Bytes) (zipfi : ZipFileInfo) (level : ℤ) (text : Bool) (crc : ℕ) (data : Bytes)
    (uncompressedSize : ℕ) : Item := {
  filename := filename
  flag := levelFlag level
  dosDate := zipfi.chosenDate
  internalFa := if text then zAscii else zipfi.internalFa
  externalFa := zipfi.externalFa
  crc := crc
  data := data
  uncompressedSize := uncompressedSize }

theorem closedHeader_eq (ci : CurFile δ) (text : Bool) (h : CentralHeader) (hh : ci.centralHeader = h.bytes) :
    ci.closedHeader text = CentralHeader.bytes { h with
      versionMadeBy := if ci.totalCompressedData ≥ invalidValue ∨ ci.totalUncompressedData ≥ invalidValue ∨
        ci.posLocalHeader ≥ invalidValue then 45 else h.versionMadeBy
      versionNeeded := if ci.totalCompressedData ≥ invalidValue ∨ ci.totalUncompressedData ≥ invalidValue ∨
        ci.posLocalHeader ≥ invalidValue then 45 else h.versionNeeded
      crc := ci.crc32
      compressedSize := if ci.totalCompressedData ≥ invalidValue then invalidValue else ci.totalCompressedData
      uncompressedSize :=
        if ci.totalUncompressedData ≥ invalidValue then invalidValue else ci.totalUncompressedData
      internalFa := if text then zAscii else h.internalFa } := by
  unfold CurFile.closedHeader
  rw [hh]
  generalize (if ci.totalCompressedData ≥ invalidValue then invalidValue else ci.totalCompressedData) = csize
  generalize (if ci.totalUncompressedData ≥ invalidValue then invalidValue else ci.totalUncompressedData) = usize
  by_cases hlarge : ci.totalCompressedData ≥ invalidValue ∨ ci.totalUncompressedData ≥ invalidValue ∨
      ci.posLocalHeader ≥ invalidValue
  · cases text <;> simp [hlarge, CentralHeader.bytes, patch_skip, patch_here]
  · cases text <;> simp [hlarge, CentralHeader.bytes, patch_skip, patch_here]

/-- The header that is put into the directory. -/
theorem extendedHeader_closed {ci : CurFile δ} (filename data : Bytes) (zipfi : ZipFileInfo) (level : ℤ)
    (text : Bool) (hh : ci.centralHeader = (newHeader ci.posLocalHeader filename zipfi level).bytes)
    (hextra : ci.sizeCentralExtra = 0) (hdata : ci.totalCompressedData = data.length) :
    ci.extendedHeader (ci.closedHeader text) =
      ((newItem filename zipfi level text ci.crc32 data ci.totalUncompressedData).centralHeader
        ci.posLocalHeader).bytes := by
  generalize hit : newItem filename zipfi level text ci.crc32 data ci.totalUncompressedData = it
  have hzip64 : ci.zip64Extra = it.zip64Extra ci.posLocalHeader := by
    rw [CurFile.zip64Extra, Item.zip64Extra, ← hit, hdata]
    rfl
  have hlarge : (ci.totalCompressedData ≥ invalidValue ∨ ci.totalUncompressedData ≥ invalidValue ∨
      ci.posLocalHeader ≥ invalidValue) ↔ it.Large ci.posLocalHeader := by
    rw [Item.Large, ← hit, hdata]
    rfl
  have hiff := it.zip64Extra_pos_iff ci.posLocalHeader
  rw [closedHeader_eq ci text _ hh, CurFile.extendedHeader, hzip64, hextra, hdata]
  rw [hdata] at hlarge
  simp only [hlarge]
  by_cases h : it.Large ci.posLocalHeader
  · rw [if_pos (hiff.mpr h)]
    have hfour : ∀ n : ℕ, 2 + (2 + n) = n + 4 := by
      intro n
      omega
    have hextra' : it.centralExtra ci.posLocalHeader =
        putValue 1 2 ++ (putValue (it.zip64Extra ci.posLocalHeader).length 2 ++ it.zip64Extra ci.posLocalHeader) :=
      if_pos h
    simp only [Item.centralHeader, hextra', if_pos h, CentralHeader.bytes, newHeader, List.append_assoc,
      List.nil_append]
    subst hit
    simp [patch_skip, patch_here, newItem, hfour]
  · rw [if_neg (fun hpos => h (hiff.mp hpos))]
    have hextra' : it.centralExtra ci.posLocalHeader = [] := if_neg h
    simp only [Item.centralHeader, hextra', if_neg h, List.length_nil]
    subst hit
    rfl

/-- A field that is written over. -/
theorem OutFile.putValue_over (pre rest : Bytes) (x y n : ℕ) :
    OutFile.putValue ⟨pre ++ (MiniZip.putValue x n ++ rest), pre.length⟩ y n =
      ⟨(pre ++ MiniZip.putValue y n) ++ rest, (pre ++ MiniZip.putValue y n).length⟩ := by
  have hlen : (MiniZip.putValue y n).length = (MiniZip.putValue x n).length := by
    rw [length_putValue, length_putValue]
  rw [OutFile.putValue, OutFile.write, patch_over pre rest rfl hlen, List.append_assoc, List.length_append]

/-- The local header is completed. -/
theorem updateLocalHeader_eq {ci : CurFile δ} (before filename data : Bytes) (zipfi : ZipFileInfo) (level : ℤ)
    (text : Bool) (hpos : ci.posLocalHeader = before.length)
    (hzip64 : ci.posZip64ExtraInfo = before.length + (30 + filename.length))
    (hdata : ci.totalCompressedData = data.length) :
    ci.updateLocalHeader (.ended (before ++ ((openedHeader filename (levelFlag level) zipfi.chosenDate).bytes ++
        (localZip64Extra 0 0 ++ data)))) =
      .ended (before ++ (newItem filename zipfi level text ci.crc32 data ci.totalUncompressedData).localPart) := by
  -- the fourteen bytes up to the checksum, and what stands between the sizes and the extra field
  generalize hpre : before ++ (putValue localHeaderMagic 4 ++ (putValue 45 2 ++ (putValue (levelFlag level) 2 ++
    (putValue zDeflated 2 ++ putValue zipfi.chosenDate 4)))) = pre
  generalize hmid : putValue filename.length 2 ++ (putValue 20 2 ++ filename) = mid
  have hlenpre : pre.length = ci.posLocalHeader + 14 := by
    rw [← hpre, hpos]
    simp only [List.length_append, length_putValue]
  have hfile : before ++ ((openedHeader filename (levelFlag level) zipfi.chosenDate).bytes ++
      (localZip64Extra 0 0 ++ data)) =
      pre ++ (putValue 0 4 ++ (putValue invalidValue 4 ++ (putValue invalidValue 4 ++
        (mid ++ (localZip64Extra 0 0 ++ data))))) := by
    rw [← hpre, ← hmid]
    simp only [LocalHeader.bytes, openedHeader, List.append_assoc]
  have hlenmid : mid.length = 4 + filename.length := by
    rw [← hmid]
    simp only [List.length_append, length_putValue]
    omega
  have hitem : (newItem filename zipfi level text ci.crc32 data ci.totalUncompressedData).localPart.length =
      50 + filename.length + data.length := Item.length_localPart _
  rw [CurFile.updateLocalHeader, hfile]
  simp only [OutFile.ended, OutFile.seek, ← hlenpre]
  rw [OutFile.putValue_over]
  by_cases hlarge : ci.totalUncompressedData ≥ invalidValue
  · have hpos' : 0 < ci.posZip64ExtraInfo := by omega
    rw [if_pos hlarge, if_pos hpos']
    -- on from the sizes in the extra field
    generalize hpre' : pre ++ (putValue ci.crc32 4 ++ (putValue invalidValue 4 ++ (putValue invalidValue 4 ++
      (mid ++ (putValue 1 2 ++ putValue 16 2))))) = pre'
    have hlenpre' : pre'.length = ci.posZip64ExtraInfo + 4 := by
      rw [← hpre']
      simp only [List.length_append, length_putValue]
      omega
    have hfile' : pre ++ putValue ci.crc32 4 ++ (putValue invalidValue 4 ++ (putValue invalidValue 4 ++
        (mid ++ (localZip64Extra 0 0 ++ data)))) = pre' ++ (putValue 0 8 ++ (putValue 0 8 ++ data)) := by
      rw [← hpre']
      simp only [localZip64Extra, List.append_assoc]
    rw [hfile', ← hlenpre', OutFile.putValue_over, OutFile.putValue_over]
    have hbig : (newItem filename zipfi level text ci.crc32 data ci.totalUncompressedData).uncompressedSize ≥
        invalidValue := hlarge
    refine OutFile.mk.injEq .. ▸ ⟨?_, ?_⟩
    · rw [← hpre', ← hpre, ← hmid, Item.localPart, Item.localExtra, Item.localHeader, if_pos hbig, if_pos hbig,
        if_pos hbig]
      simp only [newItem, LocalHeader.bytes, localZip64Extra, hdata, List.append_assoc]
    · simp only [List.length_append, length_putValue, hitem, hlenmid, hlenpre, hpos, localZip64Extra]
      omega
  · rw [if_neg hlarge, OutFile.putValue_over, OutFile.putValue_over]
    have hsmall : ¬ (newItem filename zipfi level text ci.crc32 data ci.totalUncompressedData).uncompressedSize ≥
        invalidValue := hlarge
    refine OutFile.mk.injEq .. ▸ ⟨?_, ?_⟩
    · rw [← hpre, ← hmid, Item.localPart, Item.localExtra, Item.localHeader, if_neg hsmall, if_neg hsmall,
        if_neg hsmall]
      simp only [newItem, LocalHeader.bytes, hdata, List.append_assoc]
    · simp only [List.length_append, length_putValue, hitem, hlenmid, hlenpre, hpos, localZip64Extra]
      omega

end AppUtil.MiniZip
