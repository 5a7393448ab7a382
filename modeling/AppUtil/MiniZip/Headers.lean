import AppUtil.MiniZip.Layout
import AppUtil.MiniZip.Reading

/-! # Reading the headers back

What `unzip.c` reads of the headers that `zip.c` wrote. -/
namespace AppUtil.MiniZip
open AppUtil.Lib
open AppUtil.Zip (Bytes)
set_option autoImplicit false

theorem run_getNumber_putValue (x n : ℕ) (rest : Bytes) :
    (getNumber n).run (putValue x n ++ rest) = some (stored x n, rest) := by
  rw [run_getNumber (length_putValue x n) rest, ofBytes_putValue]

/-- A read that is followed by others. -/
theorem run_getNumber_bind {β : Type} (x n : ℕ) (rest : Bytes) (k : ℕ → Reader β) :
    (getNumber n >>= k).run (putValue x n ++ rest) = (k (stored x n)).run rest := by
  exact Reader.run_bind_of_some (run_getNumber_putValue x n rest) k

/-- What is read of a header of the directory, but for what stands in its extra field. -/
def CentralHeader.info (h : CentralHeader) : FileInfo := {
  version := stored h.versionMadeBy 2
  versionNeeded := stored h.versionNeeded 2
  flag := stored h.flag 2
  compressionMethod := zDeflated
  dosDate := stored h.dosDate 4
  crc := stored h.crc 4
  compressedSize := stored h.compressedSize 4
  uncompressedSize := stored h.uncompressedSize 4
  sizeFilename := stored h.sizeFilename 2
  sizeFileExtra := stored h.sizeExtra 2
  sizeFileComment := 0
  diskNumStart := 0
  internalFa := stored h.internalFa 2
  externalFa := stored h.externalFa 4
  tmuDate := dosDateToTmuDate (stored h.dosDate 4) }

theorem run_readCentralHeader (h : CentralHeader) (rest : Bytes) :
    readCentralHeader.run (h.bytes ++ rest) =
      some ((centralHeaderMagic, h.info, stored h.offset 4), h.filename ++ (h.extra ++ rest)) := by
  simp only [readCentralHeader, CentralHeader.bytes, List.append_assoc, getShort, getLong, run_getNumber_bind]
  rfl

/-! ## The zip64 extra field -/

/-- What four bytes can not hold is read from the extra field. -/
theorem run_getIfInvalid {β : Type} {value : ℕ} (h : value < 2 ^ 64) (rest : Bytes) (k : ℕ → Reader β) :
    (getIfInvalid (stored (if value ≥ invalidValue then invalidValue else value) 4) >>= k).run
      ((if value ≥ invalidValue then putValue value 8 else []) ++ rest) = (k value).run rest := by
  by_cases hlarge : value ≥ invalidValue
  · have hinvalid : stored invalidValue 4 = invalidValue := by decide
    have hvalue : stored value 8 = value := stored_of_lt h
    rw [if_pos hlarge, if_pos hlarge, hinvalid, getIfInvalid, if_pos rfl, getLong64, run_getNumber_bind, hvalue]
  · have hlt : value < 256 ^ 4 := by
      unfold invalidValue at hlarge
      omega
    have hne : ¬ value = invalidValue := by omega
    rw [if_neg hlarge, if_neg hlarge, stored_of_lt hlt, getIfInvalid, if_neg hne, List.nil_append]
    rfl

/-- An entry of which the fields can tell the sizes. -/
structure Item.Fits (it : Item) (offset : ℕ) : Prop where
  filename : it.filename.length < 2 ^ 16
  data : it.data.length < 2 ^ 64
  uncompressedSize : it.uncompressedSize < 2 ^ 64
  offset : offset < 2 ^ 64

/-- What is known of an entry after its header in the directory was read. -/
def Item.info (it : Item) (offset : ℕ) : FileInfo := {
  (it.centralHeader offset).info with
  compressedSize := it.data.length
  uncompressedSize := it.uncompressedSize }

variable {it : Item} {offset : ℕ}

theorem sizeFilename_info (h : it.Fits offset) : (it.info offset).sizeFilename = it.filename.length :=
  stored_of_lt h.filename

theorem length_centralExtra :
    (it.centralExtra offset).length = if it.Large offset then (it.zip64Extra offset).length + 4 else 0 := by
  unfold Item.centralExtra
  split
  · simp only [List.length_append, length_putValue]
    omega
  · rfl

theorem sizeFileExtra_info : (it.info offset).sizeFileExtra = (it.centralExtra offset).length := by
  have hle := it.length_zip64Extra_le offset
  apply stored_of_lt
  show (it.centralExtra offset).length < 256 ^ 2
  rw [length_centralExtra]
  split <;> omega

theorem run_readZip64Extra (h : it.Fits offset) (rest : Bytes) :
    (readZip64Extra (it.centralHeader offset).info (stored (it.centralHeader offset).offset 4)).run
      (it.zip64Extra offset ++ rest) = some ((it.info offset, offset), rest) := by
  have hdisk : ¬ (it.centralHeader offset).info.diskNumStart = invalidValue := by
    show ¬ 0 = invalidValue
    decide
  rw [readZip64Extra, if_neg hdisk, Item.zip64Extra, List.append_assoc, List.append_assoc]
  show (getIfInvalid (stored (if it.uncompressedSize ≥ invalidValue then invalidValue else it.uncompressedSize) 4) >>=
    _).run _ = _
  rw [run_getIfInvalid h.uncompressedSize]
  show (getIfInvalid (stored (if it.data.length ≥ invalidValue then invalidValue else it.data.length) 4) >>=
    _).run _ = _
  rw [run_getIfInvalid h.data]
  show (getIfInvalid (stored (if offset ≥ invalidValue then invalidValue else offset) 4) >>= _).run _ = _
  rw [run_getIfInvalid h.offset]
  rfl

/-- Nothing is read behind the extra fields. -/
theorem readExtraFields_done (fuel acc : ℕ) (info : FileInfo) (offsetCurfile : ℕ)
    (h : info.sizeFileExtra ≤ acc) :
    readExtraFields fuel acc info offsetCurfile = pure (info, offsetCurfile) := by
  cases fuel with
  | zero => rfl
  | succ fuel => rw [readExtraFields, if_neg (Nat.not_lt.mpr h)]

theorem info_of_not_large (hlarge : ¬ it.Large offset) :
    (it.centralHeader offset).info = it.info offset ∧ stored (it.centralHeader offset).offset 4 = offset := by
  obtain ⟨hdata, hrest⟩ := not_or.mp hlarge
  obtain ⟨husize, hoffset⟩ := not_or.mp hrest
  have hlt : ∀ {value : ℕ}, ¬ value ≥ invalidValue →
      stored (if value ≥ invalidValue then invalidValue else value) 4 = value := by
    intro value hvalue
    rw [if_neg hvalue]
    apply stored_of_lt
    unfold invalidValue at hvalue
    omega
  refine ⟨?_, hlt hoffset⟩
  unfold Item.info
  rw [FileInfo.mk.injEq]
  exact ⟨rfl, rfl, rfl, rfl, rfl, rfl, hlt hdata, hlt husize, rfl, rfl, rfl, rfl, rfl, rfl, rfl⟩

theorem run_readExtraFields (h : it.Fits offset) (rest : Bytes) :
    (readExtraFields (it.centralHeader offset).info.sizeFileExtra 0 (it.centralHeader offset).info
      (stored (it.centralHeader offset).offset 4)).run (it.centralExtra offset ++ rest) =
      some ((it.info offset, offset), rest) := by
  have hextra : (it.centralHeader offset).info.sizeFileExtra = (it.centralExtra offset).length := sizeFileExtra_info
  by_cases hlarge : it.Large offset
  · have hle := it.length_zip64Extra_le offset
    have hlen : (it.centralExtra offset).length = (it.zip64Extra offset).length + 4 := by
      rw [length_centralExtra, if_pos hlarge]
    have hid : stored 1 2 = 1 := by decide
    have hsize : stored (it.zip64Extra offset).length 2 = (it.zip64Extra offset).length :=
      stored_of_lt (by omega)
    have hdone := readExtraFields_done ((it.zip64Extra offset).length + 3) (0 + (2 + 2 + (it.zip64Extra offset).length))
      (it.info offset) offset (by rw [sizeFileExtra_info, hlen]; omega)
    have hbytes : it.centralExtra offset = putValue 1 2 ++
        (putValue (it.zip64Extra offset).length 2 ++ it.zip64Extra offset) := if_pos hlarge
    have hmore : 0 < (it.centralHeader offset).info.sizeFileExtra := by
      rw [hextra, hlen]
      omega
    have hfuel : (it.centralHeader offset).info.sizeFileExtra = (it.zip64Extra offset).length + 3 + 1 := by
      rw [hextra, hlen]
    rw [hfuel, readExtraFields, if_pos hmore, hbytes, List.append_assoc, List.append_assoc, getShort, run_getNumber_bind,
      run_getNumber_bind, hid, hsize, if_pos rfl,
      Reader.run_bind_of_some (run_readZip64Extra h rest)]
    show (readExtraFields _ _ (it.info offset) offset).run rest = _
    rw [hdone]
    rfl
  · obtain ⟨hinfo, hoffset⟩ := info_of_not_large hlarge
    have hnil : it.centralExtra offset = [] := if_neg hlarge
    rw [hinfo, hoffset, hnil, readExtraFields_done _ 0 _ _ (by rw [sizeFileExtra_info, hnil]; rfl)]
    rfl

/-- What is delivered of a name. -/
def nameRead (filename : Bytes) : Option ℕ → Bytes
  | none => []
  | some fileNameBufferSize => filename.take fileNameBufferSize

/-- The reader is at the extra field when there is one. -/
theorem run_passOver (it : Item) (offset : ℕ) (name rest : Bytes) :
    ∃ rest', (passOver (it.centralHeader offset).info name.length).run
      (name ++ (it.centralExtra offset ++ rest)) = some ((), rest') ∧
      (it.centralExtra offset ≠ [] → rest' = it.centralExtra offset ++ rest) := by
  have hextra : (it.centralHeader offset).info.sizeFileExtra = (it.centralExtra offset).length := sizeFileExtra_info
  by_cases hnil : it.centralExtra offset = []
  · refine ⟨name ++ (it.centralExtra offset ++ rest), ?_, fun hne => absurd hnil hne⟩
    rw [passOver, hextra, hnil, if_pos List.length_nil]
    rfl
  · refine ⟨it.centralExtra offset ++ rest, ?_, fun _ => rfl⟩
    rw [passOver, hextra, if_neg (fun hlen => hnil (List.length_eq_zero_iff.mp hlen)), Reader.run_skip rfl _]

theorem run_readFilename (h : it.Fits offset) (buf : Option ℕ) (rest : Bytes) :
    ∃ rest', (readFilename (it.centralHeader offset).info buf).run
      (it.filename ++ (it.centralExtra offset ++ rest)) = some (nameRead it.filename buf, rest') ∧
      (it.centralExtra offset ≠ [] → rest' = it.centralExtra offset ++ rest) := by
  have hname : (it.centralHeader offset).info.sizeFilename = it.filename.length := sizeFilename_info h
  cases buf with
  | none =>
    obtain ⟨rest', hpass, hrest'⟩ := run_passOver it offset it.filename rest
    refine ⟨rest', ?_, hrest'⟩
    rw [readFilename, hname, Reader.run_bind_of_some hpass]
    rfl
  | some n =>
    have hlen : (it.filename.take n).length = min it.filename.length n := by
      rw [List.length_take, Nat.min_comm]
    have hdrop : it.filename.length - min it.filename.length n = (it.filename.drop n).length := by
      rw [List.length_drop]
      omega
    have hread := Reader.run_bytes hlen (it.filename.drop n ++ (it.centralExtra offset ++ rest))
    rw [← List.append_assoc, List.take_append_drop] at hread
    obtain ⟨rest', hpass, hrest'⟩ := run_passOver it offset (it.filename.drop n) rest
    refine ⟨rest', ?_, hrest'⟩
    rw [readFilename, hname, Reader.run_bind_of_some hread, hdrop, Reader.run_bind_of_some hpass]
    rfl

theorem run_readVariableFields (h : it.Fits offset) (buf : Option ℕ) (rest : Bytes) :
    ∃ rest', (readVariableFields (it.centralHeader offset).info (stored (it.centralHeader offset).offset 4) buf).run
      (it.filename ++ (it.centralExtra offset ++ rest)) =
        some ((it.info offset, offset, nameRead it.filename buf), rest') := by
  obtain ⟨rest₁, hname, hrest₁⟩ := run_readFilename h buf rest
  -- without an extra field it does not matter where the reader is
  have hextra : ∃ rest₂, (readExtraFields (it.centralHeader offset).info.sizeFileExtra 0
      (it.centralHeader offset).info (stored (it.centralHeader offset).offset 4)).run rest₁ =
        some ((it.info offset, offset), rest₂) := by
    by_cases hnil : it.centralExtra offset = []
    · have hrun := run_readExtraFields h rest₁
      rw [hnil, List.nil_append] at hrun
      exact ⟨rest₁, hrun⟩
    · rw [hrest₁ hnil]
      exact ⟨rest, run_readExtraFields h rest⟩
  obtain ⟨rest₂, hextra⟩ := hextra
  refine ⟨rest₂, ?_⟩
  rw [readVariableFields, Reader.run_bind_of_some hname, Reader.run_bind_of_some hextra]
  rfl

/-- What is found at a header of the directory. -/
theorem getCurrentFileInfoInternal_eq {ι : Type} {s : Unz ι} (h : it.Fits offset) {rest : Bytes}
    (hs : s.seekSet s.posInCentralDir = (it.centralHeader offset).bytes ++ rest) (buf : Option ℕ) :
    s.getCurrentFileInfoInternal buf = .ok (it.info offset, offset, nameRead it.filename buf) := by
  obtain ⟨rest', hrun⟩ := run_readVariableFields h buf rest
  rw [Unz.getCurrentFileInfoInternal, hs, run_readCentralHeader]
  simp only [ne_eq, not_true_eq_false, if_false]
  have hfields : (it.centralHeader offset).filename ++ ((it.centralHeader offset).extra ++ rest) =
      it.filename ++ (it.centralExtra offset ++ rest) := rfl
  rw [hfields, hrun]

theorem szFileName_eq {ι : Type} {s : Unz ι} (h : it.Fits offset) {rest : Bytes}
    (hs : s.seekSet s.posInCentralDir = (it.centralHeader offset).bytes ++ rest) (fileNameBufferSize : ℕ) :
    s.szFileName fileNameBufferSize = it.filename.take fileNameBufferSize := by
  have hname : (it.centralHeader offset).info.sizeFilename = it.filename.length := sizeFilename_info h
  rw [Unz.szFileName, hs, run_readCentralHeader]
  simp only [ne_eq, not_true_eq_false, if_false]
  have hfields : (it.centralHeader offset).filename ++ ((it.centralHeader offset).extra ++ rest) =
      it.filename ++ (it.centralExtra offset ++ rest) := rfl
  rw [hfields, hname, List.take_append_of_le_length (Nat.min_le_left ..), ← List.take_take]
  exact List.take_of_length_le (List.length_take_le' ..)

/-! ## Local headers -/

theorem run_readLocalHeader (h : LocalHeader) (rest : Bytes) :
    readLocalHeader.run (h.bytes ++ rest) = some ((localHeaderMagic, stored h.flag 2, zDeflated, stored h.crc 4,
      stored h.compressedSize 4, stored h.uncompressedSize 4, stored h.sizeFilename 2, stored h.sizeExtra 2),
        h.filename ++ rest) := by
  simp only [readLocalHeader, LocalHeader.bytes, List.append_assoc, getShort, getLong, run_getNumber_bind]
  rfl

/-- A size agrees with the directory, or is all ones. -/
theorem sizeCoherent_stored (uFlags size : ℕ) (P : Prop) [Decidable P] :
    sizeCoherent uFlags (stored (if P then invalidValue else size) 4) size = true := by
  by_cases hP : P
  · have hinvalid : stored invalidValue 4 = 0xffffffff := by decide
    rw [if_pos hP, hinvalid]
    rfl
  · rw [if_neg hP]
    unfold sizeCoherent stored
    split
    · rfl
    · simp

/-- The local header of an entry agrees with its header in the directory. -/
theorem checkCurrentFileCoherencyHeader_eq {ι : Type} {s : Unz ι} (h : it.Fits offset) {rest : Bytes}
    (hs : s.seekSet s.offsetCurfile = it.localPart ++ rest) (hinfo : s.curFileInfo = it.info offset) :
    checkCurrentFileCoherencyHeader s = some (it.filename.length + 20) := by
  have hname : stored it.filename.length 2 = it.filename.length := stored_of_lt h.filename
  rw [checkCurrentFileCoherencyHeader, hs, Item.localPart, List.append_assoc, run_readLocalHeader, hinfo]
  have hsame : stored it.localHeader.sizeFilename 2 = (it.info offset).sizeFilename := rfl
  refine (if_pos ⟨rfl, rfl, .inr (.inr rfl), .inl rfl, sizeCoherent_stored _ _ _, sizeCoherent_stored _ _ _,
    hsame⟩).trans ?_
  show some (stored it.filename.length 2 + stored 20 2) = _
  rw [hname]
  rfl

/-! ## Dates -/

/-- A field of `n` bits from bit `k` on. -/
theorem and_field (x n k : ℕ) : (x &&& ((2 ^ n - 1) * 2 ^ k)) / 2 ^ k = x / 2 ^ k % 2 ^ n := by
  rw [← Nat.shiftLeft_eq, ← Nat.shiftRight_eq_div_pow, ← Nat.shiftRight_eq_div_pow, Nat.shiftRight_and_distrib,
    Nat.shiftLeft_shiftRight, Nat.and_two_pow_sub_one_eq_mod]

/-- The fields of a date, and those of a time. -/
theorem dosDateToTmuDate_eq {date time : ℕ} (htime : time < 2 ^ 16) :
    dosDateToTmuDate (date * 2 ^ 16 + time) = {
      mday := date % 32
      mon := (date / 32 % 16 + 2 ^ 32 - 1) % 2 ^ 32
      year := date / 512 % 128 + 1980
      hour := time / 2048 % 32
      min := time / 32 % 64
      sec := 2 * (time % 32) } := by
  have hdate : (date * 2 ^ 16 + time) >>> 16 = date := by
    rw [Nat.shiftRight_eq_div_pow]
    omega
  have hday : date &&& 0x1f = date % 32 := Nat.and_two_pow_sub_one_eq_mod date 5
  have hmon : (date &&& 0x1e0) / 0x20 = date / 32 % 16 := and_field date 4 5
  have hyear : (date &&& 0xfe00) / 0x200 = date / 512 % 128 := and_field date 7 9
  have hhour : ((date * 2 ^ 16 + time) &&& 0xf800) / 0x800 = (date * 2 ^ 16 + time) / 2048 % 32 := and_field _ 5 11
  have hmin : ((date * 2 ^ 16 + time) &&& 0x7e0) / 0x20 = (date * 2 ^ 16 + time) / 32 % 64 := and_field _ 6 5
  have hsec : (date * 2 ^ 16 + time) &&& 0x1f = (date * 2 ^ 16 + time) % 32 := Nat.and_two_pow_sub_one_eq_mod _ 5
  unfold dosDateToTmuDate
  simp only [hdate, hday, hmon, hyear, hhour, hmin, hsec, TmUnz.mk.injEq, and_true]
  omega

/-- A date comes back with its seconds rounded down to even ones, and a year of two or three digits counted from
1980 or 1900. -/
theorem tmuDate_of_tmzDate (t : TmZip) (hsec : t.sec < 64) (hmin : t.min < 64) (hhour : t.hour < 32)
    (hmday : t.mday < 32) (hmon : t.mon < 15) (hyear : t.year < 208 ∨ 1980 ≤ t.year ∧ t.year < 2108) :
    dosDateToTmuDate (tmzDateToDosDate t) = {
      sec := 2 * (t.sec / 2)
      min := t.min
      hour := t.hour
      mday := t.mday
      mon := t.mon
      year := if 1980 ≤ t.year then t.year else if 80 ≤ t.year then t.year + 1900 else t.year + 1980 } := by
  generalize hy : (if t.year ≥ 1980 then t.year - 1980 else if t.year ≥ 80 then t.year - 80 else t.year) = year
  have hlt : year < 128 := by
    rw [← hy]
    split
    · omega
    · split <;> omega
  have hback :
      (if 1980 ≤ t.year then t.year else if 80 ≤ t.year then t.year + 1900 else t.year + 1980) = year + 1980 := by
    rw [← hy]
    split
    · omega
    · split <;> omega
  have htime : t.sec / 2 + 32 * t.min + 2048 * t.hour < 2 ^ 16 := by omega
  have hdos : tmzDateToDosDate t =
      (t.mday + 32 * (t.mon + 1) + 512 * year) * 2 ^ 16 + (t.sec / 2 + 32 * t.min + 2048 * t.hour) := by
    have hdate : (t.mday + 32 * (t.mon + 1) + 512 * year) <<< 16 < 2 ^ 32 := by
      rw [Nat.shiftLeft_eq]
      omega
    unfold tmzDateToDosDate
    simp only [hy]
    rw [Nat.mod_eq_of_lt hdate, Nat.mod_eq_of_lt (by omega), ← Nat.shiftLeft_add_eq_or_of_lt htime, Nat.shiftLeft_eq]
  rw [hdos, dosDateToTmuDate_eq htime, hback, TmUnz.mk.injEq]
  omega

theorem tmuDate_of_tmzDate_y2k :
    dosDateToTmuDate (tmzDateToDosDate ⟨59, 59, 23, 31, 11, 99⟩) = ⟨58, 59, 23, 31, 11, 1999⟩ :=
  tmuDate_of_tmzDate ⟨59, 59, 23, 31, 11, 99⟩ (by decide) (by decide) (by decide) (by decide) (by decide) (by decide)

end AppUtil.MiniZip
