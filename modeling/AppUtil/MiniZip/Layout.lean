import AppUtil.MiniZip.Writing

/-! # What stands in an archive

Each entry with its local header, the central directory with one header for each entry, and the records
at the end; and that this is what `zip.c` writes, which enters sizes and checksum into both headers when
the entry is closed. -/
namespace AppUtil.MiniZip
open AppUtil.Lib
open AppUtil.Zip (Bytes zipOk)
set_option autoImplicit false

/-- An entry as it is stored. -/
structure Item where
  filename : Bytes
  flag : ℕ
  dosDate : ℕ
  internalFa : ℕ
  externalFa : ℕ
  crc : ℕ
  data : Bytes
  uncompressedSize : ℕ
  deriving DecidableEq, Repr

namespace Item

def localHeader (it : Item) : LocalHeader := {
  versionNeeded := 45
  flag := it.flag
  dosDate := it.dosDate
  crc := it.crc
  compressedSize := if it.uncompressedSize ≥ invalidValue then invalidValue else it.data.length
  uncompressedSize := if it.uncompressedSize ≥ invalidValue then invalidValue else it.uncompressedSize
  sizeFilename := it.filename.length
  sizeExtra := 20
  filename := it.filename }

def localExtra (it : Item) : Bytes :=
  if it.uncompressedSize ≥ invalidValue then localZip64Extra it.uncompressedSize it.data.length
  else localZip64Extra 0 0

def localPart (it : Item) : Bytes := it.localHeader.bytes ++ (it.localExtra ++ it.data)

/-- One of the sizes, or the offset, takes more than its four bytes. -/
def Large (it : Item) (offset : ℕ) : Prop :=
  it.data.length ≥ invalidValue ∨ it.uncompressedSize ≥ invalidValue ∨ offset ≥ invalidValue

instance (it : Item) (offset : ℕ) : Decidable (it.Large offset) :=
  inferInstanceAs (Decidable (_ ∨ _ ∨ _))

def zip64Extra (it : Item) (offset : ℕ) : Bytes :=
  (if it.uncompressedSize ≥ invalidValue then putValue it.uncompressedSize 8 else []) ++
    ((if it.data.length ≥ invalidValue then putValue it.data.length 8 else []) ++
    (if offset ≥ invalidValue then putValue offset 8 else []))

def centralExtra (it : Item) (offset : ℕ) : Bytes :=
  if it.Large offset then
    putValue 1 2 ++ (putValue (it.zip64Extra offset).length 2 ++ it.zip64Extra offset)
  else []

def centralHeader (it : Item) (offset : ℕ) : CentralHeader := {
  versionMadeBy := if it.Large offset then 45 else 0
  versionNeeded := if it.Large offset then 45 else 20
  flag := it.flag
  dosDate := it.dosDate
  crc := it.crc
  compressedSize := if it.data.length ≥ invalidValue then invalidValue else it.data.length
  uncompressedSize := if it.uncompressedSize ≥ invalidValue then invalidValue else it.uncompressedSize
  sizeFilename := it.filename.length
  sizeExtra := (it.centralExtra offset).length
  internalFa := it.internalFa
  externalFa := it.externalFa
  offset := if offset ≥ invalidValue then invalidValue else offset
  filename := it.filename
  extra := it.centralExtra offset }

end Item

def localParts (items : List Item) : Bytes := items.flatMap Item.localPart

/-- The central directory of entries of which the first has its local header at `offset`. -/
def centralDir : ℕ → List Item → Bytes
  | _, [] => []
  | offset, it :: rest => (it.centralHeader offset).bytes ++ centralDir (offset + it.localPart.length) rest

def zip64EndRecord (numberEntry size offset : ℕ) : Bytes :=
  putValue zip64EndHeaderMagic 4 ++ (putValue 44 8 ++ (putValue 45 2 ++ (putValue 45 2 ++ (putValue 0 4 ++
    (putValue 0 4 ++ (putValue numberEntry 8 ++ (putValue numberEntry 8 ++ (putValue size 8 ++
    putValue offset 8))))))))

def zip64Locator (pos : ℕ) : Bytes :=
  putValue zip64EndLocHeaderMagic 4 ++ (putValue 0 4 ++ (putValue pos 8 ++ putValue 1 4))

def endRecord (numberEntry size offset : ℕ) : Bytes :=
  putValue endHeaderMagic 4 ++ (putValue 0 2 ++ (putValue 0 2 ++ (putValue (min numberEntry 0xffff) 2 ++
    (putValue (min numberEntry 0xffff) 2 ++ (putValue size 4 ++ (putValue (min offset invalidValue) 4 ++
    putValue 0 2))))))

/-- The records of a directory that begins beyond what four bytes can tell. -/
def zip64End (items : List Item) : Bytes :=
  if (localParts items).length ≥ invalidValue then
    zip64EndRecord items.length ((centralDir 0 items).length % 2 ^ 32) (localParts items).length ++
      zip64Locator ((localParts items).length + (centralDir 0 items).length)
  else []

/-- The whole archive. -/
def archive (items : List Item) : Bytes :=
  localParts items ++ (centralDir 0 items ++ (zip64End items ++
    endRecord items.length ((centralDir 0 items).length % 2 ^ 32) (localParts items).length))

/-! ## Fields -/

@[simp] theorem length_putValue (x n : ℕ) : (putValue x n).length = n := by
  unfold putValue
  split
  · exact List.length_replicate
  · exact length_lowBytes n x

/-- What a field holds of a number. -/
def stored (x n : ℕ) : ℕ := if x / 256 ^ n ≠ 0 then 256 ^ n - 1 else x

theorem ofBytes_putValue (x n : ℕ) : ofBytes (putValue x n) = stored x n := by
  unfold putValue stored
  by_cases h : x / 256 ^ n = 0
  · have hlt : x < 256 ^ n := Nat.lt_of_div_eq_zero (Nat.pow_pos (by decide)) h
    rw [if_neg (fun hne => hne h), if_neg (fun hne => hne h), ofBytes_lowBytes hlt]
  · rw [if_pos h, if_pos h, ofBytes_replicate_max]

theorem stored_of_lt {x n : ℕ} (h : x < 256 ^ n) : stored x n = x :=
  if_neg fun hne => hne (Nat.div_eq_of_lt h)

theorem patch_skip {n k : ℕ} (new : Bytes) (x : ℕ) (rest : Bytes) (h : n ≤ k) :
    patch k new (putValue x n ++ rest) = putValue x n ++ patch (k - n) new rest := by
  have hlen : (putValue x n).length = n := length_putValue x n
  have htake : (putValue x n).take k = putValue x n := List.take_of_length_le (by omega)
  have hdrop : (putValue x n).drop (k + new.length) = [] := List.drop_eq_nil_of_le (by omega)
  have hk : k + new.length - n = k - n + new.length := by omega
  rw [patch, patch, List.take_append, List.drop_append, htake, hdrop, hlen, hk, List.nil_append,
    List.append_assoc, List.append_assoc, List.append_assoc]

theorem patch_here {n : ℕ} (x y : ℕ) (rest : Bytes) :
    patch 0 (putValue y n) (putValue x n ++ rest) = putValue y n ++ rest := by
  have hlen : (putValue y n).length = (putValue x n).length := by rw [length_putValue, length_putValue]
  exact patch_over [] rest rfl hlen

theorem CentralHeader.length_bytes (h : CentralHeader) :
    h.bytes.length = 46 + h.filename.length + h.extra.length := by
  simp only [CentralHeader.bytes, List.length_append, length_putValue]
  omega

theorem LocalHeader.length_bytes (h : LocalHeader) : h.bytes.length = 30 + h.filename.length := by
  simp only [LocalHeader.bytes, List.length_append, length_putValue]
  omega

theorem length_putValue_if (P : Prop) [Decidable P] (x n : ℕ) :
    (if P then putValue x n else []).length = if P then n else 0 := by
  split <;> simp

theorem Item.length_zip64Extra (it : Item) (offset : ℕ) :
    (it.zip64Extra offset).length = (if it.uncompressedSize ≥ invalidValue then 8 else 0) +
      ((if it.data.length ≥ invalidValue then 8 else 0) + if offset ≥ invalidValue then 8 else 0) := by
  rw [Item.zip64Extra, List.length_append, List.length_append, length_putValue_if, length_putValue_if,
    length_putValue_if]

theorem Item.zip64Extra_pos_iff (it : Item) (offset : ℕ) :
    0 < (it.zip64Extra offset).length ↔ it.Large offset := by
  rw [Item.length_zip64Extra, Item.Large]
  split <;> split <;> split <;> omega

theorem Item.length_zip64Extra_le (it : Item) (offset : ℕ) : (it.zip64Extra offset).length ≤ 24 := by
  rw [Item.length_zip64Extra]
  split <;> split <;> split <;> omega

theorem Item.length_localExtra (it : Item) : it.localExtra.length = 20 := by
  unfold Item.localExtra
  split <;> simp [localZip64Extra]

theorem Item.length_localPart (it : Item) :
    it.localPart.length = 50 + it.filename.length + it.data.length := by
  simp only [localPart, List.length_append, LocalHeader.length_bytes, length_localExtra, localHeader]
  omega

/-! ## Writing at the end -/

/-- A file that is written to at its end. -/
def OutFile.ended (bytes : Bytes) : OutFile := ⟨bytes, bytes.length⟩

theorem OutFile.write_ended (bytes buf : Bytes) : (OutFile.ended bytes).write buf = .ended (bytes ++ buf) := by
  rw [OutFile.write, OutFile.ended, OutFile.ended, patch_end, List.length_append]

theorem OutFile.putValue_ended (bytes : Bytes) (x n : ℕ) :
    (OutFile.ended bytes).putValue x n = .ended (bytes ++ MiniZip.putValue x n) :=
  OutFile.write_ended bytes (MiniZip.putValue x n)

theorem min_eq_ite (x y : ℕ) : (if x ≥ y then y else x) = min x y := by
  split <;> omega

theorem write_endRecord (bytes : Bytes) (numberEntry size offset : ℕ) :
    writeGlobalComment (writeEndOfCentralDirectoryRecord numberEntry size offset (.ended bytes)) =
      .ended (bytes ++ endRecord numberEntry size offset) := by
  simp only [writeGlobalComment, writeEndOfCentralDirectoryRecord, OutFile.putValue_ended, endRecord, min_eq_ite,
    List.append_assoc]

theorem write_zip64End (bytes : Bytes) (numberEntry size offset pos : ℕ) :
    writeZip64EndOfCentralDirectoryLocator pos
        (writeZip64EndOfCentralDirectoryRecord numberEntry size offset (.ended bytes)) =
      .ended (bytes ++ (zip64EndRecord numberEntry size offset ++ zip64Locator pos)) := by
  simp only [writeZip64EndOfCentralDirectoryLocator, writeZip64EndOfCentralDirectoryRecord,
    OutFile.putValue_ended, zip64EndRecord, zip64Locator, List.append_assoc]

/-! ## The list of data blocks -/

theorem fillBlocks_spec (fuel : ℕ) (ldi buf : Bytes) (hfuel : buf.length < fuel)
    (hldi : ldi.length ≤ sizeDataInDatablock) :
    (fillBlocks fuel ldi buf).flatten = ldi ++ buf ∧
      ∀ block ∈ fillBlocks fuel ldi buf, block.length ≤ sizeDataInDatablock := by
  induction fuel generalizing ldi buf with
  | zero => omega
  | succ fuel ih =>
    have hsize : 0 < sizeDataInDatablock := by decide
    unfold fillBlocks
    by_cases hbuf : buf = []
    · rw [if_pos hbuf, hbuf]
      refine ⟨by simp, fun block hblock => ?_⟩
      rw [List.mem_singleton.mp hblock]
      exact hldi
    · have hpos : 0 < buf.length := List.length_pos_iff.mpr hbuf
      rw [if_neg hbuf]
      by_cases hfull : ldi.length = sizeDataInDatablock
      · rw [if_pos hfull]
        obtain ⟨hflat, hle⟩ := ih (buf.take sizeDataInDatablock) (buf.drop sizeDataInDatablock)
          (by rw [List.length_drop]; omega) (List.length_take_le _ _)
        refine ⟨?_, fun block hblock => ?_⟩
        · rw [List.flatten_cons, hflat, List.take_append_drop]
        · cases List.mem_cons.mp hblock with
          | inl h =>
            rw [h]
            exact hldi
          | inr h => exact hle block h
      · rw [if_neg hfull]
        have hcopy : 0 < min (sizeDataInDatablock - ldi.length) buf.length := by omega
        obtain ⟨hflat, hle⟩ := ih (ldi ++ buf.take (min (sizeDataInDatablock - ldi.length) buf.length))
          (buf.drop (min (sizeDataInDatablock - ldi.length) buf.length))
          (by rw [List.length_drop]; omega) (by rw [List.length_append, List.length_take]; omega)
        refine ⟨?_, hle⟩
        rw [hflat, List.append_assoc, List.take_append_drop]

/-- No block is filled beyond its size, and together they hold what was added. -/
theorem addDataInDatablock_spec {ll : List Bytes} (hll : ∀ block ∈ ll, block.length ≤ sizeDataInDatablock)
    (buf : Bytes) :
    (addDataInDatablock ll buf).flatten = ll.flatten ++ buf ∧
      ∀ block ∈ addDataInDatablock ll buf, block.length ≤ sizeDataInDatablock := by
  unfold addDataInDatablock
  cases hlast : ll.getLast? with
  | none =>
    rw [List.getLast?_eq_none_iff.mp hlast]
    exact fillBlocks_spec _ [] buf (Nat.lt_succ_self _) (Nat.zero_le _)
  | some ldi =>
    have hmem : ldi ∈ ll := List.mem_of_getLast? hlast
    have hsplit : ll = ll.dropLast ++ [ldi] := (List.dropLast_append_getLast? ldi hlast).symm
    obtain ⟨hflat, hle⟩ := fillBlocks_spec (buf.length + 1) ldi buf (Nat.lt_succ_self _) (hll ldi hmem)
    refine ⟨?_, fun block hblock => ?_⟩
    · show (ll.dropLast ++ fillBlocks (buf.length + 1) ldi buf).flatten = ll.flatten ++ buf
      rw [List.flatten_append, hflat]
      conv_rhs => rw [hsplit]
      rw [List.flatten_append, List.flatten_singleton, List.append_assoc]
    · cases List.mem_append.mp hblock with
      | inl h => exact hll block (List.dropLast_subset ll h)
      | inr h => exact hle block h

theorem writeBlocks_eq (bytes : Bytes) (size : ℕ) (ll : List Bytes) :
    writeBlocks (.ended bytes) (size % 2 ^ 32) ll =
      (.ended (bytes ++ ll.flatten), (size + ll.flatten.length) % 2 ^ 32) := by
  induction ll generalizing bytes size with
  | nil => simp [writeBlocks]
  | cons ldi rest ih =>
    have hwrite : (if 0 < ldi.length then (OutFile.ended bytes).write ldi else .ended bytes) =
        .ended (bytes ++ ldi) := by
      by_cases hldi : 0 < ldi.length
      · rw [if_pos hldi, OutFile.write_ended]
      · have hnil : ldi = [] := List.length_eq_zero_iff.mp (by omega)
        rw [if_neg hldi, hnil, List.append_nil]
    rw [writeBlocks, hwrite, Nat.mod_add_mod, ih, List.flatten_cons, List.append_assoc, List.length_append,
      Nat.add_assoc]

end AppUtil.MiniZip
