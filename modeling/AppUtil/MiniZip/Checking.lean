import AppUtil.MiniZip.Codec
import AppUtil.MiniZip.Inflating

/-! # Reading whatever file

What holds of the data of a file when nothing is known of the archive: how much of it is delivered, and when
`unzCloseCurrentFile` finds the checksum wrong. -/
namespace AppUtil.MiniZip
open AppUtil.Lib
open AppUtil.Zip (Bytes)
set_option autoImplicit false
variable {δ ι : Type}

/-- What `zlib.h` says of calls on any data: `inflate` stays in the buffer, and the checksum is taken byte by
byte. -/
structure Zlib.Bounded (Z : Zlib δ ι) : Prop where
  out_le : ∀ s nextIn room, (Z.inflate s nextIn room).out.length ≤ room
  crc32_nil : ∀ crc, Z.crc32 crc [] = crc
  crc32_append : ∀ crc a b, Z.crc32 crc (a ++ b) = Z.crc32 (Z.crc32 crc a) b

/-! ## Calls -/

section Moving
variable {ι : Type}

def unzMaxFilenameInZip : ℕ := 256

/-- `unzGoToFilePos64`. -/
def unzGoToFilePos64 (s : Unz ι) (posInZipDirectory numOfFile : ℕ) : ℤ × Unz ι :=
  Unz.loadCurrentFile { s with posInCentralDir := posInZipDirectory, numFile := numOfFile }

/-- `unzSetOffset64`. -/
def unzSetOffset64 (s : Unz ι) (pos : ℕ) : ℤ × Unz ι :=
  Unz.loadCurrentFile { s with posInCentralDir := pos, numFile := s.numberEntry }

/-- The loop of `unzLocateFile`, where `same` compares with the name that is looked for. -/
def locateLoop (same : Bytes → Bool) : ℕ → ℤ → Unz ι → Option (ℤ × Unz ι)
  | 0, _, _ => none
  | fuel + 1, err, s =>
    if err ≠ unzOk then some (err, s)
    else
      match s.getCurrentFileInfoInternal (some unzMaxFilenameInZip) with
      | .error err => some (err, s)
      | .ok (_, _, szCurrentFileName) =>
        if same szCurrentFileName then some (unzOk, s)
        else locateLoop same fuel s.unzGoToNextFile.1 s.unzGoToNextFile.2

/-- `unzLocateFile`. What is not found leaves the current file as it was, though not `current_file_ok`. -/
def unzLocateFile (same : Bytes → Bool) (fuel : ℕ) (s : Unz ι) (szFileName : Bytes) : Option (ℤ × Unz ι) :=
  if unzMaxFilenameInZip ≤ szFileName.length then some (unzParamError, s)
  else if s.currentFileOk = false then some (unzEndOfListOfFile, s)
  else (locateLoop same fuel s.unzGoToFirstFile.1 s.unzGoToFirstFile.2).map fun (err, s') =>
    if err = unzOk then (err, s')
    else (err, { s' with
      numFile := s.numFile
      posInCentralDir := s.posInCentralDir
      curFileInfo := s.curFileInfo
      offsetCurfile := s.offsetCurfile })

end Moving

/-- What is told of a file that is open: the header that it was opened with, whether it was opened raw, and what has
been delivered of it. -/
structure OpenFile where
  info : FileInfo
  raw : Bool
  given : Bytes

/-- The calls of a program on an archive, in any order, but for those that only tell something. -/
inductive UnzRun (Z : Zlib δ ι) (file : Bytes) : Unz ι → Option OpenFile → Prop where
  | opened {s : Unz ι} (h : unzOpen64 file = some s) : UnzRun Z file s none
  | goToFirst {s : Unz ι} {g : Option OpenFile} (h : UnzRun Z file s g) : UnzRun Z file s.unzGoToFirstFile.2 g
  | goToNext {s : Unz ι} {g : Option OpenFile} (h : UnzRun Z file s g) : UnzRun Z file s.unzGoToNextFile.2 g
  | goToFilePos {s : Unz ι} {g : Option OpenFile} (h : UnzRun Z file s g) (posInZipDirectory numOfFile : ℕ) :
      UnzRun Z file (unzGoToFilePos64 s posInZipDirectory numOfFile).2 g
  | setOffset {s : Unz ι} {g : Option OpenFile} (h : UnzRun Z file s g) (pos : ℕ) :
      UnzRun Z file (unzSetOffset64 s pos).2 g
  | locate {s s' : Unz ι} {g : Option OpenFile} {same : Bytes → Bool} {fuel : ℕ} {szFileName : Bytes} {ret : ℤ}
      (h : UnzRun Z file s g) (hlocate : unzLocateFile same fuel s szFileName = some (ret, s')) : UnzRun Z file s' g
  | openCurrent {s : Unz ι} {g : Option OpenFile} (h : UnzRun Z file s g) (raw password : Bool)
      (hok : (unzOpenCurrentFile3 Z s raw password).1 = unzOk) :
      UnzRun Z file (unzOpenCurrentFile3 Z s raw password).2 (some ⟨s.curFileInfo, raw, []⟩)
  | openFails {s : Unz ι} {g : Option OpenFile} (h : UnzRun Z file s g) (raw password : Bool)
      (hfails : (unzOpenCurrentFile3 Z s raw password).1 ≠ unzOk) :
      UnzRun Z file (unzOpenCurrentFile3 Z s raw password).2
        (if password ∨ s.currentFileOk = false then g else none)
  | read {s s' : Unz ι} {g : Option OpenFile} {fuel len : ℕ} {ret : ℤ} {out : Bytes}
      (h : UnzRun Z file s g) (hlen : len < 2 ^ 32) (hread : unzReadCurrentFile Z fuel s len = some (ret, out, s')) :
      UnzRun Z file s' (g.map fun f => { f with given := f.given ++ out })
  | close {s : Unz ι} {g : Option OpenFile} (h : UnzRun Z file s g) :
      UnzRun Z file (unzCloseCurrentFile s).2 none

/-- Data that is copied, or whose length the counters of zlib can hold. -/
def FileInfo.Counted (info : FileInfo) : Prop :=
  info.compressionMethod = 0 ∨ info.compressionMethod = zDeflated ∧ info.uncompressedSize < 2 ^ 32

/-- What a file that is open tells of what was delivered. -/
structure Accounts (Z : Zlib δ ι) (info : FileInfo) (raw : Bool) (given : Bytes) (p : ReadInfo ι) : Prop where
  method : p.compressionMethod = info.compressionMethod
  supported : info.compressionMethod = 0 ∨ info.compressionMethod = zBzip2ed ∨ info.compressionMethod = zDeflated
  copies : p.raw = (raw || decide (info.compressionMethod = zBzip2ed))
  crc32Wait : p.crc32Wait = info.crc
  crc32 : p.crc32 = Z.crc32 0 given
  totalOut : p.totalOut = given.length % 2 ^ 32
  size : info.uncompressedSize < 2 ^ 64
  counted : raw = false → info.Counted → given.length ≤ info.uncompressedSize ∧
    p.restReadUncompressed = info.uncompressedSize - given.length
  wrapped : raw = false → info.compressionMethod = zDeflated →
    p.restReadUncompressed = (info.uncompressedSize + 2 ^ 64 - given.length % 2 ^ 32) % 2 ^ 64

namespace Accounts
variable {Z : Zlib δ ι} {info : FileInfo} {raw : Bool} {given : Bytes} {p : ReadInfo ι} {s : Unz ι}

/-- A buffer that is filled again changes nothing of this. -/
theorem refill (h : Accounts Z info raw given p) {p' : ReadInfo ι} (hrefill : MiniZip.refill s p = some p') :
    Accounts Z info raw given p' ∧ p'.restReadUncompressed = p.restReadUncompressed := by
  unfold MiniZip.refill at hrefill
  split at hrefill
  · obtain ⟨r, -, rfl⟩ := Option.map_eq_some_iff.mp hrefill
    exact ⟨⟨h.method, h.supported, h.copies, h.crc32Wait, h.crc32, h.totalOut, h.size, h.counted, h.wrapped⟩, rfl⟩
  · obtain rfl := Option.some.inj hrefill
    exact ⟨h, rfl⟩

theorem zero_ne_deflated : (0 : ℕ) ≠ zDeflated := by decide

/-- Bytes that are copied. -/
theorem copied (hZ : Z.Bounded) (h : Accounts Z info raw given p) (hcopies : p.compressionMethod = 0 ∨ p.raw = true)
    {availOut : ℕ} (hroom : raw = false → info.Counted → availOut ≤ p.restReadUncompressed) {n : ℕ} (hn : n ≤ availOut)
    (hlen : n ≤ p.nextIn.length) :
    Accounts Z info raw (given ++ p.nextIn.take n)
      { p with
        totalOut := (p.totalOut + n) % 2 ^ 32
        nextIn := p.nextIn.drop n
        crc32 := Z.crc32 p.crc32 (p.nextIn.take n)
        restReadUncompressed := (p.restReadUncompressed + 2 ^ 64 - n) % 2 ^ 64 } ∧
      (raw = false → info.Counted → availOut - n ≤ (p.restReadUncompressed + 2 ^ 64 - n) % 2 ^ 64) := by
  have hmethod : raw = false → info.compressionMethod ≠ zDeflated := by
    intro hraw hdeflated
    rcases hcopies with hzero | hcopies
    · exact zero_ne_deflated (hzero.symm.trans (h.method.trans hdeflated))
    · rw [h.copies, hraw, hdeflated] at hcopies
      exact absurd hcopies (by decide)
  have htake : (p.nextIn.take n).length = n := List.length_take_of_le hlen
  have hsize := h.size
  refine ⟨⟨h.method, h.supported, h.copies, h.crc32Wait, ?_, ?_, h.size, fun hraw hc => ?_,
    fun hraw hd => absurd hd (hmethod hraw)⟩, fun hraw hc => ?_⟩
  · show Z.crc32 p.crc32 (p.nextIn.take n) = _
    rw [h.crc32, hZ.crc32_append]
  · show (p.totalOut + n) % 2 ^ 32 = _
    rw [h.totalOut, List.length_append, htake, Nat.mod_add_mod]
  · obtain ⟨hle, hrest⟩ := h.counted hraw hc
    have hroom := hroom hraw hc
    rw [List.length_append, htake]
    show given.length + n ≤ info.uncompressedSize ∧ (p.restReadUncompressed + 2 ^ 64 - n) % 2 ^ 64 = _
    omega
  · obtain ⟨hle, hrest⟩ := h.counted hraw hc
    have hroom := hroom hraw hc
    omega

/-- Bytes that `inflate` puts out. -/
theorem inflated (hZ : Z.Bounded) (h : Accounts Z info raw given p)
    (hcopies : ¬ (p.compressionMethod = 0 ∨ p.raw = true))
    {availOut : ℕ} (hroom : raw = false → info.Counted → availOut ≤ p.restReadUncompressed) {out : Bytes}
    (hout : out.length ≤ availOut) (havail : availOut < 2 ^ 32) (taken : ℕ) (stream : ι) :
    Accounts Z info raw (given ++ out) { p.delivered Z taken out with stream := stream } ∧
      (raw = false → info.Counted → availOut - out.length ≤ (p.delivered Z taken out).restReadUncompressed) := by
  have hmethod : info.compressionMethod = zDeflated := by
    rcases h.supported with hzero | hbzip | hdeflated
    · exact absurd (.inl (h.method.trans hzero)) hcopies
    · exact absurd (.inr (by rw [h.copies, decide_eq_true hbzip, Bool.or_true])) hcopies
    · exact hdeflated
  have hsize := h.size
  have htotal := h.totalOut
  have hlen : (given ++ out).length = given.length + out.length := List.length_append
  have hrest : (p.delivered Z taken out).restReadUncompressed =
      (p.restReadUncompressed + 2 ^ 64 -
        ((p.totalOut + out.length) % 2 ^ 32 + 2 ^ 64 - p.totalOut) % 2 ^ 64) % 2 ^ 64 := rfl
  have hsmall : info.Counted → info.uncompressedSize < 2 ^ 32 := by
    rintro (hzero | hsmall)
    · exact absurd (hzero.symm.trans hmethod) zero_ne_deflated
    · exact hsmall.2
  have hcount : raw = false → info.Counted → given.length + out.length ≤ info.uncompressedSize ∧
      (p.delivered Z taken out).restReadUncompressed = info.uncompressedSize - (given.length + out.length) := by
    intro hraw hc
    obtain ⟨hle, hcount⟩ := h.counted hraw hc
    have hroom := hroom hraw hc
    have hsmall := hsmall hc
    -- the counter does not wrap
    have hthis : p.totalOut = given.length := by omega
    rw [hrest, hthis]
    omega
  refine ⟨⟨h.method, h.supported, h.copies, h.crc32Wait, ?_, ?_, h.size, fun hraw hc => ?_, fun hraw _ => ?_⟩,
    fun hraw hc => ?_⟩
  · show Z.crc32 p.crc32 out = _
    rw [h.crc32, hZ.crc32_append]
  · show (p.totalOut + out.length) % 2 ^ 32 = _
    rw [htotal, hlen, Nat.mod_add_mod]
  · rw [hlen]
    exact hcount hraw hc
  · have hwrapped := h.wrapped hraw hmethod
    show (p.delivered Z taken out).restReadUncompressed = _
    rw [hlen, hrest]
    omega
  · obtain ⟨-, hcounted⟩ := h.counted hraw hc
    have hroom := hroom hraw hc
    have hcount := hcount hraw hc
    omega

theorem readLoop (hZ : Z.Bounded) (fuel : ℕ) {availOut : ℕ} {out out' : Bytes} {ret : ℤ} {p' : ReadInfo ι}
    (h : Accounts Z info raw given p) (hroom : raw = false → info.Counted → availOut ≤ p.restReadUncompressed)
    (havail : availOut < 2 ^ 32) (hloop : MiniZip.readLoop Z s fuel p availOut out = some (ret, out', p')) :
    ∃ more, out' = out ++ more ∧ Accounts Z info raw (given ++ more) p' := by
  induction fuel generalizing given p availOut out with
  | zero => cases hloop
  | succ fuel ih =>
    have hnone : Accounts Z info raw (given ++ []) p := by rwa [List.append_nil]
    unfold MiniZip.readLoop at hloop
    split at hloop
    · cases hloop
      exact ⟨[], (List.append_nil _).symm, hnone⟩
    · cases hrefill : MiniZip.refill s p with
      | none =>
        rw [hrefill] at hloop
        cases hloop
        exact ⟨[], (List.append_nil _).symm, hnone⟩
      | some p₁ =>
        rw [hrefill] at hloop
        obtain ⟨h₁, hrest⟩ := h.refill hrefill
        have hroom₁ : raw = false → info.Counted → availOut ≤ p₁.restReadUncompressed :=
          fun hraw hc => hrest ▸ hroom hraw hc
        have hnone₁ : Accounts Z info raw (given ++ []) p₁ := by rwa [List.append_nil]
        dsimp only at hloop
        split at hloop
        · rename_i hcopies
          split at hloop
          · cases hloop
            exact ⟨[], (List.append_nil _).symm, hnone₁⟩
          · obtain ⟨h₂, hroom₂⟩ := h₁.copied hZ hcopies hroom₁ (Nat.min_le_left availOut p₁.nextIn.length)
              (Nat.min_le_right availOut p₁.nextIn.length)
            obtain ⟨more, rfl, h₃⟩ := ih h₂ hroom₂ (by omega) hloop
            exact ⟨_, List.append_assoc .., by rwa [List.append_assoc] at h₃⟩
        · rename_i hcopies
          have hout := hZ.out_le p₁.stream p₁.nextIn availOut
          generalize Z.inflate p₁.stream p₁.nextIn availOut = r at hloop hout
          obtain ⟨h₂, hroom₂⟩ := h₁.inflated hZ hcopies hroom₁ hout havail r.taken r.stream
          generalize (if 0 ≤ r.ret ∧ Z.msg r.stream = true then zDataError else r.ret) = err at hloop
          split at hloop
          · cases hloop
            exact ⟨_, rfl, h₂⟩
          · split at hloop
            · cases hloop
              exact ⟨_, rfl, h₂⟩
            · obtain ⟨more, rfl, h₃⟩ := ih h₂ hroom₂ (by omega) hloop
              exact ⟨_, List.append_assoc .., by rwa [List.append_assoc] at h₃⟩

/-- A call of `unzReadCurrentFile`. -/
theorem read (hZ : Z.Bounded) (h : Accounts Z info raw given p) (hopen : s.pfileInZipRead = some p) {fuel len : ℕ}
    (hlen : len < 2 ^ 32) {ret : ℤ} {out : Bytes} {s' : Unz ι}
    (hread : unzReadCurrentFile Z fuel s len = some (ret, out, s')) :
    ∃ p', s' = { s with pfileInZipRead := some p' } ∧ Accounts Z info raw (given ++ out) p' := by
  unfold unzReadCurrentFile at hread
  rw [hopen] at hread
  dsimp only at hread
  split at hread
  · cases hread
    refine ⟨p, ?_, by rwa [List.append_nil]⟩
    rw [← hopen]
  · obtain ⟨⟨ret', out', p'⟩, hloop, heq⟩ := Option.map_eq_some_iff.mp hread
    cases heq
    have hroom : raw = false → info.Counted → p.availOut len ≤ p.restReadUncompressed := by
      intro hraw hc
      have hraw' : p.raw = false := by
        rw [h.copies, hraw]
        rcases hc with hzero | hdeflated
        · rw [hzero]
          rfl
        · rw [hdeflated.1]
          rfl
      rw [ReadInfo.availOut, hraw']
      exact Nat.min_le_right len p.restReadUncompressed
    have havail : p.availOut len < 2 ^ 32 := by
      unfold ReadInfo.availOut
      split <;> omega
    obtain ⟨more, rfl, h'⟩ := h.readLoop hZ fuel hroom havail hloop
    exact ⟨p', rfl, h'⟩

/-- What `unzCloseCurrentFile` answers. -/
theorem close (h : Accounts Z info raw given p) (hopen : s.pfileInZipRead = some p) :
    (unzCloseCurrentFile s).1 = unzCrcError ↔ raw = false ∧ Z.crc32 0 given ≠ info.crc ∧
      (info.compressionMethod = zDeflated ∧ given.length % 2 ^ 32 = info.uncompressedSize ∨
        info.compressionMethod = 0 ∧ given.length = info.uncompressedSize) := by
  have hsize := h.size
  have hmod : given.length % 2 ^ 32 < 2 ^ 32 := Nat.mod_lt _ (by decide)
  have hwhen : p.restReadUncompressed = 0 ∧ p.raw = false ↔ raw = false ∧
      (info.compressionMethod = zDeflated ∧ given.length % 2 ^ 32 = info.uncompressedSize ∨
        info.compressionMethod = 0 ∧ given.length = info.uncompressedSize) := by
    rw [h.copies, Bool.or_eq_false_iff]
    cases hraw : raw with
    | true => exact ⟨fun hnone => absurd hnone.2.1 (by decide), fun hall => absurd hall.1 (by decide)⟩
    | false =>
      rcases h.supported with hzero | hbzip | hdeflated
      · obtain ⟨hle, hrest⟩ := h.counted hraw (.inl hzero)
        rw [hzero, hrest]
        constructor
        · rintro ⟨hnone, -⟩
          exact ⟨rfl, .inr ⟨rfl, by omega⟩⟩
        · rintro ⟨-, ⟨hzero, -⟩ | ⟨-, hall⟩⟩
          · exact absurd hzero zero_ne_deflated
          · exact ⟨by omega, rfl, rfl⟩
      · rw [hbzip]
        constructor
        · rintro ⟨-, -, hraw⟩
          exact absurd hraw (by decide)
        · rintro ⟨-, ⟨hdeflated, -⟩ | ⟨hzero, -⟩⟩
          · exact absurd hdeflated (by decide)
          · exact absurd hzero (by decide)
      · rw [hdeflated, h.wrapped hraw hdeflated]
        constructor
        · rintro ⟨hnone, -⟩
          exact ⟨rfl, .inl ⟨rfl, by omega⟩⟩
        · rintro ⟨-, ⟨-, hall⟩ | ⟨hzero, -⟩⟩
          · exact ⟨by omega, rfl, rfl⟩
          · exact absurd hzero.symm zero_ne_deflated
  rw [unzCloseCurrentFile, hopen, ← h.crc32, ← h.crc32Wait]
  show (if _ then _ else _) = unzCrcError ↔ _
  split
  · rename_i hbad
    obtain ⟨hraw, hall⟩ := hwhen.mp ⟨hbad.1, hbad.2.1⟩
    exact ⟨fun _ => ⟨hraw, hbad.2.2, hall⟩, fun _ => rfl⟩
  · rename_i hgood
    constructor
    · intro hok
      exact absurd hok (by decide)
    · rintro ⟨hraw, hcrc, hall⟩
      obtain ⟨hzero, hraw'⟩ := hwhen.mpr ⟨hraw, hall⟩
      exact absurd ⟨hzero, hraw', hcrc⟩ hgood

end Accounts

/-! ## Headers -/

theorem gives_readCentralHeader : Reader.Gives readCentralHeader fun r => r.2.1.uncompressedSize < 2 ^ 64 := by
  unfold readCentralHeader getLong getShort
  -- the eight fields before the size
  iterate 8 refine (Reader.gives_any _).bind fun _ _ => ?_
  refine (gives_getNumber 4).bind fun uncompressedSize hsize => ?_
  iterate 7 refine (Reader.gives_any _).bind fun _ _ => ?_
  exact Reader.gives_pure (Nat.lt_of_lt_of_le hsize (by decide))

theorem gives_getIfInvalid {value : ℕ} (h : value < 2 ^ 64) :
    Reader.Gives (getIfInvalid value) fun x => x < 2 ^ 64 := by
  unfold getIfInvalid
  split
  · exact gives_getNumber 8
  · exact Reader.gives_pure h

theorem gives_readZip64Extra {info : FileInfo} (offsetCurfile : ℕ) (h : info.uncompressedSize < 2 ^ 64) :
    Reader.Gives (readZip64Extra info offsetCurfile) fun r => r.1.uncompressedSize < 2 ^ 64 := by
  unfold readZip64Extra
  refine (gives_getIfInvalid h).bind fun uncompressedSize hsize => ?_
  iterate 3 refine (Reader.gives_any _).bind fun _ _ => ?_
  exact Reader.gives_pure hsize

theorem gives_readExtraFields (fuel acc : ℕ) {info : FileInfo} (offsetCurfile : ℕ)
    (h : info.uncompressedSize < 2 ^ 64) :
    Reader.Gives (readExtraFields fuel acc info offsetCurfile) fun r => r.1.uncompressedSize < 2 ^ 64 := by
  induction fuel generalizing acc info offsetCurfile with
  | zero => exact Reader.gives_pure h
  | succ fuel ih =>
    unfold readExtraFields
    split
    · iterate 2 refine (Reader.gives_any _).bind fun _ _ => ?_
      split
      · refine (gives_readZip64Extra offsetCurfile h).bind fun r hr => ?_
        exact ih _ r.2 hr
      · exact (Reader.gives_any _).bind fun _ _ => ih _ offsetCurfile h
    · exact Reader.gives_pure h

section Runs
variable {Z : Zlib δ ι} {file : Bytes} {s : Unz ι} {g : Option OpenFile} {f : OpenFile}

theorem size_of_getCurrentFileInfoInternal {fileNameBufferSize : Option ℕ} {r : FileInfo × ℕ × Bytes}
    (h : s.getCurrentFileInfoInternal fileNameBufferSize = .ok r) : r.1.uncompressedSize < 2 ^ 64 := by
  unfold Unz.getCurrentFileInfoInternal at h
  split at h
  · cases h
  · rename_i uMagic info offsetCurfile rest hheader
    split at h
    · cases h
    · split at h
      · cases h
      · rename_i found rest' hfields
        cases h
        have hsize : info.uncompressedSize < 2 ^ 64 := gives_readCentralHeader _ _ _ hheader
        have hgives : Reader.Gives (readVariableFields info offsetCurfile fileNameBufferSize)
            fun r => r.1.uncompressedSize < 2 ^ 64 := by
          unfold readVariableFields
          refine (Reader.gives_any _).bind fun szFileName _ => ?_
          exact (gives_readExtraFields _ 0 offsetCurfile hsize).bind fun r hr => Reader.gives_pure hr
        exact hgives _ _ _ hfields

/-- What is so in every run. -/
structure Sound (Z : Zlib δ ι) (s : Unz ι) (g : Option OpenFile) : Prop where
  size : s.curFileInfo.uncompressedSize < 2 ^ 64
  closed : g = none → s.pfileInZipRead = none
  accounts : ∀ f, g = some f → ∃ p, s.pfileInZipRead = some p ∧ Accounts Z f.info f.raw f.given p

theorem Sound.loadCurrentFile (h : Sound Z s g) : Sound Z s.loadCurrentFile.2 g := by
  unfold Unz.loadCurrentFile
  split
  · rename_i info offsetCurfile name hinfo
    exact ⟨size_of_getCurrentFileInfoInternal hinfo, h.closed, h.accounts⟩
  · exact ⟨h.size, h.closed, h.accounts⟩

/-- Where the current file is makes no difference. -/
theorem Sound.moved (h : Sound Z s g) (posInCentralDir numFile : ℕ) :
    Sound Z { s with posInCentralDir := posInCentralDir, numFile := numFile } g :=
  ⟨h.size, h.closed, h.accounts⟩

theorem Sound.unzGoToNextFile (h : Sound Z s g) : Sound Z s.unzGoToNextFile.2 g := by
  unfold Unz.unzGoToNextFile
  split
  · exact h
  · split
    · exact h
    · exact (h.moved _ _).loadCurrentFile

theorem Sound.locateLoop (h : Sound Z s g) {same : Bytes → Bool} {fuel : ℕ} {err ret : ℤ} {s' : Unz ι}
    (hloop : MiniZip.locateLoop same fuel err s = some (ret, s')) : Sound Z s' g := by
  induction fuel generalizing err s with
  | zero => cases hloop
  | succ fuel ih =>
    unfold MiniZip.locateLoop at hloop
    split at hloop
    · cases hloop
      exact h
    · split at hloop
      · cases hloop
        exact h
      · split at hloop
        · cases hloop
          exact h
        · exact ih h.unzGoToNextFile hloop

theorem Sound.unzLocateFile (h : Sound Z s g) {same : Bytes → Bool} {fuel : ℕ} {szFileName : Bytes} {ret : ℤ}
    {s' : Unz ι} (hlocate : MiniZip.unzLocateFile same fuel s szFileName = some (ret, s')) : Sound Z s' g := by
  unfold MiniZip.unzLocateFile at hlocate
  split at hlocate
  · cases hlocate
    exact h
  · split at hlocate
    · cases hlocate
      exact h
    · obtain ⟨⟨err, s''⟩, hloop, heq⟩ := Option.map_eq_some_iff.mp hlocate
      have h'' : Sound Z s'' g := (h.moved _ _).loadCurrentFile.locateLoop hloop
      dsimp only at heq
      split at heq
      · cases heq
        exact h''
      · cases heq
        exact ⟨h.size, h''.closed, h''.accounts⟩

theorem Sound.unzCloseCurrentFile (h : Sound Z s g) : Sound Z (unzCloseCurrentFile s).2 none := by
  refine ⟨?_, fun _ => ?_, nofun⟩
  · unfold MiniZip.unzCloseCurrentFile
    split
    · exact h.size
    · exact h.size
  · unfold MiniZip.unzCloseCurrentFile
    split
    · assumption
    · rfl

theorem supported_of_checkCurrentFileCoherencyHeader {iSizeVar : ℕ}
    (h : checkCurrentFileCoherencyHeader s = some iSizeVar) :
    s.curFileInfo.compressionMethod = 0 ∨ s.curFileInfo.compressionMethod = zBzip2ed ∨
      s.curFileInfo.compressionMethod = zDeflated := by
  unfold checkCurrentFileCoherencyHeader at h
  split at h
  · cases h
  · split at h
    · rename_i hcheck
      exact hcheck.2.2.1
    · cases h

theorem curFileInfo_unzCloseCurrentFile : (unzCloseCurrentFile s).2.curFileInfo = s.curFileInfo := by
  unfold unzCloseCurrentFile
  split
  · rfl
  · rfl

/-- A file that has just been opened. -/
theorem accounts_newReadInfo (hZ : Z.Bounded) (h : s.curFileInfo.uncompressedSize < 2 ^ 64) {iSizeVar : ℕ}
    (hcheck : checkCurrentFileCoherencyHeader s = some iSizeVar) (raw : Bool) :
    Accounts Z s.curFileInfo raw [] (newReadInfo Z s raw iSizeVar) := by
  refine ⟨rfl, supported_of_checkCurrentFileCoherencyHeader hcheck, rfl, rfl, (hZ.crc32_nil 0).symm, rfl, h,
    fun _ _ => ⟨Nat.zero_le _, rfl⟩, fun _ _ => ?_⟩
  show s.curFileInfo.uncompressedSize = (s.curFileInfo.uncompressedSize + 2 ^ 64 - 0 % 2 ^ 32) % 2 ^ 64
  omega

theorem unzOpenCurrentFile3_cases (Z : Zlib δ ι) (s : Unz ι) (raw password : Bool) :
    (password ∨ s.currentFileOk = false) ∧ unzOpenCurrentFile3 Z s raw password = (unzParamError, s) ∨
    ¬ (password ∨ s.currentFileOk = false) ∧
      (unzOpenCurrentFile3 Z s raw password = (unzBadZipFile, (unzCloseCurrentFile s).2) ∨
        ∃ iSizeVar, checkCurrentFileCoherencyHeader (unzCloseCurrentFile s).2 = some iSizeVar ∧
          unzOpenCurrentFile3 Z s raw password = (unzOk, { (unzCloseCurrentFile s).2 with
            pfileInZipRead := some (newReadInfo Z (unzCloseCurrentFile s).2 raw iSizeVar) })) := by
  unfold unzOpenCurrentFile3
  by_cases hparam : password ∨ s.currentFileOk = false
  · exact .inl ⟨hparam, if_pos hparam⟩
  · right
    rw [if_neg hparam]
    dsimp only
    cases hcheck : checkCurrentFileCoherencyHeader (unzCloseCurrentFile s).2 with
    | none => exact ⟨hparam, .inl rfl⟩
    | some iSizeVar => exact ⟨hparam, .inr ⟨iSizeVar, rfl, rfl⟩⟩

theorem sound_of_unzOpen64 (h : unzOpen64 file = some s) : Sound Z s none := by
  unfold unzOpen64 at h
  split at h
  · cases h
  · split at h
    · cases h
      have hzero : (default : FileInfo).uncompressedSize < 2 ^ 64 := by decide
      exact Sound.loadCurrentFile ⟨hzero, fun _ => rfl, nofun⟩
    · cases h

theorem UnzRun.sound (hZ : Z.Bounded) (h : UnzRun Z file s g) : Sound Z s g := by
  induction h with
  | opened h => exact sound_of_unzOpen64 h
  | goToFirst h ih => exact (ih.moved _ _).loadCurrentFile
  | goToNext h ih => exact ih.unzGoToNextFile
  | goToFilePos h posInZipDirectory numOfFile ih => exact (ih.moved _ _).loadCurrentFile
  | setOffset h pos ih => exact (ih.moved _ _).loadCurrentFile
  | locate h hlocate ih => exact ih.unzLocateFile hlocate
  | @openCurrent s g h raw password hok ih =>
    have hclosed := ih.unzCloseCurrentFile
    rcases unzOpenCurrentFile3_cases Z s raw password with ⟨-, heq⟩ | ⟨-, heq | ⟨iSizeVar, hcheck, heq⟩⟩
    · rw [heq] at hok
      exact absurd hok (by decide : unzParamError ≠ unzOk)
    · rw [heq] at hok
      exact absurd hok (by decide : unzBadZipFile ≠ unzOk)
    · have hnew := accounts_newReadInfo hZ hclosed.size hcheck raw
      rw [curFileInfo_unzCloseCurrentFile] at hnew
      rw [heq]
      refine ⟨hclosed.size, nofun, fun f hf => ?_⟩
      cases hf
      exact ⟨_, rfl, hnew⟩
  | @openFails s g h raw password hfails ih =>
    rcases unzOpenCurrentFile3_cases Z s raw password with ⟨hparam, heq⟩ | ⟨hparam, heq | ⟨iSizeVar, -, heq⟩⟩
    · rw [heq, if_pos hparam]
      exact ih
    · rw [heq, if_neg hparam]
      exact ih.unzCloseCurrentFile
    · rw [heq] at hfails
      exact absurd rfl hfails
  | @read s s' g fuel len ret out h hlen hread ih =>
    cases g with
    | none =>
      have hnone := ih.closed rfl
      unfold unzReadCurrentFile at hread
      rw [hnone] at hread
      cases hread
      exact ⟨ih.size, fun _ => hnone, nofun⟩
    | some f =>
      obtain ⟨p, hopen, haccounts⟩ := ih.accounts f rfl
      obtain ⟨p', rfl, haccounts'⟩ := haccounts.read hZ hopen hlen hread
      refine ⟨ih.size, nofun, fun f' heq => ?_⟩
      cases heq
      exact ⟨p', rfl, haccounts'⟩
  | close h ih => exact ih.unzCloseCurrentFile

theorem bounded_codec : codec.Bounded :=
  ⟨fun _ _ room => List.length_take_le room _, documented_codec.crc32_nil, documented_codec.crc32_append⟩

/-- An archive with a file `a` that holds an `x`, with a wrong checksum. -/
def badCopy : Bytes :=
  [0x50, 0x4b, 3, 4, 20, 0, 0, 0, 0, 0, 0, 0, 0, 0, 1, 0, 0, 0, 1, 0, 0, 0, 1, 0, 0, 0, 1, 0, 0, 0, 0x61, 0x78,
   0x50, 0x4b, 1, 2, 20, 0, 20, 0, 0, 0, 0, 0, 0, 0, 0, 0, 1, 0, 0, 0, 1, 0, 0, 0, 1, 0, 0, 0, 1, 0, 0, 0, 0, 0,
   0, 0, 0, 0, 0, 0, 0, 0, 0, 0, 0, 0, 0x61,
   0x50, 0x4b, 5, 6, 0, 0, 0, 0, 1, 0, 1, 0, 47, 0, 0, 0, 32, 0, 0, 0, 0, 0]

end Runs

/-! ## The loops end -/

/-- What `zlib.h` says of `inflate` on any data: `Z_OK` means that there was progress, and without a header there is
no dictionary to ask for. -/
structure Zlib.Progresses (Z : Zlib δ ι) : Prop extends Z.Bounded where
  taken_le : ∀ s nextIn room, (Z.inflate s nextIn room).taken ≤ nextIn.length
  progress : ∀ s nextIn room, 0 < room → (Z.inflate s nextIn room).ret = zOk →
    0 < (Z.inflate s nextIn room).taken ∨ (Z.inflate s nextIn room).out ≠ []
  ret_le : ∀ s nextIn room, (Z.inflate s nextIn room).ret ≤ zStreamEnd

section Ends
variable {Z : Zlib δ ι} {file : Bytes} {s : Unz ι} {g : Option OpenFile} {info : FileInfo} {p : ReadInfo ι}

/-- There is input behind it, unless all of it was taken. -/
theorem pending_refill {p' : ReadInfo ι} (h : refill s p = some p') :
    p'.pending = p.pending ∧ (p'.nextIn = [] → p'.restReadCompressed = 0) := by
  unfold refill at h
  split at h
  · rename_i hempty
    obtain ⟨⟨buf, rest⟩, hbytes, rfl⟩ := Option.map_eq_some_iff.mp h
    have hlen : buf.length = min unzBufSize p.restReadCompressed := Reader.gives_bytes _ _ _ _ hbytes
    have hbuf : 0 < unzBufSize := by decide
    constructor
    · show buf.length + (p.restReadCompressed - min unzBufSize p.restReadCompressed) =
        p.nextIn.length + p.restReadCompressed
      rw [hlen, hempty.1, List.length_nil]
      omega
    · intro hnil
      have hnil : buf = [] := hnil
      rw [hnil, List.length_nil] at hlen
      omega
  · rename_i hfull
    cases h
    refine ⟨rfl, fun hnil => ?_⟩
    by_contra hne
    exact hfull ⟨hnil, Nat.pos_of_ne_zero hne⟩

section Taken
variable {p' : ReadInfo ι} {taken : ℕ} (hnext : p'.nextIn = p.nextIn.drop taken)
  (hrest : p'.restReadCompressed = p.restReadCompressed)
include hnext hrest

theorem pending_le_of_taken : p'.pending ≤ p.pending := by
  unfold ReadInfo.pending
  rw [hnext, hrest, List.length_drop]
  omega

/-- What is taken of the input, or put into the buffer, leaves less to do. -/
theorem pending_lt_of_taken {availOut given : ℕ} (htaken : taken ≤ p.nextIn.length) (hgiven : given ≤ availOut)
    (hsome : 0 < taken ∨ 0 < given) : p'.pending + (availOut - given) < p.pending + availOut := by
  unfold ReadInfo.pending
  rw [hnext, hrest, List.length_drop]
  omega

end Taken

/-- What is returned at the end of the data. -/
theorem ite_unzEof_eq_length (out : Bytes) : (if out = [] then unzEof else (out.length : ℤ)) = out.length := by
  split
  · rename_i hnil
    rw [hnil]
    rfl
  · rfl

/-- An error message of `inflate` makes no success of it. -/
theorem ite_zDataError_le (hZ : Z.Progresses) (stream : ι) (nextIn : Bytes) (room : ℕ) {b : Bool} {err : ℤ}
    (herr : (if 0 ≤ (Z.inflate stream nextIn room).ret ∧ b = true then zDataError
      else (Z.inflate stream nextIn room).ret) = err) :
    err ≤ zStreamEnd ∧ (err = zOk → (Z.inflate stream nextIn room).ret = zOk) := by
  subst herr
  split
  · exact ⟨by decide, fun hok => absurd hok (by decide)⟩
  · exact ⟨hZ.ret_le stream nextIn room, id⟩

/-- A round of the loop ends it, or takes input or fills the buffer. -/
theorem readLoop_round (hZ : Z.Progresses) (fuel : ℕ) (p : ReadInfo ι) (availOut : ℕ) (out : Bytes) :
    (∃ ret out' p', readLoop Z s (fuel + 1) p availOut out = some (ret, out', p') ∧ p'.pending ≤ p.pending ∧
      (0 < ret → ret = out'.length)) ∨
    ∃ p' availOut' out', readLoop Z s (fuel + 1) p availOut out = readLoop Z s fuel p' availOut' out' ∧
      p'.pending ≤ p.pending ∧ p'.pending + availOut' < p.pending + availOut := by
  rw [readLoop]
  split
  · exact .inl ⟨_, _, _, rfl, Nat.le_refl _, fun _ => rfl⟩
  rename_i havail
  cases hrefill : refill s p with
  | none => exact .inl ⟨_, _, _, rfl, Nat.le_refl _, fun hpos => absurd hpos (by decide)⟩
  | some p₁ =>
    obtain ⟨hpending, hinput⟩ := pending_refill hrefill
    rw [← hpending]
    dsimp only
    split
    · split
      · exact .inl ⟨_, _, _, rfl, Nat.le_refl _, fun _ => ite_unzEof_eq_length out⟩
      · -- what is copied is not nothing
        rename_i hmore
        have hpos : 0 < p₁.nextIn.length := by
          by_contra hzero
          have hnil := List.length_eq_zero_iff.mp (Nat.eq_zero_of_not_pos hzero)
          exact hmore ⟨hnil, hinput hnil⟩
        exact .inr ⟨_, _, _, rfl, pending_le_of_taken rfl rfl, pending_lt_of_taken (by rfl) (by rfl)
          (Nat.min_le_right availOut p₁.nextIn.length) (Nat.min_le_left availOut p₁.nextIn.length) (by omega)⟩
    · have hprogress := hZ.progress p₁.stream p₁.nextIn availOut (Nat.pos_of_ne_zero havail)
      have htaken := hZ.taken_le p₁.stream p₁.nextIn availOut
      have hroom := hZ.out_le p₁.stream p₁.nextIn availOut
      generalize herr : (if 0 ≤ (Z.inflate p₁.stream p₁.nextIn availOut).ret ∧
        Z.msg (Z.inflate p₁.stream p₁.nextIn availOut).stream = true then zDataError
        else (Z.inflate p₁.stream p₁.nextIn availOut).ret) = err
      obtain ⟨hend, hok⟩ := ite_zDataError_le hZ p₁.stream p₁.nextIn availOut herr
      split
      · exact .inl ⟨_, _, _, rfl, pending_le_of_taken rfl rfl, fun _ => ite_unzEof_eq_length _⟩
      rename_i hnot
      split
      · rename_i hfails
        refine .inl ⟨_, _, _, rfl, pending_le_of_taken rfl rfl, fun hpos => ?_⟩
        unfold zStreamEnd at hend hnot
        unfold zOk at hfails
        omega
      · rename_i hcontinues
        have hsome := hprogress (hok (not_not.mp hcontinues))
        rw [← List.length_pos_iff] at hsome
        exact .inr ⟨_, _, _, rfl, pending_le_of_taken rfl rfl,
          pending_lt_of_taken (by rfl) (by rfl) htaken hroom hsome⟩

/-- Each round leaves less to do, so that there are no more than there is of both. -/
theorem readLoop_returns (hZ : Z.Progresses) (fuel : ℕ) (p : ReadInfo ι) (availOut : ℕ) (out : Bytes)
    (hfuel : p.pending + availOut < fuel) : ∃ ret out' p', readLoop Z s fuel p availOut out = some (ret, out', p') ∧
      p'.pending ≤ p.pending ∧ (0 < ret → ret = out'.length) := by
  induction fuel generalizing p availOut out with
  | zero => exact absurd hfuel (Nat.not_lt_zero _)
  | succ fuel ih =>
    rcases readLoop_round (s := s) hZ fuel p availOut out with hends | ⟨p₁, availOut₁, out₁, hround, hle, hless⟩
    · exact hends
    · obtain ⟨ret, out', p', hloop, hpending, hret⟩ := ih p₁ availOut₁ out₁ (by omega)
      exact ⟨ret, out', p', hround.trans hloop, hpending.trans hle, hret⟩

theorem unzReadCurrentFile_returns (hZ : Z.Progresses) (hopen : s.pfileInZipRead = some p) {fuel len : ℕ}
    (hfuel : p.pending + len < fuel) : ∃ ret out p', unzReadCurrentFile Z fuel s len =
      some (ret, out, { s with pfileInZipRead := some p' }) ∧ p'.pending ≤ p.pending ∧
      (0 < ret → ret = out.length) := by
  unfold unzReadCurrentFile
  rw [hopen]
  dsimp only
  split
  · refine ⟨0, [], p, ?_, Nat.le_refl _, fun hpos => absurd hpos (by decide)⟩
    rw [← hopen]
  · have havail : p.availOut len ≤ len := by
      unfold ReadInfo.availOut
      split <;> omega
    obtain ⟨ret, out, p', hloop, hpending, hret⟩ :=
      readLoop_returns (s := s) hZ fuel p (p.availOut len) [] (by omega)
    refine ⟨ret, out, p', ?_, hpending, hret⟩
    rw [hloop]
    rfl

/-- A read that returns a positive number brings the end nearer. -/
theorem readBuffers_returns (hZ : Z.Progresses) (fuel rounds : ℕ) {s : Unz ι} {given : Bytes} {p : ReadInfo ι}
    (hopen : s.pfileInZipRead = some p) (h : Accounts Z info false given p) (hc : info.Counted)
    (hfuel : p.pending + Zip.bufLen < fuel) (hrounds : info.uncompressedSize - given.length < rounds) :
    ∃ buffers fails s', readBuffers Z fuel rounds s = some (buffers, fails, s') ∧
      given.length + buffers.flatten.length ≤ info.uncompressedSize := by
  induction rounds generalizing s given p with
  | zero => exact absurd hrounds (Nat.not_lt_zero _)
  | succ rounds ih =>
    have hle := (h.counted rfl hc).1
    have hend : given.length + ([] : List Bytes).flatten.length ≤ info.uncompressedSize := hle
    obtain ⟨ret, out, p', hread, hpending, hret⟩ := unzReadCurrentFile_returns hZ hopen hfuel
    obtain ⟨p'', heq, h'⟩ := h.read hZ.toBounded hopen (by decide) hread
    obtain rfl : p' = p'' := Option.some.inj (congrArg Unz.pfileInZipRead heq)
    have hle' := (h'.counted rfl hc).1
    rw [List.length_append] at hle'
    rw [readBuffers, hread]
    simp only [Option.bind_eq_bind, Option.bind_some]
    split
    · exact ⟨[], true, _, rfl, hend⟩
    · split
      · exact ⟨[], false, _, rfl, hend⟩
      · rename_i hneg hzero
        have hpos := hret (by omega)
        obtain ⟨buffers, fails, s', hrest, hall⟩ := ih (s := { s with pfileInZipRead := some p' }) rfl h' (by omega)
          (by rw [List.length_append]; omega)
        rw [hrest]
        refine ⟨out :: buffers, fails, s', rfl, ?_⟩
        rw [List.length_append] at hall
        rw [List.flatten_cons, List.length_append]
        omega

/-- **The loop of UnCompress** over the data of a file ends whatever the archive holds, and gets no more than the
directory says, unless that is deflated data of 4 GiB or more. -/
theorem readBuffers_unzOpenCurrentFile (hZ : Z.Progresses) (h : UnzRun Z file s g)
    (hok : (unzOpenCurrentFile Z s).1 = unzOk) (hc : s.curFileInfo.Counted) :
    ∃ buffers fails s', readBuffers Z (s.curFileInfo.compressedSize + Zip.bufLen + 1)
        (s.curFileInfo.uncompressedSize + 1) (unzOpenCurrentFile Z s).2 = some (buffers, fails, s') ∧
      buffers.flatten.length ≤ s.curFileInfo.uncompressedSize := by
  have hsound := (h.sound hZ.toBounded).unzCloseCurrentFile
  unfold unzOpenCurrentFile at hok ⊢
  rcases unzOpenCurrentFile3_cases Z s false false with ⟨-, heq⟩ | ⟨-, heq | ⟨iSizeVar, hcheck, heq⟩⟩
  · rw [heq] at hok
    exact absurd hok (by decide : unzParamError ≠ unzOk)
  · rw [heq] at hok
    exact absurd hok (by decide : unzBadZipFile ≠ unzOk)
  · have hnew := accounts_newReadInfo hZ.toBounded hsound.size hcheck false
    have hpending :
        (newReadInfo Z (unzCloseCurrentFile s).2 false iSizeVar).pending = s.curFileInfo.compressedSize := by
      rw [← curFileInfo_unzCloseCurrentFile (s := s)]
      exact Nat.zero_add _
    rw [curFileInfo_unzCloseCurrentFile] at hnew
    rw [heq]
    obtain ⟨buffers, fails, s', hread, hall⟩ := readBuffers_returns hZ (s.curFileInfo.compressedSize + Zip.bufLen + 1)
      (s.curFileInfo.uncompressedSize + 1) (s := { (unzCloseCurrentFile s).2 with
        pfileInZipRead := some (newReadInfo Z (unzCloseCurrentFile s).2 false iSizeVar) })
      rfl hnew hc (by omega) (Nat.lt_succ_self _)
    exact ⟨buffers, fails, s', hread, by rwa [List.length_nil, Nat.zero_add] at hall⟩

end Ends

theorem progresses_codec : codec.Progresses where
  toBounded := bounded_codec
  taken_le _ nextIn _ := Nat.le_refl nextIn.length
  progress := by
    intro s nextIn room _ hok
    have hret : (inflater s nextIn room).ret = zOk := hok
    show 0 < nextIn.length ∨ (inflater s nextIn room).out ≠ []
    by_contra hnone
    rw [not_or, not_not] at hnone
    have hnil : nextIn = [] := List.length_eq_zero_iff.mp (Nat.eq_zero_of_not_pos hnone.1)
    have hout : (((decode (s.taken ++ nextIn)).getD []).drop s.given).take room = [] := hnone.2
    unfold inflater at hret
    dsimp only at hret
    rw [hout] at hret
    split at hret
    · exact absurd hret (by decide)
    · rw [if_pos ⟨hnil, rfl⟩] at hret
      exact absurd hret (by decide)
  ret_le := by
    intro s nextIn room
    show (inflater s nextIn room).ret ≤ zStreamEnd
    unfold inflater
    dsimp only
    split
    · exact Int.le_refl _
    · split
      · decide
      · decide

theorem readBuffers_badCopy : ∃ s : Unz Inflater, unzOpen64 badCopy = some s ∧
    ∃ buffers fails s', readBuffers codec (s.curFileInfo.compressedSize + Zip.bufLen + 1)
        (s.curFileInfo.uncompressedSize + 1) (unzOpenCurrentFile codec s).2 = some (buffers, fails, s') ∧
      buffers.flatten.length ≤ s.curFileInfo.uncompressedSize := by
  obtain ⟨s, hs⟩ : ∃ s : Unz Inflater, unzOpen64 badCopy = some s :=
    Option.isSome_iff_exists.mp (by decide +kernel)
  have hopen : (unzOpen64 badCopy).map (fun s => (unzOpenCurrentFile codec s).1) = some unzOk := by
    decide +kernel
  have hmethod : (unzOpen64 (ι := Inflater) badCopy).map (fun s => s.curFileInfo.compressionMethod) = some 0 := by
    decide +kernel
  rw [hs] at hopen hmethod
  exact ⟨s, hs, readBuffers_unzOpenCurrentFile progresses_codec (.opened hs) (Option.some.inj hopen)
    (.inl (Option.some.inj hmethod))⟩

end AppUtil.MiniZip
