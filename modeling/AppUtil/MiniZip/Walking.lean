import AppUtil.MiniZip.Opening
import AppUtil.MiniZip.Packing

/-! # From entry to entry

`unzGoToFirstFile` and `unzGoToNextFile` on an archive: the headers of the directory one after the other,
each with what was stored in it. -/
namespace AppUtil.MiniZip
open AppUtil.Lib
open AppUtil.Zip (Bytes)
set_option autoImplicit false
variable {ι : Type} {done rest : List Item} {it it' : Item} {s : Unz ι}

theorem localParts_append (a b : List Item) : localParts (a ++ b) = localParts a ++ localParts b :=
  List.flatMap_append

theorem centralDir_append (offset : ℕ) (a b : List Item) :
    centralDir offset (a ++ b) = centralDir offset a ++ centralDir (offset + (localParts a).length) b := by
  induction a generalizing offset with
  | nil => rfl
  | cons it' a ih =>
    rw [List.cons_append, centralDir, ih, centralDir, localParts_cons, List.length_append, List.append_assoc,
      Nat.add_assoc]

theorem fits_of_ordinary (h : Ordinary (done ++ it :: rest)) (hname : it.filename.length < 2 ^ 16)
    (hsize : it.uncompressedSize < 2 ^ 64) : it.Fits (localParts done).length := by
  have hlen := h.length
  have hitem := it.length_localPart
  have hle : (localParts done).length + it.localPart.length ≤ (archive (done ++ it :: rest)).length := by
    rw [archive, localParts_append, localParts_cons]
    simp only [List.length_append]
    omega
  exact ⟨hname, by omega, hsize, by omega⟩

/-- An archive that is opened, with `it` for its current file. -/
structure AtEntry (s : Unz ι) (done : List Item) (it : Item) (rest : List Item) : Prop where
  file : s.file = archive (done ++ it :: rest)
  numberEntry : s.numberEntry = entriesFound (done ++ it :: rest)
  byteBefore : s.byteBeforeTheZipfile = 0
  numFile : s.numFile = done.length
  pos : s.posInCentralDir = (localParts (done ++ it :: rest)).length + (centralDir 0 done).length
  ok : s.currentFileOk = true
  info : s.curFileInfo = it.info (localParts done).length
  offset : s.offsetCurfile = (localParts done).length
  closed : s.pfileInZipRead = none

/-- A position in an archive that nothing stands before. -/
theorem seekSet_archive {items : List Item} {pos : ℕ} (pre : Bytes) {tail : Bytes} (h : Ordinary items)
    (hfile : s.file = archive items) (hbefore : s.byteBeforeTheZipfile = 0) (hsplit : archive items = pre ++ tail)
    (hpos : pre.length = pos) : s.seekSet pos = tail := by
  have hlt : pos < 2 ^ 64 := by
    have hlen := h.length
    rw [hsplit, List.length_append] at hlen
    omega
  rw [Unz.seekSet, hbefore, Nat.add_zero, Nat.mod_eq_of_lt hlt, hfile, hsplit, ← hpos, List.drop_left]

/-- A header of the directory. -/
theorem seekSet_central {items : List Item} (h : Ordinary items) (hitems : items = done ++ it :: rest)
    (hfile : s.file = archive items) (hbefore : s.byteBeforeTheZipfile = 0) :
    ∃ tail, s.seekSet ((localParts items).length + (centralDir 0 done).length) =
      (it.centralHeader (localParts done).length).bytes ++ tail := by
  obtain ⟨ending, harchive⟩ : ∃ ending, archive items = localParts items ++ (centralDir 0 items ++ ending) := ⟨_, rfl⟩
  have hdir : centralDir 0 items = centralDir 0 done ++ ((it.centralHeader (localParts done).length).bytes ++
      centralDir ((localParts done).length + it.localPart.length) rest) := by
    rw [hitems, centralDir_append, centralDir, Nat.zero_add]
  refine ⟨centralDir ((localParts done).length + it.localPart.length) rest ++ ending,
    seekSet_archive (localParts items ++ centralDir 0 done) h hfile hbefore ?_ List.length_append⟩
  conv_lhs => rw [harchive, hdir]
  simp only [List.append_assoc]

/-- An entry with its local header. -/
theorem seekSet_local {items : List Item} (h : Ordinary items) (hitems : items = done ++ it :: rest)
    (hfile : s.file = archive items) (hbefore : s.byteBeforeTheZipfile = 0) :
    ∃ tail, s.seekSet (localParts done).length = it.localPart ++ tail := by
  obtain ⟨ending, harchive⟩ : ∃ ending, archive items = localParts items ++ ending := ⟨_, rfl⟩
  refine ⟨localParts rest ++ ending, seekSet_archive (localParts done) h hfile hbefore ?_ rfl⟩
  rw [harchive, hitems, localParts_append, localParts_cons]
  simp only [List.append_assoc]

/-- The entry whose header is at `pos_in_central_dir` becomes the current file. -/
theorem loadCurrentFile_spec (h : Ordinary (done ++ it :: rest)) (hfit : it.Fits (localParts done).length)
    (hfile : s.file = archive (done ++ it :: rest)) (hnumber : s.numberEntry = entriesFound (done ++ it :: rest))
    (hbefore : s.byteBeforeTheZipfile = 0) (hnum : s.numFile = done.length)
    (hpos : s.posInCentralDir = (localParts (done ++ it :: rest)).length + (centralDir 0 done).length)
    (hclosed : s.pfileInZipRead = none) : AtEntry s.loadCurrentFile.2 done it rest := by
  obtain ⟨tail, hseek⟩ := seekSet_central h rfl hfile hbefore
  rw [← hpos] at hseek
  rw [Unz.loadCurrentFile, getCurrentFileInfoInternal_eq hfit hseek none]
  exact ⟨hfile, hnumber, hbefore, hnum, hpos, rfl, rfl, rfl, hclosed⟩

theorem unzGoToFirstFile_spec {ι : Type} (h : Ordinary (it :: rest)) (hfit : it.Fits 0) :
    AtEntry (openedUnz ι (it :: rest)).unzGoToFirstFile.2 [] it rest :=
  loadCurrentFile_spec h hfit rfl rfl rfl rfl rfl rfl

/-- What a header takes in the directory. -/
theorem length_centralHeader (hfit : it.Fits (localParts done).length) :
    (it.centralHeader (localParts done).length).bytes.length =
      sizeCentralDirItem + (it.info (localParts done).length).sizeFilename +
        (it.info (localParts done).length).sizeFileExtra + (it.info (localParts done).length).sizeFileComment := by
  rw [sizeFilename_info hfit, sizeFileExtra_info, CentralHeader.length_bytes]
  rfl

/-- While there are entries left that were found, or the number says nothing, the next one follows. -/
theorem unzGoToNextFile_spec (h : Ordinary (done ++ it :: it' :: rest)) (hs : AtEntry s done it (it' :: rest))
    (hfit : it.Fits (localParts done).length) (hfit' : it'.Fits (localParts (done ++ [it])).length)
    (hmore : s.numberEntry = 0xffff ∨ done.length + 1 ≠ s.numberEntry) :
    AtEntry s.unzGoToNextFile.2 (done ++ [it]) it' rest := by
  have hsplit : done ++ it :: it' :: rest = done ++ [it] ++ it' :: rest := by
    rw [List.append_assoc, List.singleton_append]
  have hend : ¬ (s.numberEntry ≠ 0xffff ∧ s.numFile + 1 = s.numberEntry) := by
    rw [hs.numFile]
    omega
  rw [Unz.unzGoToNextFile, if_neg (by rw [hs.ok]; decide), if_neg hend]
  rw [hsplit] at h
  refine loadCurrentFile_spec h hfit' ?_ ?_ hs.byteBefore ?_ ?_ hs.closed
  · rw [← hsplit]
    exact hs.file
  · rw [← hsplit]
    exact hs.numberEntry
  · show s.numFile + 1 = _
    rw [hs.numFile, List.length_append, List.length_singleton]
  · show s.posInCentralDir + (sizeCentralDirItem + s.curFileInfo.sizeFilename + s.curFileInfo.sizeFileExtra +
      s.curFileInfo.sizeFileComment) = _
    rw [hs.pos, hs.info, ← length_centralHeader hfit, ← hsplit, centralDir_concat, Nat.zero_add, List.length_append,
      Nat.add_assoc]

end AppUtil.MiniZip
