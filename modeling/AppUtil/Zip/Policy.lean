import AppUtil.Lib.Lists
import AppUtil.Zip.Complete

/-! # The policy for a destination that exists

The tests on `iFlag` assign to it, so that every flag replaces the archive. -/
namespace AppUtil.Zip
open AppUtil.Lib
set_option autoImplicit false

section Policy
variable {κ : Type} [DecidableEq κ] {sys : System κ} {src dst : Path} {folder : Folder}

/-- The new entries, one for each file in the order in which the folder is enumerated. -/
def newEntries (folder : Folder) (src : Path) : List Entry := (folder.files src).map (entryOf src)

/-- What `iFlag` asks for. -/
def Honoured (sys : System κ) (folder : Folder) (src dst : Path) (iFlag : ℤ) (d : Disk κ) : Prop :=
  if iFlag = zipFileReplace then
    ∃ d', compress sys folder (some src) (some dst) iFlag d = .ok (zipOk, d') ∧
      sys.archiveAt d' dst = some (newEntries folder src)
  else if iFlag = zipFileAppend then
    ∀ d', compress sys folder (some src) (some dst) iFlag d = .ok (zipOk, d') →
      sys.archiveAt d' dst = (sys.archiveAt d dst).map (· ++ newEntries folder src)
  else
    ∃ d', compress sys folder (some src) (some dst) iFlag d = .ok (zipStateFileIsExist, d') ∧
      d' (sys.locate dst) = d (sys.locate dst)

/-- Every folder with files below it can be opened, and nothing else goes wrong unnoticed. -/
structure Exact (sys : System κ) (folder : Folder) (src dst : Path) : Prop where
  reached : folder.reached sys src = folder.files src
  closed : ∀ pc ∈ folder.files src, sys.zipCloseFileInZip (getRelativePath src pc.1) = true
  alone : ∀ pc ∈ folder.files src, sys.locate pc.1 = sys.locate dst → pc.2 = sys.format.draft
  close : sys.zipClose = true

/-! ## The entries that are added -/

omit [DecidableEq κ] in
theorem packed_length_le (name : Path) (contents : Bytes) : (packed sys name contents).length ≤ 1 := by
  rw [packed]
  split <;> simp

/-- `Compress` has added one entry for each file exactly when nothing was lost. -/
theorem added_eq_iff : added sys folder src dst = newEntries folder src ∧ sys.zipClose = true ↔
    Exact sys folder src dst := by
  constructor
  · rintro ⟨h, hclose⟩
    obtain ⟨hreached, hall⟩ := flatMap_eq_map (folder.reached_sublist src)
      (fun pc => packed_length_le (getRelativePath src pc.1) (seen sys dst pc.1 pc.2)) h
    have hone : ∀ pc ∈ folder.files src,
        sys.zipCloseFileInZip (getRelativePath src pc.1) = true ∧ seen sys dst pc.1 pc.2 = pc.2 := by
      intro pc hpc
      have hp := hall pc hpc
      rw [packed] at hp
      split at hp
      next hc => exact ⟨hc, congrArg Entry.contents (List.head_eq_of_cons_eq hp)⟩
      next => cases hp
    exact ⟨hreached, fun pc hpc => (hone pc hpc).1, fun pc hpc => seen_eq_iff.mp (hone pc hpc).2, hclose⟩
  · intro h
    refine ⟨?_, h.close⟩
    rw [added, h.reached, newEntries, List.map_eq_flatMap]
    refine List.flatMap_congr fun pc hpc => ?_
    rw [packed, if_pos (h.closed pc hpc), seen_eq_iff.mpr (h.alone pc hpc), entryOf]

theorem added_length_le : (added sys folder src dst).length ≤ (newEntries folder src).length := by
  rw [newEntries, List.length_map]
  refine (length_flatMap_le (fun pc => ?_) _).trans (folder.reached_sublist src).length_le
  exact packed_length_le ..

/-- The previous entries are there only if there were none. -/
theorem append_eq_added_iff {old : List Entry} :
    sys.zipClose = true ∧ old ++ newEntries folder src = added sys folder src dst ↔
      old = [] ∧ Exact sys folder src dst := by
  rw [← added_eq_iff]
  constructor
  · rintro ⟨hclose, h⟩
    have hlen := congrArg List.length h
    rw [List.length_append] at hlen
    have hle : (added sys folder src dst).length ≤ (newEntries folder src).length := added_length_le
    obtain rfl : old = [] := List.eq_nil_of_length_eq_zero (by omega)
    exact ⟨rfl, h.symm, hclose⟩
  · rintro ⟨rfl, h, hclose⟩
    exact ⟨hclose, h.symm⟩

/-! ## The codes that `Compress` returns -/

omit [DecidableEq κ] in
theorem compressLoop_code {path : Path} {k : ℕ} {bufs : List Bytes} {zFp zFp' : Handle} {iRet : ℤ}
    (h : compressLoop sys path k bufs zFp = .ok (iRet, zFp')) :
    iRet = zipOk ∨ iRet = zipStateIoError := by
  induction bufs generalizing k zFp with
  | nil =>
    cases h
    exact .inl rfl
  | cons buf bufs ih =>
    rw [compressLoop] at h
    split at h
    · obtain ⟨r, -, h⟩ := bind_eq_ok.mp h
      cases h
      exact .inr rfl
    · obtain ⟨⟨iRet', zFp₁⟩, -, h⟩ := bind_eq_ok.mp h
      dsimp only at h
      split at h
      · obtain ⟨r', -, h⟩ := bind_eq_ok.mp h
        cases h
        exact .inr rfl
      · exact ih h

omit [DecidableEq κ] in
theorem compressFile_code {d : Disk κ} {name path : Path} {zFp zFp' : Handle} {iRet : ℤ}
    (h : compressFile sys d zFp name path = .ok (iRet, zFp')) : iRet = zipOk ∨ iRet = zipStateIoError := by
  rw [compressFile] at h
  obtain ⟨r, -, h⟩ := bind_eq_ok.mp h
  cases hopen : sys.openRead d path with
  | none =>
    rw [hopen] at h
    cases h
  | some contents =>
    rw [hopen] at h
    obtain ⟨r', hloop, h⟩ := bind_eq_ok.mp h
    obtain ⟨r'', -, h⟩ := bind_eq_ok.mp h
    cases h
    exact compressLoop_code hloop

theorem archiveLoop_code {ps : List Path} {d d' : Disk κ} {zFp zFp' : Handle} {iRet : ℤ}
    (h : archiveLoop sys src dst ps d zFp = .ok (iRet, d', zFp')) :
    iRet = zipOk ∨ iRet = zipStateIoError := by
  induction ps generalizing d zFp with
  | nil =>
    cases h
    exact .inl rfl
  | cons p ps ih =>
    rw [archiveLoop] at h
    obtain ⟨⟨iRet', zFp₁⟩, hfile, h⟩ := bind_eq_ok.mp h
    dsimp only at h
    split at h
    · obtain ⟨r', -, h⟩ := bind_eq_ok.mp h
      cases h
      exact compressFile_code hfile
    · exact ih h

/-- `ZIP_STATE_FILE_IS_EXIST` is never returned. -/
theorem compress_ne_exist {iFlag : ℤ} {d d' : Disk κ} :
    compress sys folder (some src) (some dst) iFlag d ≠ .ok (zipStateFileIsExist, d') := by
  intro h
  by_cases hlist : traverseFloder sys src folder = []
  · have hnot : compress sys folder (some src) (some dst) iFlag d = .ok (zipStateDirIsNull, d) :=
      if_pos hlist
    rw [hnot] at h
    cases h
  rw [compress_eq hlist] at h
  obtain ⟨⟨bSuccess, d₁⟩, -, h⟩ := bind_eq_ok.mp h
  cases bSuccess with
  | false => cases h
  | true =>
    simp only [Bool.true_eq_false, if_false] at h
    split at h
    · cases h
    · obtain ⟨⟨iRet, d₂, zFp⟩, hloop, h⟩ := bind_eq_ok.mp h
      obtain ⟨r, -, h⟩ := bind_eq_ok.mp h
      cases h
      rcases archiveLoop_code hloop with h | h <;> cases h

/-! ## The policy -/

theorem honours_iff {iFlag : ℤ} {d : Disk κ} {old : List Entry} (hd : sys.Holds d src folder)
    (hold : sys.archiveAt d dst = some old) :
    Honoured sys folder src dst iFlag d ↔
      iFlag = zipFileReplace ∧ Passes sys folder src dst d ∧ Exact sys folder src dst ∨
      iFlag = zipFileAppend ∧ (Passes sys folder src dst d → old = [] ∧ Exact sys folder src dst) := by
  have hrun : Passes sys folder src dst d ↔ ∃ d',
      compress sys folder (some src) (some dst) iFlag d = .ok (zipOk, d') := by
    constructor
    · intro hp
      obtain ⟨d₁, hprep, -⟩ := hp.placed
      exact ⟨_, (compress_ok_iff hd).mpr ⟨hp, d₁, hprep, rfl⟩⟩
    · rintro ⟨d', h⟩
      exact ((compress_ok_iff hd).mp h).1
  rw [Honoured]
  by_cases hreplace : iFlag = zipFileReplace
  · have hnot : iFlag ≠ zipFileAppend := by
      rw [hreplace]
      decide
    rw [if_pos hreplace]
    constructor
    · rintro ⟨d', h, hes⟩
      obtain ⟨hclose, heq⟩ := (archiveAt_compress hd h).mp hes
      exact .inl ⟨hreplace, hrun.mpr ⟨d', h⟩, added_eq_iff.mp ⟨heq.symm, hclose⟩⟩
    · rintro (⟨-, hp, he⟩ | ⟨h, -⟩)
      · obtain ⟨d', h⟩ := hrun.mp hp
        obtain ⟨heq, hclose⟩ := added_eq_iff.mpr he
        exact ⟨d', h, (archiveAt_compress hd h).mpr ⟨hclose, heq.symm⟩⟩
      · exact absurd h hnot
  · rw [if_neg hreplace]
    by_cases happend : iFlag = zipFileAppend
    · rw [if_pos happend]
      constructor
      · refine fun h => .inr ⟨happend, fun hp => ?_⟩
        obtain ⟨d', hx⟩ := hrun.mp hp
        have hes := h d' hx
        rw [hold, Option.map_some] at hes
        exact append_eq_added_iff.mp ((archiveAt_compress hd hx).mp hes)
      · rintro (⟨h, -⟩ | ⟨-, h⟩) d' hx
        · exact absurd h hreplace
        · rw [hold, Option.map_some]
          exact (archiveAt_compress hd hx).mpr (append_eq_added_iff.mpr (h (hrun.mpr ⟨d', hx⟩)))
    · rw [if_neg happend]
      constructor
      · rintro ⟨d', h, -⟩
        exact absurd h compress_ne_exist
      · rintro (⟨h, -⟩ | ⟨h, -⟩)
        · exact absurd h hreplace
        · exact absurd h happend

/-- **When the policy is honoured**: `ZIP_FILE_REPLACE` if no call fails and the folder has no file
at the destination, `ZIP_FILE_APPEND` if moreover there was nothing to append to, or if `ZIP_OK` is
not returned; no other flag. -/
theorem policy_honoured_iff {iFlag : ℤ} {d : Disk κ} {old : List Entry} (hd : sys.Holds d src folder)
    (hold : sys.archiveAt d dst = some old) :
    Honoured sys folder src dst iFlag d ↔
      iFlag = zipFileReplace ∧ Passes sys folder src dst d ∧ Exact sys folder src dst ∨
      iFlag = zipFileAppend ∧ (Passes sys folder src dst d → old = [] ∧ Exact sys folder src dst) :=
  honours_iff hd hold

end Policy

section Small

/-- The small disk with an archive of one entry. -/
def oldDisk (sys : System Path) : Disk Path :=
  sys.setFile smallDisk smallZip (sys.format.pack [⟨['x'], [7]⟩])

theorem oldDisk_holds (sys : System Path) (hsys : sys.locate = id) :
    sys.Holds (oldDisk sys) smallPath smallFolder := by
  intro p c hp
  have hne : sys.locate p ≠ sys.locate smallZip := by
    rw [hsys]
    rintro rfl
    simp only [smallFolder, Folder.files, List.append_nil, List.mem_cons, Prod.mk.injEq,
      List.not_mem_nil, or_false] at hp
    rcases hp with ⟨hp, -⟩ | ⟨hp, -⟩ <;> exact absurd hp (by decide)
  rw [oldDisk, System.setFile, Function.update_of_ne hne]
  exact smallDisk_holds sys hsys p c hp

theorem oldDisk_archive (sys : System Path) :
    sys.archiveAt (oldDisk sys) smallZip = some [⟨['x'], [7]⟩] := by
  rw [oldDisk, archiveAt_setFile, sys.format.entriesIn_pack]

theorem oldDisk_passes : Passes (mostly (fun _ => true) (fun _ => true) true) smallFolder smallPath smallZip
    (oldDisk (mostly (fun _ => true) (fun _ => true) true)) := by
  have hprep : ∃ d₁, prepareFolder (mostly (fun _ => true) (fun _ => true) true)
      (cleared (mostly (fun _ => true) (fun _ => true) true)
        (oldDisk (mostly (fun _ => true) (fun _ => true) true)) smallZip) smallZip = .ok (true, d₁) ∧
      d₁ smallZip = none := ⟨_, rfl, rfl⟩
  obtain ⟨d₁, hprep, hfree⟩ := hprep
  refine passes_of_works (mostly_works ..) rfl (by simp [smallFolder, Folder.reached]) (by decide) hprep ?_
  show d₁ smallZip ≠ _
  rw [hfree]
  intro h
  cases h

theorem oldDisk_not_honoured {iFlag : ℤ} (hreplace : iFlag ≠ zipFileReplace) :
    ¬ Honoured (mostly (fun _ => true) (fun _ => true) true) smallFolder smallPath smallZip iFlag
      (oldDisk (mostly (fun _ => true) (fun _ => true) true)) := by
  intro hh
  rcases (honours_iff (oldDisk_holds _ rfl) (oldDisk_archive _)).mp hh with ⟨h, -⟩ | ⟨-, h⟩
  · exact hreplace h
  · cases (h oldDisk_passes).1

end Small

theorem policy_honoured_iff_sample :
    Honoured (mostly (fun _ => true) (fun _ => true) true) smallFolder smallPath smallZip zipFileReplace
      (oldDisk (mostly (fun _ => true) (fun _ => true) true)) := by
  refine (policy_honoured_iff (oldDisk_holds _ rfl) (oldDisk_archive _)).mpr (.inl ⟨rfl, oldDisk_passes, ?_⟩)
  exact ⟨rfl, fun _ _ => rfl, by decide, rfl⟩

/-- With `ZIP_FILE_APPEND` the previous entry is lost, and with `ZIP_FILE_EXIT` and with the default
the archive is not left alone. -/
theorem policy_ignored :
    ¬ Honoured (mostly (fun _ => true) (fun _ => true) true) smallFolder smallPath smallZip zipFileAppend
      (oldDisk (mostly (fun _ => true) (fun _ => true) true)) ∧
    ¬ Honoured (mostly (fun _ => true) (fun _ => true) true) smallFolder smallPath smallZip zipFileExit
      (oldDisk (mostly (fun _ => true) (fun _ => true) true)) ∧
    ¬ Honoured (mostly (fun _ => true) (fun _ => true) true) smallFolder smallPath smallZip (-1)
      (oldDisk (mostly (fun _ => true) (fun _ => true) true)) :=
  ⟨oldDisk_not_honoured (by decide), oldDisk_not_honoured (by decide), oldDisk_not_honoured (by decide)⟩

end AppUtil.Zip
