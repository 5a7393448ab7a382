import Mathlib.Logic.Equiv.List
import AppUtil.Zip.Writing

/-! # Is the archive complete?

`Compress` returns `ZIP_OK` where a subfolder could not be opened, an entry not closed or the
archive not closed. -/
namespace AppUtil.Zip
open AppUtil.Lib
set_option autoImplicit false

section Names
variable {src : Path} {folder : Folder}

theorem files_below {path p : Path} {c : Bytes} (h : (p, c) ∈ folder.files path) : path <+: p := by
  induction folder generalizing path with
  | done => exact absurd h List.not_mem_nil
  | file name contents rest ih =>
    rcases List.mem_cons.mp h with h | h
    · obtain ⟨rfl, rfl⟩ := Prod.mk.inj h
      exact List.prefix_append ..
    · exact ih h
  | subdir name below rest ihBelow ihRest =>
    rcases List.mem_append.mp h with h | h
    · exact (List.prefix_append ..).trans (ihBelow h)
    · exact ihRest h

theorem folderPath_length_le (src : Path) : (folderPath src).length ≤ src.length := by
  rw [folderPath]
  split
  · rw [List.length_dropLast]
    exact Nat.sub_le ..
  · exact le_refl _

/-- The position that `GetRelativePath` cuts at is inside the path of the folder. -/
theorem relative_position_le (src : Path) :
    (folderPath src).length - (folderName src).length ≤ src.length :=
  (Nat.sub_le ..).trans (folderPath_length_le src)

theorem getRelativePath_inj {p q : Path} (hp : src <+: p) (hq : src <+: q)
    (h : getRelativePath src p = getRelativePath src q) : p = q := by
  obtain ⟨r, rfl⟩ := hp
  obtain ⟨t, rfl⟩ := hq
  rw [getRelativePath, getRelativePath, List.drop_append_of_le_length (relative_position_le src),
    List.drop_append_of_le_length (relative_position_le src)] at h
  rw [List.append_cancel_left h]

end Names

section Complete
variable {κ : Type} {sys : System κ} {src dst : Path} {folder : Folder}

/-- The entry that a file of the folder has in a complete archive. -/
def entryOf (src : Path) (pc : Path × Bytes) : Entry := ⟨getRelativePath src pc.1, pc.2⟩

/-- The archive was closed, and every file below the folder was packed into it with its contents. -/
def Complete (sys : System κ) (folder : Folder) (src dst : Path) (d : Disk κ) : Prop :=
  ∃ es, sys.archiveAt d dst = some es ∧ ∀ pc ∈ folder.files src, entryOf src pc ∈ es

/-- None of the failures occurs that `Compress` does not notice, and no file of the folder is the
destination itself. -/
structure Lossless (sys : System κ) (folder : Folder) (src dst : Path) : Prop where
  reached : ∀ pc ∈ folder.files src, pc ∈ folder.reached sys src
  closed : ∀ pc ∈ folder.files src, sys.zipCloseFileInZip (getRelativePath src pc.1) = true
  alone : ∀ pc ∈ folder.files src, sys.locate pc.1 = sys.locate dst → pc.2 = sys.format.draft
  close : sys.zipClose = true

variable [DecidableEq κ]

theorem seen_eq_iff {pc : Path × Bytes} : seen sys dst pc.1 pc.2 = pc.2 ↔
    (sys.locate pc.1 = sys.locate dst → pc.2 = sys.format.draft) := by
  rw [seen]
  split
  next h => exact ⟨fun heq _ => heq.symm, fun heq => (heq h).symm⟩
  next h => exact ⟨fun _ heq => absurd heq h, fun _ => rfl⟩

theorem mem_added {e : Entry} : e ∈ added sys folder src dst ↔ ∃ pc ∈ folder.reached sys src,
    sys.zipCloseFileInZip (getRelativePath src pc.1) = true ∧
      e = entryOf src (pc.1, seen sys dst pc.1 pc.2) := by
  rw [added, List.mem_flatMap]
  refine exists_congr fun pc => and_congr_right fun _ => ?_
  rw [packed]
  split
  next h => rw [List.mem_singleton, entryOf]; exact ⟨fun he => ⟨h, he⟩, And.right⟩
  next h => exact ⟨fun he => absurd he List.not_mem_nil, fun he => absurd he.1 h⟩

omit [DecidableEq κ] in
theorem holds_unique {d : Disk κ} (hd : sys.Holds d src folder) {p : Path} {b c : Bytes}
    (hb : (p, b) ∈ folder.files src) (hc : (p, c) ∈ folder.files src) : b = c := by
  have h := (hd p b hb).symm.trans (hd p c hc)
  cases h
  rfl

theorem entryOf_mem_added {d : Disk κ} (hd : sys.Holds d src folder) {pc : Path × Bytes}
    (hpc : pc ∈ folder.files src) : entryOf src pc ∈ added sys folder src dst ↔
      pc ∈ folder.reached sys src ∧ sys.zipCloseFileInZip (getRelativePath src pc.1) = true ∧
        (sys.locate pc.1 = sys.locate dst → pc.2 = sys.format.draft) := by
  rw [mem_added, ← seen_eq_iff]
  constructor
  · rintro ⟨qb, hqb, hclose, he⟩
    have hfile := (folder.reached_sublist src).subset hqb
    obtain ⟨hname, hcontents⟩ := Entry.mk.inj he
    have hp : pc.1 = qb.1 := getRelativePath_inj (files_below hpc) (files_below hfile) hname
    have hc : pc.2 = qb.2 := by
      refine holds_unique hd hpc ?_
      rw [hp]
      exact hfile
    obtain rfl : pc = qb := Prod.ext hp hc
    exact ⟨hqb, hclose, hcontents.symm⟩
  · rintro ⟨hr, hclose, hseen⟩
    refine ⟨pc, hr, hclose, ?_⟩
    rw [hseen]

theorem archiveAt_setFile {d : Disk κ} {bytes : Bytes} :
    sys.archiveAt (sys.setFile d dst bytes) dst = sys.format.entriesIn bytes := by
  rw [System.archiveAt, System.setFile, Function.update_self]

omit [DecidableEq κ] in
theorem entriesIn_closedBytes {es es' : List Entry} :
    sys.format.entriesIn (closedBytes sys es) = some es' ↔ sys.zipClose = true ∧ es' = es := by
  rw [closedBytes]
  split
  next h =>
    rw [sys.format.entriesIn_pack, Option.some_inj]
    exact ⟨fun he => ⟨h, he.symm⟩, fun he => he.2.symm⟩
  next h =>
    rw [sys.format.entriesIn_draft]
    exact ⟨fun he => (by cases he), fun he => absurd he.1 h⟩

theorem archiveAt_compress {iFlag : ℤ} {d d' : Disk κ} (hd : sys.Holds d src folder)
    (h : compress sys folder (some src) (some dst) iFlag d = .ok (zipOk, d')) {es : List Entry} :
    sys.archiveAt d' dst = some es ↔ sys.zipClose = true ∧ es = added sys folder src dst := by
  obtain ⟨-, d₁, -, rfl⟩ := (compress_ok_iff hd).mp h
  rw [archiveAt_setFile, entriesIn_closedBytes]

theorem lossless_of_complete {iFlag : ℤ} {d d' : Disk κ} (hd : sys.Holds d src folder)
    (h : compress sys folder (some src) (some dst) iFlag d = .ok (zipOk, d'))
    (hc : Complete sys folder src dst d') : Lossless sys folder src dst := by
  obtain ⟨es, hes, hall⟩ := hc
  obtain ⟨hclose, rfl⟩ := (archiveAt_compress hd h).mp hes
  have hmem := fun pc hpc => (entryOf_mem_added hd hpc).mp (hall pc hpc)
  exact ⟨fun pc hpc => (hmem pc hpc).1, fun pc hpc => (hmem pc hpc).2.1,
    fun pc hpc => (hmem pc hpc).2.2, hclose⟩

theorem complete_of_lossless {iFlag : ℤ} {d d' : Disk κ} (hd : sys.Holds d src folder)
    (h : compress sys folder (some src) (some dst) iFlag d = .ok (zipOk, d'))
    (hl : Lossless sys folder src dst) : Complete sys folder src dst d' := by
  refine ⟨_, (archiveAt_compress hd h).mpr ⟨hl.close, rfl⟩, fun pc hpc => ?_⟩
  exact (entryOf_mem_added hd hpc).mpr ⟨hl.reached pc hpc, hl.closed pc hpc, hl.alone pc hpc⟩

/-! ## Systems where the noticed calls succeed -/

/-- No call fails whose failure `Compress` notices. -/
structure System.Works (sys : System κ) : Prop where
  fopen : ∀ p, sys.fopen p = true
  fread : ∀ p k, sys.fread p k = true
  opened : sys.zipOpen64 = true
  newFile : ∀ p, sys.zipOpenNewFileInZip64 p = true
  write : ∀ p k, sys.zipWriteInFileInZip p k = true

theorem passes_of_works (hw : sys.Works) {d : Disk κ} (hroot : sys.findFirst src = true)
    (hfound : folder.reached sys src ≠ []) (hsrc : src ≠ []) {d₁ : Disk κ}
    (hprep : prepareFolder sys (cleared sys d dst) dst = .ok (true, d₁))
    (hfree : d₁ (sys.locate dst) ≠ some .folder) : Passes sys folder src dst d :=
  ⟨hroot, hfound, hsrc, ⟨d₁, hprep, hfree⟩, hw.opened, fun p _ _ =>
    ⟨hw.fopen p, hw.newFile _, fun _ _ => ⟨hw.fread p _, hw.write _ _⟩⟩⟩

end Complete

/-! ## A small disk -/

section Small

/-- What a row of ones counts out. -/
def unaryEntries (bytes : Bytes) : Option (List Entry) :=
  if bytes = [] then none
  else (Encodable.decode (α := List (List ℕ × List ℕ)) (bytes.length - 1)).map
    (List.map fun x => ⟨x.1.map Char.ofNat, x.2.map UInt8.ofNat⟩)

/-- An archive format whose read side undoes its write side: a row of ones that counts out the entries. -/
def unary : ZipFormat where
  pack es := List.replicate
    (Encodable.encode (es.map fun e => (e.name.map Char.toNat, e.contents.map UInt8.toNat)) + 1) 1
  draft := []
  entriesIn := unaryEntries
  delivered := unaryEntries
  entriesIn_pack es := by
    rw [unaryEntries, if_neg (by simp), List.length_replicate, Nat.add_sub_cancel, Encodable.encodek, Option.map_some,
      List.map_map]
    refine congrArg some ((List.map_congr_left fun e _ => ?_).trans (List.map_id es))
    simp [Function.comp_def, Char.ofNat_toNat, UInt8.ofNat_toNat]
  entriesIn_draft := if_pos rfl

/-- Where every call succeeds but those asked about. -/
def mostly (findFirst zipCloseFileInZip : Path → Bool) (zipClose : Bool) : System Path where
  format := unary
  locate := id
  findFirst := findFirst
  makeDir _ := true
  fopen _ := true
  fread _ _ := true
  zipOpen64 := true
  zipOpenNewFileInZip64 _ := true
  zipWriteInFileInZip _ _ := true
  zipCloseFileInZip := zipCloseFileInZip
  zipClose := zipClose

/-- `c:\s` with the file `f` and the folder `t`, in which there is a file `g`. -/
def smallFolder : Folder := .file ['f'] [1, 2] (.subdir ['t'] (.file ['g'] [3] .done) .done)

def smallPath : Path := ['c', ':', '\\', 's']

def smallZip : Path := ['c', ':', '\\', 'a']

def smallDisk : Disk Path := fun p =>
  if p = ['c', ':', '\\'] then some .folder
  else if p = smallPath.child ['f'] then some (.file [1, 2])
  else if p = (smallPath.child ['t']).child ['g'] then some (.file [3])
  else none

theorem smallDisk_holds (sys : System Path) (hsys : sys.locate = id) :
    sys.Holds smallDisk smallPath smallFolder := by
  intro p c hp
  rw [hsys]
  simp only [smallFolder, Folder.files, List.append_nil, List.mem_cons, Prod.mk.injEq,
    List.not_mem_nil, or_false] at hp
  rcases hp with ⟨rfl, rfl⟩ | ⟨rfl, rfl⟩ <;> decide

theorem mostly_works (findFirst zipCloseFileInZip : Path → Bool) (zipClose : Bool) :
    (mostly findFirst zipCloseFileInZip zipClose).Works :=
  ⟨fun _ => rfl, fun _ _ => rfl, rfl, fun _ => rfl, fun _ _ => rfl⟩

/-- As long as `c:\s` itself can be opened, `Compress` of it returns `ZIP_OK`. -/
theorem smallDisk_compress (findFirst zipCloseFileInZip : Path → Bool) (zipClose : Bool)
    (hroot : findFirst smallPath = true) : ∃ d',
    compress (mostly findFirst zipCloseFileInZip zipClose) smallFolder (some smallPath) (some smallZip) 0
      smallDisk = .ok (zipOk, d') := by
  have hprep : prepareFolder (mostly findFirst zipCloseFileInZip zipClose)
      (cleared (mostly findFirst zipCloseFileInZip zipClose) smallDisk smallZip) smallZip =
        .ok (true, smallDisk) := rfl
  refine ⟨_, (compress_ok_iff (smallDisk_holds _ rfl)).mpr ⟨?_, _, hprep, rfl⟩⟩
  exact passes_of_works (mostly_works ..) hroot (by simp [smallFolder, Folder.reached]) (by decide) hprep
    (by show smallDisk smallZip ≠ _; decide)

end Small

section
variable {κ : Type} [DecidableEq κ] {sys : System κ} {src dst : Path} {folder : Folder}

/-- **When a `ZIP_OK` of `Compress` means a complete archive.** -/
theorem compress_complete_iff {iFlag : ℤ} {d d' : Disk κ} (hd : sys.Holds d src folder)
    (h : compress sys folder (some src) (some dst) iFlag d = .ok (zipOk, d')) :
    Complete sys folder src dst d' ↔ Lossless sys folder src dst :=
  ⟨lossless_of_complete hd h, complete_of_lossless hd h⟩

end

theorem compress_complete_iff_sample : ∃ d',
    Complete (mostly (fun _ => true) (fun _ => true) true) smallFolder smallPath smallZip d' ↔
      Lossless (mostly (fun _ => true) (fun _ => true) true) smallFolder smallPath smallZip := by
  obtain ⟨d', h⟩ := smallDisk_compress (fun _ => true) (fun _ => true) true rfl
  exact ⟨d', compress_complete_iff (smallDisk_holds _ rfl) h⟩

/-- `ZIP_OK` for an archive without the subfolder that could not be opened, for one without the entry
that could not be closed, and for one that could not be closed itself. -/
theorem compress_incomplete :
    (∃ d', compress (mostly (· ≠ smallPath.child ['t']) (fun _ => true) true) smallFolder
        (some smallPath) (some smallZip) 0 smallDisk = .ok (zipOk, d') ∧
      ¬ Complete (mostly (· ≠ smallPath.child ['t']) (fun _ => true) true) smallFolder smallPath
        smallZip d') ∧
    (∃ d', compress (mostly (fun _ => true) (· ≠ ['s', '\\', 'f']) true) smallFolder
        (some smallPath) (some smallZip) 0 smallDisk = .ok (zipOk, d') ∧
      ¬ Complete (mostly (fun _ => true) (· ≠ ['s', '\\', 'f']) true) smallFolder smallPath
        smallZip d') ∧
    ∃ d', compress (mostly (fun _ => true) (fun _ => true) false) smallFolder
        (some smallPath) (some smallZip) 0 smallDisk = .ok (zipOk, d') ∧
      ¬ Complete (mostly (fun _ => true) (fun _ => true) false) smallFolder smallPath smallZip d' := by
  refine ⟨?_, ?_, ?_⟩
  · obtain ⟨d', h⟩ := smallDisk_compress (· ≠ smallPath.child ['t']) (fun _ => true) true (by decide)
    refine ⟨d', h, fun hc => ?_⟩
    have hreached := (lossless_of_complete (smallDisk_holds _ rfl) h hc).reached
      ((smallPath.child ['t']).child ['g'], [3]) (by decide)
    exact absurd hreached (by decide)
  · obtain ⟨d', h⟩ := smallDisk_compress (fun _ => true) (· ≠ ['s', '\\', 'f']) true rfl
    refine ⟨d', h, fun hc => ?_⟩
    have hclosed := (lossless_of_complete (smallDisk_holds _ rfl) h hc).closed
      (smallPath.child ['f'], [1, 2]) (by decide)
    exact absurd hclosed (by decide)
  · obtain ⟨d', h⟩ := smallDisk_compress (fun _ => true) (fun _ => true) false rfl
    refine ⟨d', h, fun hc => ?_⟩
    exact absurd (lossless_of_complete (smallDisk_holds _ rfl) h hc).close (by decide)

end AppUtil.Zip
