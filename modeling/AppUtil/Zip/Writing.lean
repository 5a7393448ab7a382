import Mathlib.Data.List.Basic
import Mathlib.Tactic.Common
import AppUtil.Zip.ZipTools

/-! # What `Compress` writes

One lemma for each function, from the copy of one file to the whole archive: when it returns
`ZIP_OK`, and what is in the archive then. -/
namespace AppUtil.Zip
open AppUtil.Lib
set_option autoImplicit false

/-! ## Buffers -/

theorem flatten_take_drop {α : Type} (l : List α) (m n : ℕ) :
    ((List.range n).map fun k => (l.drop (k * m)).take m).flatten = l.take (n * m) := by
  induction n with
  | zero => simp
  | succ n ih =>
    rw [List.range_succ, List.map_append, List.flatten_append, ih, Nat.succ_mul, List.take_add]
    simp

theorem buffers_flatten (contents : Bytes) : (buffers contents).flatten = contents := by
  rw [buffers, flatten_take_drop]
  refine List.take_of_length_le ?_
  have hdiv := Nat.lt_div_mul_add (a := contents.length) (show 0 < bufLen by decide)
  rw [Nat.succ_mul]
  exact Nat.le_of_lt hdiv

theorem buffers_ne_nil (contents : Bytes) : buffers contents ≠ [] := by
  simp [buffers]

/-! ## One file -/

section File
variable {κ : Type} (sys : System κ)

/-- Every `fread` and every `zipWriteInFileInZip` succeeds, from the `k`-th pass of the loop on. -/
def LoopCopies (name path : Path) (k : ℕ) (bufs : List Bytes) : Prop :=
  ∀ i < bufs.length, sys.fread path (k + i) = true ∧ sys.zipWriteInFileInZip name (k + i) = true

/-- None of the calls fails that `CompressFile` looks at, nor one whose failure makes a later call
fail. -/
def Copies (name path : Path) (contents : Bytes) : Prop :=
  sys.zipOpenNewFileInZip64 name = true ∧ LoopCopies sys name path 0 (buffers contents)

variable {sys}

theorem loopCopies_cons {name path : Path} {k : ℕ} {buf : Bytes} {bufs : List Bytes} :
    LoopCopies sys name path k (buf :: bufs) ↔
      (sys.fread path k = true ∧ sys.zipWriteInFileInZip name k = true) ∧
        LoopCopies sys name path (k + 1) bufs := by
  constructor
  · intro h
    refine ⟨h 0 (Nat.succ_pos _), fun i hi => ?_⟩
    rw [Nat.add_assoc, Nat.add_comm 1 i]
    exact h (i + 1) (Nat.succ_lt_succ hi)
  · rintro ⟨h0, h⟩ i hi
    cases i with
    | zero => exact h0
    | succ i =>
      rw [Nat.add_comm i 1, ← Nat.add_assoc]
      exact h i (Nat.lt_of_succ_lt_succ hi)

theorem compressLoop_ok {name path : Path} {k : ℕ} {bufs : List Bytes} (es : List Entry) (pre : Bytes)
    (h : LoopCopies sys name path k bufs) :
    compressLoop sys path k bufs (.live ⟨es, some ⟨name, pre⟩⟩) =
      .ok (zipOk, .live ⟨es, some ⟨name, pre ++ bufs.flatten⟩⟩) := by
  induction bufs generalizing k pre with
  | nil => simp [compressLoop]
  | cons buf bufs ih =>
    obtain ⟨⟨hread, hwrite⟩, h⟩ := loopCopies_cons.mp h
    have hnext := ih (pre ++ buf) h
    simp only [compressLoop, hread, Bool.true_eq_false, if_false, zipWriteInFileInZip, Handle.call,
      ZipFile.writeInFileInZip, hwrite, if_true, ok_bind, ne_eq, not_true_eq_false, hnext,
      List.flatten_cons, List.append_assoc]

theorem compressLoop_fails {name path : Path} {k : ℕ} {bufs : List Bytes} (es : List Entry) (pre : Bytes)
    (h : ¬ LoopCopies sys name path k bufs) : ∃ es',
    compressLoop sys path k bufs (.live ⟨es, some ⟨name, pre⟩⟩) =
      .ok (zipStateIoError, .live ⟨es', none⟩) := by
  have hclose : ∀ e : Entry, ∃ es', zipCloseFileInZip sys (.live ⟨es, some e⟩) =
      .ok ((ZipFile.closeFileInZip sys ⟨es, some e⟩).1, .live ⟨es', none⟩) := by
    intro e
    by_cases hc : sys.zipCloseFileInZip e.name <;>
      exact ⟨_, by simp [zipCloseFileInZip, Handle.call, ZipFile.closeFileInZip, hc]; rfl⟩
  induction bufs generalizing k pre with
  | nil => exact absurd (fun i hi => absurd hi (Nat.not_lt_zero i)) h
  | cons buf bufs ih =>
    rw [loopCopies_cons, not_and] at h
    obtain ⟨es', hes⟩ := hclose ⟨name, pre⟩
    cases hread : sys.fread path k with
    | false =>
      refine ⟨es', ?_⟩
      simp only [compressLoop, hread, if_true, hes, ok_bind, pure_eq_ok]
    | true =>
      cases hwrite : sys.zipWriteInFileInZip name k with
      | false =>
        refine ⟨es', ?_⟩
        have hne : zipErrno ≠ zipOk := by decide
        simp only [compressLoop, hread, Bool.true_eq_false, if_false, zipWriteInFileInZip, Handle.call,
          ZipFile.writeInFileInZip, hwrite, Bool.false_eq_true, ok_bind, if_pos hne, hes, pure_eq_ok]
      | true =>
        obtain ⟨es', hnext⟩ := ih (pre ++ buf) (h ⟨hread, hwrite⟩)
        refine ⟨es', ?_⟩
        simp only [compressLoop, hread, Bool.true_eq_false, if_false, zipWriteInFileInZip, Handle.call,
          ZipFile.writeInFileInZip, hwrite, if_true, ok_bind, ne_eq, not_true_eq_false, hnext]

/-- Where no entry is open, the first write fails. -/
theorem compressLoop_unopened (sys : System κ) (path : Path) (k : ℕ) {bufs : List Bytes} {zFp : Handle}
    (hbufs : bufs ≠ []) (hz : zFp = .null ∨ ∃ es, zFp = .live ⟨es, none⟩) :
    compressLoop sys path k bufs zFp = .ok (zipStateIoError, zFp) := by
  cases bufs with
  | nil => exact absurd rfl hbufs
  | cons buf bufs =>
    have hne : zipParamError ≠ zipOk := by decide
    have hclose : zipCloseFileInZip sys zFp = .ok (zipParamError, zFp) := by
      rcases hz with rfl | ⟨es, rfl⟩ <;> rfl
    have hwrite : zipWriteInFileInZip sys zFp k buf = .ok (zipParamError, zFp) := by
      rcases hz with rfl | ⟨es, rfl⟩ <;> rfl
    cases hread : sys.fread path k with
    | false => simp only [compressLoop, hread, if_true, hclose, ok_bind, pure_eq_ok]
    | true =>
      simp only [compressLoop, hread, Bool.true_eq_false, if_false, hwrite, ok_bind, if_pos hne, hclose,
        pure_eq_ok]

/-- The entry that is added for a file. -/
def packed (sys : System κ) (name : Path) (contents : Bytes) : List Entry :=
  if sys.zipCloseFileInZip name then [⟨name, contents⟩] else []

theorem compressFile_ok {d : Disk κ} {name path : Path} {contents : Bytes} {es : List Entry}
    (hopen : sys.openRead d path = some contents) (h : Copies sys name path contents) :
    compressFile sys d (.live ⟨es, none⟩) name path =
      .ok (zipOk, .live ⟨es ++ packed sys name contents, none⟩) := by
  have hloop := compressLoop_ok es [] h.2
  have hnew : zipOpenNewFileInZip64 sys (.live ⟨es, none⟩) name =
      .ok (zipOk, .live ⟨es, some ⟨name, []⟩⟩) := by
    simp [zipOpenNewFileInZip64, Handle.call, ZipFile.openNewFileInZip64, ZipFile.closeOpened, h.1]
  simp only [compressFile, hnew, ok_bind, hopen, hloop, List.nil_append, buffers_flatten, pure_eq_ok]
  by_cases hc : sys.zipCloseFileInZip name <;>
    simp [zipCloseFileInZip, Handle.call, ZipFile.closeFileInZip, packed, hc]

theorem compressFile_fails {d : Disk κ} {name path : Path} {contents : Bytes} (es : List Entry)
    (hopen : sys.openRead d path = some contents) (h : ¬ Copies sys name path contents) : ∃ es',
    compressFile sys d (.live ⟨es, none⟩) name path = .ok (zipStateIoError, .live ⟨es', none⟩) := by
  have hdone : ∀ es' : List Entry, zipCloseFileInZip sys (.live ⟨es', none⟩) =
      .ok (zipParamError, .live ⟨es', none⟩) := fun _ => rfl
  cases hnew : sys.zipOpenNewFileInZip64 name with
  | false =>
    have hcall : zipOpenNewFileInZip64 sys (.live ⟨es, none⟩) name =
        .ok (zipErrno, .live ⟨es, none⟩) := by
      simp [zipOpenNewFileInZip64, Handle.call, ZipFile.openNewFileInZip64, ZipFile.closeOpened, hnew]
    have hloop := compressLoop_unopened sys path 0 (buffers_ne_nil contents)
      (.inr ⟨es, rfl⟩)
    exact ⟨es, by simp only [compressFile, hcall, ok_bind, hopen, hloop, hdone, pure_eq_ok]⟩
  | true =>
    have hcall : zipOpenNewFileInZip64 sys (.live ⟨es, none⟩) name =
        .ok (zipOk, .live ⟨es, some ⟨name, []⟩⟩) := by
      simp [zipOpenNewFileInZip64, Handle.call, ZipFile.openNewFileInZip64, ZipFile.closeOpened, hnew]
    obtain ⟨es', hloop⟩ := compressLoop_fails es [] fun hl => h ⟨hnew, hl⟩
    exact ⟨es', by simp only [compressFile, hcall, ok_bind, hopen, hloop, hdone, pure_eq_ok]⟩

theorem compressFile_null {d : Disk κ} {name path : Path} {contents : Bytes}
    (hopen : sys.openRead d path = some contents) :
    compressFile sys d .null name path = .ok (zipStateIoError, .null) := by
  have hloop := compressLoop_unopened sys path 0 (buffers_ne_nil contents)
    (.inl rfl)
  have hcall : zipOpenNewFileInZip64 sys .null name = .ok (zipParamError, .null) := rfl
  have hdone : zipCloseFileInZip sys .null = .ok (zipParamError, .null) := rfl
  simp only [compressFile, hcall, ok_bind, hopen, hloop, hdone, pure_eq_ok]

end File

/-! ## All files -/

section Archive
variable {κ : Type} [DecidableEq κ] {sys : System κ} {src dst : Path} {ps : List Path} {d d' : Disk κ}

/-- The file can be opened, and nothing fails that keeps it out of the archive with a message. -/
def CopiesAt (sys : System κ) (src : Path) (d : Disk κ) (path : Path) : Prop :=
  ∃ contents, sys.openRead d path = some contents ∧
    Copies sys (getRelativePath src path) path contents

/-- What the loop adds to the archive for a file. -/
def packedAt (sys : System κ) (src : Path) (d : Disk κ) (path : Path) : List Entry :=
  match sys.openRead d path with
  | none => []
  | some contents => packed sys (getRelativePath src path) contents

theorem archiveLoop_ok (es : List Entry) (h : ∀ p ∈ ps, CopiesAt sys src d p) :
    archiveLoop sys src dst ps d (.live ⟨es, none⟩) =
      .ok (zipOk, d, .live ⟨es ++ ps.flatMap (packedAt sys src d), none⟩) := by
  induction ps generalizing es with
  | nil => simp [archiveLoop]
  | cons p ps ih =>
    obtain ⟨contents, hopen, hcopy⟩ := h p (List.mem_cons_self ..)
    have hrest := ih (es ++ packed sys (getRelativePath src p) contents)
      fun q hq => h q (List.mem_cons_of_mem p hq)
    have hp : packedAt sys src d p = packed sys (getRelativePath src p) contents := by
      rw [packedAt, hopen]
    simp only [archiveLoop, compressFile_ok hopen hcopy, ok_bind, ne_eq, not_true_eq_false, if_false,
      hrest, List.flatMap_cons, hp, List.append_assoc]

theorem archiveLoop_fails (h : ¬ ∀ p ∈ ps, CopiesAt sys src d p) {es : List Entry} {zFp : Handle} :
    archiveLoop sys src dst ps d (.live ⟨es, none⟩) ≠ .ok (zipOk, d', zFp) := by
  have hne : zipStateIoError ≠ zipOk := by decide
  induction ps generalizing es with
  | nil => exact absurd (fun p hp => absurd hp (List.not_mem_nil)) h
  | cons p ps ih =>
    cases hopen : sys.openRead d p with
    | none =>
      have hnew : ∃ r, zipOpenNewFileInZip64 sys (.live ⟨es, none⟩) (getRelativePath src p) = .ok r :=
        ⟨_, rfl⟩
      obtain ⟨r, hr⟩ := hnew
      simp only [archiveLoop, compressFile, hr, ok_bind, hopen]
      exact fun heq => by cases heq
    | some contents =>
      by_cases hcopy : Copies sys (getRelativePath src p) p contents
      · have hrest : ¬ ∀ q ∈ ps, CopiesAt sys src d q := by
          intro hall
          refine h fun q hq => ?_
          rcases List.mem_cons.mp hq with rfl | hq
          · exact ⟨contents, hopen, hcopy⟩
          · exact hall q hq
        simp only [archiveLoop, compressFile_ok hopen hcopy, ok_bind, ne_eq, not_true_eq_false, if_false]
        exact ih hrest
      · obtain ⟨es', hfile⟩ := compressFile_fails es hopen hcopy
        have hclose : ∃ r, zipClose sys d dst (.live ⟨es', none⟩) = .ok r := by
          by_cases hc : sys.zipClose <;> exact ⟨_, by simp [zipClose, ZipFile.closeOpened, hc]; rfl⟩
        obtain ⟨r, hr⟩ := hclose
        simp only [archiveLoop, hfile, ok_bind, if_pos hne, hr, pure_eq_ok]
        intro heq
        exact hne (congrArg (fun x : ℤ × _ => x.1) (Except.ok.inj heq))

theorem archiveLoop_null (hps : ps ≠ []) {zFp : Handle} :
    archiveLoop sys src dst ps d .null ≠ .ok (zipOk, d', zFp) := by
  have hne : zipStateIoError ≠ zipOk := by decide
  cases ps with
  | nil => exact absurd rfl hps
  | cons p ps =>
    cases hopen : sys.openRead d p with
    | none =>
      have hnew : zipOpenNewFileInZip64 sys .null (getRelativePath src p) = .ok (zipParamError, .null) :=
        rfl
      simp only [archiveLoop, compressFile, hnew, ok_bind, hopen]
      exact fun heq => by cases heq
    | some contents =>
      simp only [archiveLoop, compressFile_null hopen, ok_bind, if_pos hne, zipClose, pure_eq_ok]
      intro heq
      exact hne (congrArg (fun x : ℤ × _ => x.1) (Except.ok.inj heq))

/-- What is in the file of an archive after `zipClose`. -/
def closedBytes (sys : System κ) (entries : List Entry) : Bytes :=
  if sys.zipClose then sys.format.pack entries else sys.format.draft

theorem packFiles_ok (hps : ps ≠ []) :
    packFiles sys src dst .create ps d = .ok (zipOk, d') ↔
      (d (sys.locate dst) ≠ some .folder ∧ sys.zipOpen64 = true) ∧
        (∀ p ∈ ps, CopiesAt sys src (sys.setFile d dst sys.format.draft) p) ∧
        d' = sys.setFile d dst (closedBytes sys
          (ps.flatMap (packedAt sys src (sys.setFile d dst sys.format.draft)))) := by
  by_cases hopen : d (sys.locate dst) ≠ some .folder ∧ sys.zipOpen64 = true
  · have hzip : zipOpen64 sys d dst .create =
        (sys.setFile d dst sys.format.draft, .live ⟨[], none⟩) := if_pos hopen
    by_cases hall : ∀ p ∈ ps, CopiesAt sys src (sys.setFile d dst sys.format.draft) p
    · have hset : ∀ b b', sys.setFile (sys.setFile d dst b) dst b' = sys.setFile d dst b' :=
        fun b b' => Function.update_idem ..
      have hrun : packFiles sys src dst .create ps d = .ok (zipOk, sys.setFile d dst (closedBytes sys
          (ps.flatMap (packedAt sys src (sys.setFile d dst sys.format.draft))))) := by
        simp only [packFiles, hzip, archiveLoop_ok [] hall, ok_bind, List.nil_append, pure_eq_ok]
        by_cases hc : sys.zipClose <;>
          simp [zipClose, ZipFile.closeOpened, closedBytes, hc, hset]
      rw [hrun]
      constructor
      · intro h
        cases h
        exact ⟨hopen, hall, rfl⟩
      · rintro ⟨-, -, rfl⟩
        rfl
    · refine ⟨fun h => ?_, fun h => absurd h.2.1 hall⟩
      simp only [packFiles, hzip] at h
      obtain ⟨⟨iRet, d₂, zFp⟩, hloop, h⟩ := bind_eq_ok.mp h
      obtain ⟨⟨_, d₃, _⟩, -, h⟩ := bind_eq_ok.mp h
      cases h
      exact absurd hloop (archiveLoop_fails hall)
  · refine ⟨fun h => ?_, fun h => absurd h.1 hopen⟩
    have hzip : zipOpen64 sys d dst .create = (d, .null) := if_neg hopen
    simp only [packFiles, hzip] at h
    obtain ⟨⟨iRet, d₂, zFp⟩, hloop, h⟩ := bind_eq_ok.mp h
    obtain ⟨⟨_, d₃, _⟩, -, h⟩ := bind_eq_ok.mp h
    cases h
    exact absurd hloop (archiveLoop_null hps)

end Archive

/-! ## The whole call -/

section Whole
variable {κ : Type} {sys : System κ} {src dst : Path} {folder : Folder}

/-- The files below folders that can all be opened. -/
def Folder.reached (sys : System κ) (path : Path) : Folder → List (Path × Bytes)
  | .done => []
  | .file name contents rest => (path.child name, contents) :: rest.reached sys path
  | .subdir name below rest =>
    (if isDots name = false ∧ sys.findFirst (path.child name) = true then
        below.reached sys (path.child name)
      else []) ++ rest.reached sys path

theorem Folder.reached_sublist (folder : Folder) (path : Path) :
    List.Sublist (folder.reached sys path) (folder.files path) := by
  induction folder generalizing path with
  | done => exact List.Sublist.refl []
  | file name contents rest ih => exact (ih path).cons_cons _
  | subdir name below rest ihBelow ihRest =>
    refine List.Sublist.append ?_ (ihRest path)
    split
    · exact ihBelow (path.child name)
    · exact List.nil_sublist _

theorem traverseEntries_eq (folder : Folder) (path : Path) :
    traverseEntries sys path folder = (folder.reached sys path).map Prod.fst := by
  induction folder generalizing path with
  | done => rfl
  | file name contents rest ih => rw [traverseEntries, Folder.reached, List.map_cons, ih]
  | subdir name below rest ihBelow ihRest =>
    rw [traverseEntries, Folder.reached, List.map_append, ihRest, ihBelow]
    cases isDots name <;> cases sys.findFirst (path.child name) <;> simp

theorem traverseFloder_eq (hroot : sys.findFirst src = true) :
    traverseFloder sys src folder = (folder.reached sys src).map Prod.fst := by
  rw [traverseFloder, if_pos hroot, traverseEntries_eq]

variable [DecidableEq κ]

/-- What `Compress` reads in a file while the archive is open. -/
def seen (sys : System κ) (dst path : Path) (contents : Bytes) : Bytes :=
  if sys.locate path = sys.locate dst then sys.format.draft else contents

/-- The disk where nothing is at the destination any more. -/
def cleared (sys : System κ) (d : Disk κ) (dst : Path) : Disk κ :=
  if sys.accessFile d dst then sys.deleteFile d dst else d

/-- The calls succeed whose failure `Compress` notices. -/
structure Passes (sys : System κ) (folder : Folder) (src dst : Path) (d : Disk κ) : Prop where
  root : sys.findFirst src = true
  found : folder.reached sys src ≠ []
  named : src ≠ []
  placed : ∃ d₁, prepareFolder sys (cleared sys d dst) dst = .ok (true, d₁) ∧
    d₁ (sys.locate dst) ≠ some .folder
  opened : sys.zipOpen64 = true
  copied : ∀ p c, (p, c) ∈ folder.reached sys src → sys.fopen p = true ∧
    Copies sys (getRelativePath src p) p (seen sys dst p c)

/-- The entries that `Compress` has added when it returns `ZIP_OK`. -/
def added (sys : System κ) (folder : Folder) (src dst : Path) : List Entry :=
  (folder.reached sys src).flatMap fun pc =>
    packed sys (getRelativePath src pc.1) (seen sys dst pc.1 pc.2)

theorem cleared_other (d : Disk κ) {k : κ} (hk : k ≠ sys.locate dst) : cleared sys d dst k = d k := by
  have hdel : sys.deleteFile d dst k = d k := by
    rw [System.deleteFile]
    cases d (sys.locate dst) with
    | none => rfl
    | some node =>
      cases node with
      | file bytes => exact Function.update_of_ne hk ..
      | folder => rfl
  rw [cleared]
  split
  · exact hdel
  · rfl

theorem makeDirs_files (ps : List Path) {b : Bool} {d : Disk κ} {k : κ} {bytes : Bytes} :
    (makeDirs sys.ops b ps d).2 k = some (.file bytes) ↔ d k = some (.file bytes) := by
  induction ps generalizing b d with
  | nil => rfl
  | cons p ps ih =>
    rw [makeDirs]
    by_cases hacc : sys.ops.accessFile d p = true
    · rw [if_pos hacc]
      exact ih
    · rw [if_neg hacc]
      cases hmk : sys.ops.makeDir d p with
      | none => exact Iff.rfl
      | some d₁ =>
        refine (ih (b := true)).trans ?_
        have hmk : sys.mkDir d p = some d₁ := hmk
        rw [System.mkDir] at hmk
        split at hmk
        next hfree =>
          cases hmk
          by_cases hk : k = sys.locate p
          · rw [hk, Function.update_self, hfree.1]
            simp
          · rw [Function.update_of_ne hk]
        next => cases hmk

theorem prepareFolder_files {d d₁ : Disk κ} {b : Bool} (h : prepareFolder sys d dst = .ok (b, d₁))
    {k : κ} {bytes : Bytes} : d₁ k = some (.file bytes) ↔ d k = some (.file bytes) := by
  rw [prepareFolder] at h
  split at h
  · cases h
    rfl
  · rw [createdMultipleDirectory] at h
    split at h
    · cases h
    · obtain rfl : _ = d₁ := congrArg Prod.snd (Except.ok.inj h)
      exact makeDirs_files _

/-- What `fopen` finds while the archive is open. -/
theorem openRead_draft {d d₁ : Disk κ} (hd : sys.Holds d src folder)
    (hprep : prepareFolder sys (cleared sys d dst) dst = .ok (true, d₁)) {p : Path} {c : Bytes}
    (hp : (p, c) ∈ folder.files src) :
    sys.openRead (sys.setFile d₁ dst sys.format.draft) p =
      if sys.fopen p then some (seen sys dst p c) else none := by
  rw [System.openRead, System.setFile, seen]
  by_cases hk : sys.locate p = sys.locate dst
  · rw [hk, Function.update_self, if_pos rfl]
  · have hfile : d₁ (sys.locate p) = some (.file c) :=
      (prepareFolder_files hprep).mpr ((cleared_other d hk).trans (hd p c hp))
    rw [Function.update_of_ne hk, hfile, if_neg hk]

/-- Of each file that is reached, whether the loop of `Compress` gets over it. -/
theorem copiesAt_reached {d d₁ : Disk κ} (hd : sys.Holds d src folder)
    (hprep : prepareFolder sys (cleared sys d dst) dst = .ok (true, d₁)) :
    (∀ p ∈ (folder.reached sys src).map Prod.fst,
        CopiesAt sys src (sys.setFile d₁ dst sys.format.draft) p) ↔
      ∀ p c, (p, c) ∈ folder.reached sys src → sys.fopen p = true ∧
        Copies sys (getRelativePath src p) p (seen sys dst p c) := by
  have hopen : ∀ p c, (p, c) ∈ folder.reached sys src → _ := fun p c hp =>
    openRead_draft hd hprep ((folder.reached_sublist src).subset hp)
  rw [List.forall_mem_map]
  constructor
  · intro h p c hp
    obtain ⟨contents, hc, hcopy⟩ := h (p, c) hp
    rw [hopen p c hp] at hc
    by_cases hf : sys.fopen p
    · rw [if_pos hf] at hc
      cases hc
      exact ⟨hf, hcopy⟩
    · rw [if_neg hf] at hc
      cases hc
  · intro h pc hp
    obtain ⟨hf, hcopy⟩ := h pc.1 pc.2 hp
    exact ⟨_, (hopen pc.1 pc.2 hp).trans (if_pos hf), hcopy⟩

theorem packedAt_reached {d d₁ : Disk κ} (hd : sys.Holds d src folder)
    (hprep : prepareFolder sys (cleared sys d dst) dst = .ok (true, d₁))
    (hf : ∀ p c, (p, c) ∈ folder.reached sys src → sys.fopen p = true) :
    ((folder.reached sys src).map Prod.fst).flatMap
        (packedAt sys src (sys.setFile d₁ dst sys.format.draft)) = added sys folder src dst := by
  rw [List.flatMap_map]
  refine List.flatMap_congr fun pc hp => ?_
  rw [packedAt, openRead_draft hd hprep ((folder.reached_sublist src).subset hp), if_pos (hf _ _ hp)]

theorem compress_eq {iFlag : ℤ} {d : Disk κ} (hlist : traverseFloder sys src folder ≠ []) :
    compress sys folder (some src) (some dst) iFlag d = (do
      let (bSuccess, d) ← prepareFolder sys (cleared sys d dst) dst
      if bSuccess = false then pure (zipStateErr, d)
      else if src = [] then .error .outOfRange
      else packFiles sys src dst .create (traverseFloder sys src folder) d) := by
  have hmode : (if sys.accessFile d dst then existingFile sys iFlag d dst else some (.create, d)) =
      some (.create, cleared sys d dst) := by
    rw [cleared, existingFile]
    split <;> rfl
  simp only [compress, if_neg hlist, hmode]

/-- **When `Compress` returns `ZIP_OK`**, and what it leaves at the destination. -/
theorem compress_ok_iff {iFlag : ℤ} {d d' : Disk κ} (hd : sys.Holds d src folder) :
    compress sys folder (some src) (some dst) iFlag d = .ok (zipOk, d') ↔
      Passes sys folder src dst d ∧
        ∃ d₁, prepareFolder sys (cleared sys d dst) dst = .ok (true, d₁) ∧
          d' = sys.setFile d₁ dst (closedBytes sys (added sys folder src dst)) := by
  by_cases hlist : traverseFloder sys src folder = []
  · have hnot : compress sys folder (some src) (some dst) iFlag d = .ok (zipStateDirIsNull, d) :=
      if_pos hlist
    rw [hnot]
    constructor
    · intro h
      cases h
    · rintro ⟨hp, -⟩
      rw [traverseFloder_eq hp.root, List.map_eq_nil_iff] at hlist
      exact absurd hlist hp.found
  have hroot : sys.findFirst src = true := by
    by_contra hroot
    exact hlist (if_neg hroot)
  rw [compress_eq hlist]
  rw [traverseFloder_eq hroot] at hlist ⊢
  constructor
  · intro h
    obtain ⟨⟨bSuccess, d₁⟩, hprep, h⟩ := bind_eq_ok.mp h
    cases bSuccess with
    | false => cases h
    | true =>
      simp only [Bool.true_eq_false, if_false] at h
      by_cases hsrc : src = []
      · rw [if_pos hsrc] at h
        cases h
      rw [if_neg hsrc, packFiles_ok hlist, copiesAt_reached hd hprep] at h
      obtain ⟨⟨hfree, hopened⟩, hcopied, rfl⟩ := h
      refine ⟨⟨hroot, fun hnil => hlist (by rw [hnil]; rfl), hsrc, ⟨d₁, hprep, hfree⟩, hopened, hcopied⟩,
        d₁, hprep, ?_⟩
      rw [packedAt_reached hd hprep fun p c hp => (hcopied p c hp).1]
  · rintro ⟨hp, d₁, hprep, rfl⟩
    obtain ⟨d₂, hprep', hfree⟩ := hp.placed
    obtain rfl : d₁ = d₂ := congrArg Prod.snd (Except.ok.inj (hprep.symm.trans hprep'))
    simp only [hprep, ok_bind, Bool.true_eq_false, if_false]
    rw [if_neg hp.named, packFiles_ok hlist, copiesAt_reached hd hprep]
    refine ⟨⟨hfree, hp.opened⟩, hp.copied, ?_⟩
    rw [packedAt_reached hd hprep fun p c hpc => (hp.copied p c hpc).1]

end Whole

end AppUtil.Zip
