import AppUtil.Lib.Lifetime
import AppUtil.Lib.Logged
import AppUtil.Zip.Complete

/-! # Which handles `Compress` closes

After an error the loop over the files closes the archive, and behind the loop it is closed again. -/
namespace AppUtil.Zip
open AppUtil.Lib
set_option autoImplicit false

/-- What `zipOpen64` and `fopen` return; streams are told apart by the pass of the loop. -/
inductive Opened where
  | archive
  | stream (i : ℕ)
  | null
  deriving DecidableEq, Repr

/-- An open, a use or a close. -/
abbrev HandleCall := Lifetime.Event Opened

/-! ## The calls -/

section Calls
variable {κ : Type} [DecidableEq κ] (sys : System κ)

/-- `compressLoop` and the calls it makes with the stream `i` and with the archive. -/
def compressLoopCalls (i : ℕ) (strFullPath : Path) :
    ℕ → List Bytes → Handle → Logged HandleCall Fault (ℤ × Handle)
  | _, [], zFp => pure (zipOk, zFp)
  | k, szbuf :: rest, zFp => do
    Logged.step (.used (.stream i)) (.ok ())
    if sys.fread strFullPath k = false then do
      let (_, zFp) ← Logged.step (.used .archive) (zipCloseFileInZip sys zFp)
      pure (zipStateIoError, zFp)
    else do
      let (iRet, zFp) ← Logged.step (.used .archive) (zipWriteInFileInZip sys zFp k szbuf)
      if iRet ≠ zipOk then do
        let (_, zFp) ← Logged.step (.used .archive) (zipCloseFileInZip sys zFp)
        pure (zipStateIoError, zFp)
      else compressLoopCalls i strFullPath (k + 1) rest zFp

/-- `compressFile` with its calls. -/
def compressFileCalls (i : ℕ) (d : Disk κ) (zFp : Handle) (strRelPath strFullPath : Path) :
    Logged HandleCall Fault (ℤ × Handle) := do
  let (_, zFp) ← Logged.step (.used .archive) (zipOpenNewFileInZip64 sys zFp strRelPath)
  match sys.openRead d strFullPath with
  | none => Logged.step (.used .null) (.error .nullFile)
  | some contents => do
    Logged.step (.born (.stream i) none) (.ok ())
    let (iRet, zFp) ← compressLoopCalls sys i strFullPath 0 (buffers contents) zFp
    Logged.step (.died (.stream i)) (.ok ())
    let (_, zFp) ← Logged.step (.used .archive) (zipCloseFileInZip sys zFp)
    pure (iRet, zFp)

/-- `archiveLoop` with its calls. -/
def archiveLoopCalls (strSrcDir strDstDir : Path) :
    ℕ → List Path → Disk κ → Handle → Logged HandleCall Fault (ℤ × Disk κ × Handle)
  | _, [], d, zFp => pure (zipOk, d, zFp)
  | i, strFullPath :: rest, d, zFp => do
    let (iRet, zFp) ←
      compressFileCalls sys i d zFp (getRelativePath strSrcDir strFullPath) strFullPath
    if iRet ≠ zipOk then do
      let (_, d, zFp) ← Logged.step (.died .archive) (zipClose sys d strDstDir zFp)
      pure (iRet, sys.deleteFile d strDstDir, zFp)
    else archiveLoopCalls strSrcDir strDstDir (i + 1) rest d zFp

/-- `packFiles` with its calls. -/
def packFilesCalls (strSrcDir strDstDir : Path) (iOpenMode : OpenMode) (vctFileList : List Path)
    (d : Disk κ) : Logged HandleCall Fault (ℤ × Disk κ) := do
  let (d, zFp) ← Logged.step (.born .archive none) (.ok (zipOpen64 sys d strDstDir iOpenMode))
  let (iRet, d, zFp) ← archiveLoopCalls sys strSrcDir strDstDir 0 vctFileList d zFp
  let (_, d, _) ← Logged.step (.died .archive) (zipClose sys d strDstDir zFp)
  pure (iRet, d)

variable {sys}

omit [DecidableEq κ] in
theorem compressLoopCalls_result (i : ℕ) (path : Path) (k : ℕ) (bufs : List Bytes) (zFp : Handle) :
    (compressLoopCalls sys i path k bufs zFp).result = compressLoop sys path k bufs zFp := by
  induction bufs generalizing k zFp with
  | nil => rfl
  | cons buf bufs ih =>
    unfold compressLoopCalls compressLoop
    rw [Logged.bind_result, Logged.step_result, ok_bind]
    split
    · rw [Logged.bind_result]
      rfl
    · rw [Logged.bind_result, Logged.step_result]
      refine congrArg _ (funext fun r => ?_)
      obtain ⟨iRet, zFp'⟩ := r
      dsimp only
      split
      · rw [Logged.bind_result]
        rfl
      · exact ih ..

omit [DecidableEq κ] in
theorem compressFileCalls_result (i : ℕ) (d : Disk κ) (zFp : Handle) (name path : Path) :
    (compressFileCalls sys i d zFp name path).result = compressFile sys d zFp name path := by
  unfold compressFileCalls compressFile
  rw [Logged.bind_result, Logged.step_result]
  refine congrArg _ (funext fun r => ?_)
  cases sys.openRead d path with
  | none => rfl
  | some contents =>
    simp only [Logged.bind_result, Logged.step_result, compressLoopCalls_result, ok_bind,
      Logged.pure_result, pure_eq_ok]

theorem archiveLoopCalls_result (src dst : Path) (i : ℕ) (ps : List Path) (d : Disk κ) (zFp : Handle) :
    (archiveLoopCalls sys src dst i ps d zFp).result = archiveLoop sys src dst ps d zFp := by
  induction ps generalizing i d zFp with
  | nil => rfl
  | cons p ps ih =>
    unfold archiveLoopCalls archiveLoop
    rw [Logged.bind_result, compressFileCalls_result]
    refine congrArg _ (funext fun r => ?_)
    obtain ⟨iRet, zFp'⟩ := r
    dsimp only
    split
    · rw [Logged.bind_result]
      rfl
    · exact ih ..

theorem packFilesCalls_result (src dst : Path) (mode : OpenMode) (ps : List Path) (d : Disk κ) :
    (packFilesCalls sys src dst mode ps d).result = packFiles sys src dst mode ps d := by
  unfold packFilesCalls packFiles
  rw [Logged.bind_result, Logged.step_result, ok_bind, Logged.bind_result, archiveLoopCalls_result]
  refine congrArg _ (funext fun r => ?_)
  rw [Logged.bind_result]
  rfl

end Calls

/-! ## What is opened and closed -/

section Logs
variable {κ : Type} {sys : System κ}

theorem compressLoopCalls_uses {i k : ℕ} {path : Path} {bufs : List Bytes} {zFp : Handle} :
    ∀ e ∈ (compressLoopCalls sys i path k bufs zFp).log, e = .used (.stream i) ∨ e = .used .archive := by
  induction bufs generalizing k zFp with
  | nil => exact fun e he => absurd he List.not_mem_nil
  | cons buf bufs ih =>
    intro e he
    unfold compressLoopCalls at he
    rcases Logged.mem_bind_log.mp he with he | ⟨r, -, he⟩
    · exact .inl (List.mem_singleton.mp he)
    split at he
    · rcases Logged.mem_bind_log.mp he with he | ⟨r, -, he⟩
      · exact .inr (List.mem_singleton.mp he)
      · exact absurd he List.not_mem_nil
    · rcases Logged.mem_bind_log.mp he with he | ⟨⟨iRet, zFp'⟩, -, he⟩
      · exact .inr (List.mem_singleton.mp he)
      dsimp only at he
      split at he
      · rcases Logged.mem_bind_log.mp he with he | ⟨r, -, he⟩
        · exact .inr (List.mem_singleton.mp he)
        · exact absurd he List.not_mem_nil
      · exact ih e he

/-- A file that is opened is closed, with nothing but uses in between. -/
theorem compressFileCalls_log {i : ℕ} {d : Disk κ} {zFp : Handle} {name path : Path} {r : ℤ × Handle}
    [DecidableEq κ] (h : compressFile sys d zFp name path = .ok r) :
    ∃ uses, (∀ e ∈ uses, e = .used (.stream i) ∨ e = .used .archive) ∧
      (compressFileCalls sys i d zFp name path).log =
        [.used .archive, .born (.stream i) none] ++ uses ++ [.died (.stream i), .used .archive] := by
  unfold compressFile at h
  unfold compressFileCalls
  obtain ⟨⟨err, zFp₁⟩, hnew, h⟩ := bind_eq_ok.mp h
  rw [Logged.bind_log_of_ok (a := (err, zFp₁)) hnew]
  dsimp only at h ⊢
  cases hopen : sys.openRead d path with
  | none =>
    rw [hopen] at h
    cases h
  | some contents =>
    rw [hopen] at h
    obtain ⟨⟨iRet, zFp₂⟩, hloop, h⟩ := bind_eq_ok.mp h
    obtain ⟨⟨err', zFp₃⟩, hclose, -⟩ := bind_eq_ok.mp h
    have hloop' : (compressLoopCalls sys i path 0 (buffers contents) zFp₁).result =
        .ok (iRet, zFp₂) := (compressLoopCalls_result ..).trans hloop
    refine ⟨(compressLoopCalls sys i path 0 (buffers contents) zFp₁).log, compressLoopCalls_uses, ?_⟩
    dsimp only
    rw [Logged.bind_log_of_ok (a := ()) rfl, Logged.bind_log_of_ok (a := (iRet, zFp₂)) hloop']
    dsimp only
    rw [Logged.bind_log_of_ok (a := ()) rfl, Logged.bind_log_of_ok (a := (err', zFp₃)) hclose]
    simp

/-- Between two passes of the loop: the archive is open, every stream so far is closed, and those from
`i` on are to come. -/
structure Between (past : List HandleCall) (i : ℕ) : Prop where
  disciplined : Lifetime.Disciplined past
  archive : Lifetime.Alive past .archive
  toCome : ∀ j, i ≤ j → ¬ Lifetime.Born past (.stream j)
  closed : ∀ x, Lifetime.Born past x → x = .archive ∨ Lifetime.Event.died x ∈ past
  noNull : ¬ Lifetime.Born past .null
  noParent : ∀ x p, Lifetime.Event.born x p ∈ past → p = none

theorem Between.start : Between [.born .archive none] 0 := by
  have honly : ∀ {x p}, Lifetime.Event.born x p ∈ ([.born .archive none] : List HandleCall) →
      x = .archive ∧ p = none := by
    intro x p h
    cases List.mem_singleton.mp h
    exact ⟨rfl, rfl⟩
  refine ⟨⟨⟨fun ⟨_, h⟩ => absurd h List.not_mem_nil, fun _ h => by cases h⟩, trivial⟩,
    Lifetime.alive_of_born List.not_mem_nil, fun j _ ⟨p, h⟩ => ?_, fun x ⟨p, h⟩ => .inl (honly h).1,
    fun ⟨p, h⟩ => ?_, fun x p h => (honly h).2⟩
  · cases (honly h).1
  · cases (honly h).1

/-- What the objects are after a file was opened, used and closed. -/
theorem born_file_iff {past uses : List HandleCall} {i : ℕ} {x : Opened} {p : Option Opened}
    (huses : ∀ e ∈ uses, e = .used (.stream i) ∨ e = .used .archive) :
    Lifetime.Event.born x p ∈ (.used .archive :: .died (.stream i) ::
        (uses ++ .born (.stream i) none :: .used .archive :: past) : List HandleCall) ↔
      (x = .stream i ∧ p = none) ∨ Lifetime.Event.born x p ∈ past := by
  have hno : Lifetime.Event.born x p ∉ uses := by
    intro h
    rcases huses _ h with h | h <;> cases h
  simp [hno]

/-- One more file. -/
theorem Between.file {past uses : List HandleCall} {i : ℕ} (h : Between past i)
    (huses : ∀ e ∈ uses, e = .used (.stream i) ∨ e = .used .archive) :
    Between (.used .archive :: .died (.stream i) ::
      (uses ++ .born (.stream i) none :: .used .archive :: past)) (i + 1) := by
  have hnotBorn : ¬ Lifetime.Born (.used .archive :: past) (.stream i) := fun ⟨p, hp⟩ =>
    h.toCome i (le_refl i) ⟨p, Lifetime.born_of_cons_used hp⟩
  have hnotDied : Lifetime.Event.died (.stream i) ∉ (.used .archive :: past : List HandleCall) := by
    intro hmem
    have hpast := (List.mem_cons.mp hmem).resolve_left (by simp)
    exact h.toCome i (le_refl i) (h.disciplined.born_of_died hpast)
  have hopened : Lifetime.Disciplined (.born (.stream i) none :: .used .archive :: past) :=
    ⟨⟨hnotBorn, fun q hq => by cases hq⟩, h.archive, h.disciplined⟩
  have hstream : Lifetime.Alive (.born (.stream i) none :: .used .archive :: past) (.stream i) :=
    Lifetime.alive_of_born hnotDied
  have harchive : Lifetime.Alive (.born (.stream i) none :: .used .archive :: past) .archive :=
    h.archive.cons_used.cons_born
  have honly : Lifetime.UsesOnly (.born (.stream i) none :: .used .archive :: past) uses := by
    intro e he
    rcases huses e he with rfl | rfl
    · exact ⟨_, rfl, hstream⟩
    · exact ⟨_, rfl, harchive⟩
  have harchive' := (honly.alive_iff.mpr harchive).cons_died
    (show (.archive : Opened) ≠ .stream i by simp)
  have hchildless : ∀ y, Lifetime.Event.born y (some (.stream i)) ∈
      (uses ++ .born (.stream i) none :: .used .archive :: past : List HandleCall) →
      Lifetime.Event.died y ∈
        (uses ++ .born (.stream i) none :: .used .archive :: past : List HandleCall) := by
    intro y hy
    rcases (born_file_iff huses).mp (List.mem_cons_of_mem _ (List.mem_cons_of_mem _ hy)) with
      ⟨-, hp⟩ | hp
    · cases hp
    · cases h.noParent _ _ hp
  refine ⟨⟨harchive', ⟨honly.alive_iff.mpr hstream, hchildless⟩, hopened.append_uses honly⟩,
    harchive'.cons_used, fun j hj ⟨p, hp⟩ => ?_, fun x ⟨p, hp⟩ => ?_, fun ⟨p, hp⟩ => ?_,
    fun x p hp => ?_⟩
  all_goals rcases (born_file_iff huses).mp hp with ⟨hx, hnone⟩ | hp'
  · cases hx
    omega
  · exact h.toCome j (by omega) ⟨p, hp'⟩
  · subst hx
    exact .inr (by simp)
  · rcases h.closed x ⟨p, hp'⟩ with hx | hx
    · exact .inl hx
    · exact .inr (by simp [hx])
  · cases hx
  · exact h.noNull ⟨p, hp'⟩
  · exact hnone
  · exact h.noParent x p hp'

theorem Between.close {past : List HandleCall} {i : ℕ} (h : Between past i) :
    Lifetime.Settled (.died .archive :: past) := by
  refine ⟨⟨⟨h.archive, fun y hy => ?_⟩, h.disciplined⟩, fun x ⟨p, hp⟩ => ?_⟩
  · cases h.noParent _ _ hy
  · rcases h.closed x ⟨p, Lifetime.born_of_cons_died hp⟩ with rfl | hx
    · exact List.mem_cons_self ..
    · exact List.mem_cons_of_mem _ hx

end Logs

/-! ## Runs in which everything succeeds -/

section Runs
variable {κ : Type} [DecidableEq κ] {sys : System κ} {src dst : Path}

/-- After a file that was copied the loop goes on. -/
theorem archiveLoopCalls_cons (dst : Path) (ps : List Path) (i : ℕ) {d : Disk κ} {zFp zFp' : Handle}
    {p : Path}
    (h : compressFile sys d zFp (getRelativePath src p) p = .ok (zipOk, zFp')) :
    (archiveLoopCalls sys src dst i (p :: ps) d zFp).log =
        (compressFileCalls sys i d zFp (getRelativePath src p) p).log ++
          (archiveLoopCalls sys src dst (i + 1) ps d zFp').log ∧
      (archiveLoopCalls sys src dst i (p :: ps) d zFp).result =
        (archiveLoopCalls sys src dst (i + 1) ps d zFp').result := by
  have hfile : (compressFileCalls sys i d zFp (getRelativePath src p) p).result = .ok (zipOk, zFp') :=
    (compressFileCalls_result ..).trans h
  have hok : ¬ zipOk ≠ zipOk := not_not.mpr rfl
  constructor
  · rw [archiveLoopCalls, Logged.bind_log_of_ok hfile]
    dsimp only
    rw [if_neg hok]
  · rw [archiveLoopCalls, Logged.bind_result, hfile, ok_bind]
    dsimp only
    rw [if_neg hok]

theorem archiveLoopCalls_between (dst : Path) {ps : List Path} {d : Disk κ} {i : ℕ} {past : List HandleCall}
    (es : List Entry) (h : ∀ p ∈ ps, CopiesAt sys src d p) (hpast : Between past i) :
    Between ((archiveLoopCalls sys src dst i ps d (.live ⟨es, none⟩)).log.reverse ++ past)
      (i + ps.length) := by
  induction ps generalizing es i past with
  | nil => exact hpast
  | cons p ps ih =>
    obtain ⟨contents, hopen, hcopy⟩ := h p (List.mem_cons_self ..)
    have hfile : compressFile sys d (.live ⟨es, none⟩) (getRelativePath src p) p = _ :=
      compressFile_ok hopen hcopy
    obtain ⟨uses, huses, hlog⟩ := compressFileCalls_log (i := i) hfile
    have huses' : ∀ e ∈ uses.reverse, e = .used (.stream i) ∨ e = .used .archive := fun e he =>
      huses e (List.mem_reverse.mp he)
    have hrest := ih (es ++ packed sys (getRelativePath src p) contents)
      (fun q hq => h q (List.mem_cons_of_mem p hq)) (hpast.file huses')
    rw [(archiveLoopCalls_cons dst ps i hfile).1, hlog, List.length_cons, Nat.add_comm ps.length 1,
      ← Nat.add_assoc]
    simpa using hrest

theorem zipClose_ok (sys : System κ) (d : Disk κ) (dst : Path) {zFp : Handle} (h : zFp ≠ .freed) :
    ∃ r, zipClose sys d dst zFp = .ok r := by
  cases zFp with
  | null => exact ⟨_, rfl⟩
  | live z =>
    unfold zipClose
    dsimp only
    split
    · exact ⟨_, rfl⟩
    · exact ⟨_, rfl⟩
  | freed => exact absurd rfl h

omit [DecidableEq κ] in
theorem call_ok {zFp : Handle} (h : zFp ≠ .freed) (f : ZipFile → ℤ × ZipFile) : ∃ r, zFp.call f = .ok r := by
  cases zFp with
  | null => exact ⟨_, rfl⟩
  | live z => exact ⟨_, rfl⟩
  | freed => exact absurd rfl h

omit [DecidableEq κ] in
theorem compressFileCalls_null {i : ℕ} {d : Disk κ} {zFp : Handle} {name path : Path} (h : zFp ≠ .freed)
    (hopen : sys.openRead d path = none) :
    Lifetime.Event.used .null ∈ (compressFileCalls sys i d zFp name path).log := by
  obtain ⟨r, hr⟩ := call_ok h fun z => z.openNewFileInZip64 sys name
  unfold compressFileCalls
  refine Logged.mem_bind_log.mpr (.inr ⟨r, hr, ?_⟩)
  dsimp only
  rw [hopen]
  exact List.mem_singleton.mpr rfl

theorem archiveLoopCalls_error {ps : List Path} {d : Disk κ} {i : ℕ} {zFp zFp' : Handle} {p : Path}
    (h : compressFile sys d zFp (getRelativePath src p) p = .ok (zipStateIoError, zFp'))
    (hz : zFp' ≠ .freed) :
    Lifetime.Event.died .archive ∈ (archiveLoopCalls sys src dst i (p :: ps) d zFp).log ∧
      ∃ r, (archiveLoopCalls sys src dst i (p :: ps) d zFp).result = .ok r := by
  have hne : zipStateIoError ≠ zipOk := by decide
  obtain ⟨r, hclose⟩ := zipClose_ok sys d dst hz
  have hfile : (compressFileCalls sys i d zFp (getRelativePath src p) p).result =
      .ok (zipStateIoError, zFp') := (compressFileCalls_result ..).trans h
  unfold archiveLoopCalls
  constructor
  · refine Logged.mem_bind_log.mpr (.inr ⟨_, hfile, ?_⟩)
    dsimp only
    rw [if_pos hne]
    exact Logged.mem_bind_log.mpr (.inl (List.mem_singleton.mpr rfl))
  · rw [Logged.bind_result, hfile, ok_bind]
    dsimp only
    rw [if_pos hne, Logged.bind_result, Logged.step_result, hclose]
    exact ⟨_, rfl⟩

/-- A file that cannot be copied: NULL is read, or the archive is closed in the loop. -/
theorem archiveLoopCalls_fails (dst : Path) (i : ℕ) {ps : List Path} {d : Disk κ} {zFp : Handle}
    (hz : (∃ es, zFp = .live ⟨es, none⟩ ∧ ¬ ∀ p ∈ ps, CopiesAt sys src d p) ∨ zFp = .null ∧ ps ≠ []) :
    Lifetime.Event.used .null ∈ (archiveLoopCalls sys src dst i ps d zFp).log ∨
      Lifetime.Event.died .archive ∈ (archiveLoopCalls sys src dst i ps d zFp).log ∧
        ∃ r, (archiveLoopCalls sys src dst i ps d zFp).result = .ok r := by
  induction ps generalizing zFp i with
  | nil =>
    rcases hz with ⟨es, -, h⟩ | ⟨-, h⟩
    · exact absurd (fun p hp => absurd hp List.not_mem_nil) h
    · exact absurd rfl h
  | cons p ps ih =>
    cases hopen : sys.openRead d p with
    | none =>
      left
      have hfreed : zFp ≠ .freed := by
        rcases hz with ⟨es, rfl, -⟩ | ⟨rfl, -⟩ <;> simp
      unfold archiveLoopCalls
      exact Logged.mem_bind_log.mpr (.inl (compressFileCalls_null hfreed hopen))
    | some contents =>
      rcases hz with ⟨es, rfl, hall⟩ | ⟨rfl, -⟩
      · by_cases hcopy : Copies sys (getRelativePath src p) p contents
        · have hrest : ¬ ∀ q ∈ ps, CopiesAt sys src d q := by
            intro h
            refine hall fun q hq => ?_
            rcases List.mem_cons.mp hq with rfl | hq
            · exact ⟨contents, hopen, hcopy⟩
            · exact h q hq
          obtain ⟨hlog, hresult⟩ := archiveLoopCalls_cons dst ps i (compressFile_ok hopen hcopy)
          rw [hlog, hresult]
          refine (ih (i + 1) (.inl ⟨_, rfl, hrest⟩)).imp (List.mem_append_right _) fun h => ?_
          exact ⟨List.mem_append_right _ h.1, h.2⟩
        · obtain ⟨es', hfile⟩ := compressFile_fails es hopen hcopy
          exact .inr (archiveLoopCalls_error hfile (by simp))
      · exact .inr (archiveLoopCalls_error (compressFile_null hopen) (by simp))

end Runs

/-! ## The whole -/

section Whole
variable {κ : Type} [DecidableEq κ] {sys : System κ} {src dst : Path} {mode : OpenMode} {ps : List Path}
  {d : Disk κ}

/-- Every handle is closed once and not used afterwards, NULL is neither read nor closed, and after an
error there is no file at the destination. -/
structure ClosesHandles (sys : System κ) (src dst : Path) (mode : OpenMode) (ps : List Path)
    (d : Disk κ) : Prop where
  settled : Lifetime.Settled (packFilesCalls sys src dst mode ps d).log.reverse
  noNull : ∀ call ∈ (packFilesCalls sys src dst mode ps d).log, call ≠ .used .null ∧ call ≠ .died .null
  noPartial : ∀ iRet d', (packFilesCalls sys src dst mode ps d).result = .ok (iRet, d') →
    iRet ≠ zipOk → ∀ bytes, d' (sys.locate dst) ≠ some (.file bytes)

theorem zipOpen64_cases (sys : System κ) (d : Disk κ) (dst : Path) (mode : OpenMode) :
    (∃ es, (zipOpen64 sys d dst mode).2 = .live ⟨es, none⟩) ∨ (zipOpen64 sys d dst mode).2 = .null := by
  cases mode with
  | create =>
    unfold zipOpen64
    dsimp only
    split
    · exact .inl ⟨[], rfl⟩
    · exact .inr rfl
  | addInZip =>
    unfold zipOpen64
    dsimp only
    split
    · split
      · exact .inl ⟨_, rfl⟩
      · exact .inr rfl
    · exact .inr rfl

theorem packFilesCalls_log {r : ℤ × Disk κ × Handle}
    (h : (archiveLoopCalls sys src dst 0 ps (zipOpen64 sys d dst mode).1
      (zipOpen64 sys d dst mode).2).result = .ok r) :
    (packFilesCalls sys src dst mode ps d).log = .born .archive none ::
      ((archiveLoopCalls sys src dst 0 ps (zipOpen64 sys d dst mode).1
        (zipOpen64 sys d dst mode).2).log ++ [.died .archive]) := by
  unfold packFilesCalls
  rw [Logged.bind_log_of_ok (a := zipOpen64 sys d dst mode) rfl]
  dsimp only
  rw [Logged.bind_log_of_ok h, Logged.step_bind_pure_log, Logged.step_log, List.singleton_append]

theorem mem_packFilesCalls_log {call : HandleCall}
    (h : call ∈ (archiveLoopCalls sys src dst 0 ps (zipOpen64 sys d dst mode).1
      (zipOpen64 sys d dst mode).2).log) : call ∈ (packFilesCalls sys src dst mode ps d).log := by
  unfold packFilesCalls
  exact Logged.mem_bind_log.mpr (.inr ⟨zipOpen64 sys d dst mode, rfl, Logged.mem_bind_log.mpr (.inl h)⟩)

/-- Where the loop gets through. -/
theorem closesHandles_of_between {n : ℕ} {d' : Disk κ} {zFp : Handle}
    (hloop : (archiveLoopCalls sys src dst 0 ps (zipOpen64 sys d dst mode).1
      (zipOpen64 sys d dst mode).2).result = .ok (zipOk, d', zFp))
    (hbetween : Between ((archiveLoopCalls sys src dst 0 ps (zipOpen64 sys d dst mode).1
      (zipOpen64 sys d dst mode).2).log.reverse ++ [.born .archive none]) n) :
    ClosesHandles sys src dst mode ps d := by
  have hlog := packFilesCalls_log hloop
  have hreverse : (packFilesCalls sys src dst mode ps d).log.reverse = .died .archive ::
      ((archiveLoopCalls sys src dst 0 ps (zipOpen64 sys d dst mode).1
        (zipOpen64 sys d dst mode).2).log.reverse ++ [.born .archive none]) := by
    rw [hlog]
    simp
  have hsettled := hbetween.close
  rw [← hreverse] at hsettled
  refine ⟨hsettled, fun call hcall => ?_, fun iRet d'' hrun hne => ?_⟩
  · have hnot : ¬ Lifetime.Born (packFilesCalls sys src dst mode ps d).log.reverse .null := by
      rw [hreverse]
      rintro ⟨p, hp⟩
      exact hbetween.noNull ⟨p, Lifetime.born_of_cons_died hp⟩
    rw [← List.mem_reverse] at hcall
    constructor
    · rintro rfl
      exact hnot (hsettled.disciplined.born_of_used hcall)
    · rintro rfl
      exact hnot (hsettled.disciplined.born_of_died hcall)
  · rw [packFilesCalls_result, packFiles] at hrun
    rw [archiveLoopCalls_result] at hloop
    dsimp only at hrun
    rw [hloop, ok_bind] at hrun
    obtain ⟨r, -, hrun⟩ := bind_eq_ok.mp hrun
    cases hrun
    exact absurd rfl hne

/-- **When `Compress` closes every handle once**: unless a file cannot be copied or the archive not be
opened. -/
theorem closesHandles_iff : ClosesHandles sys src dst mode ps d ↔
    ps = [] ∨ (zipOpen64 sys d dst mode).2 ≠ .null ∧
      ∀ p ∈ ps, CopiesAt sys src (zipOpen64 sys d dst mode).1 p := by
  constructor
  · intro h
    by_contra hnot
    rw [not_or, not_and_or, not_not] at hnot
    obtain ⟨hne, hbad⟩ := hnot
    have hz : (∃ es, (zipOpen64 sys d dst mode).2 = .live ⟨es, none⟩ ∧
        ¬ ∀ p ∈ ps, CopiesAt sys src (zipOpen64 sys d dst mode).1 p) ∨
        (zipOpen64 sys d dst mode).2 = .null ∧ ps ≠ [] := by
      rcases zipOpen64_cases sys d dst mode with ⟨es, hes⟩ | hnull
      · rcases hbad with hnull | hbad
        · rw [hnull] at hes
          cases hes
        · exact .inl ⟨es, hes, hbad⟩
      · exact .inr ⟨hnull, hne⟩
    rcases archiveLoopCalls_fails dst 0 hz with hnull | ⟨hdied, r, hr⟩
    · exact (h.noNull _ (mem_packFilesCalls_log hnull)).1 rfl
    · -- closed in the loop, and closed again behind it
      have hd := h.settled.disciplined
      rw [packFilesCalls_log hr, List.reverse_cons, List.reverse_append] at hd
      exact hd.1.1.2 (List.mem_append_left _ (List.mem_reverse.mpr hdied))
  · rintro (rfl | ⟨hopen, hall⟩)
    · exact closesHandles_of_between rfl Between.start
    · rcases zipOpen64_cases sys d dst mode with ⟨es, hes⟩ | hnull
      · have hresult := (archiveLoopCalls_result src dst 0 ps (zipOpen64 sys d dst mode).1
          (.live ⟨es, none⟩)).trans (archiveLoop_ok es hall)
        have hbetween := archiveLoopCalls_between dst es hall Between.start
        rw [← hes] at hresult hbetween
        exact closesHandles_of_between hresult hbetween
      · exact absurd hnull hopen

end Whole

/-- A read error closes the archive twice, and a file that cannot be opened is read all the same. -/
theorem handles_closed_twice :
    (packFilesCalls { mostly (fun _ => true) (fun _ => true) true with fread := fun _ _ => false }
        smallPath smallZip .create [smallPath.child ['f']] smallDisk).log =
      [.born .archive none, .used .archive, .born (.stream 0) none, .used (.stream 0), .used .archive,
        .died (.stream 0), .used .archive, .died .archive, .died .archive] ∧
    ¬ ClosesHandles { mostly (fun _ => true) (fun _ => true) true with fread := fun _ _ => false }
        smallPath smallZip .create [smallPath.child ['f']] smallDisk ∧
    ¬ ClosesHandles { mostly (fun _ => true) (fun _ => true) true with fopen := fun _ => false }
        smallPath smallZip .create [smallPath.child ['f']] smallDisk := by
  have hread : (packFilesCalls { mostly (fun _ => true) (fun _ => true) true with
        fread := fun _ _ => false } smallPath smallZip .create [smallPath.child ['f']] smallDisk).log =
      [.born .archive none, .used .archive, .born (.stream 0) none, .used (.stream 0), .used .archive,
        .died (.stream 0), .used .archive, .died .archive, .died .archive] := by rfl
  have hopen : Lifetime.Event.used .null ∈ (packFilesCalls { mostly (fun _ => true) (fun _ => true) true
      with fopen := fun _ => false } smallPath smallZip .create [smallPath.child ['f']] smallDisk).log := by
    decide
  refine ⟨hread, fun h => ?_, fun h => (h.noNull _ hopen).1 rfl⟩
  have hd := h.settled.disciplined
  rw [hread] at hd
  exact hd.1.1.2 (List.mem_cons_self ..)

end AppUtil.Zip
