import AppUtil.SevenZip.Failing

/-! # Damaged items

`SetOperationResult` counts them in `NumErrors`, which nothing reads. -/
namespace AppUtil.SevenZip
open AppUtil.Lib
open AppUtil.Zip (Path)
set_option autoImplicit false

/-- `NOperationResult::kCRCError`. -/
def kCrcError : ℤ := 3

/-- The item with the data it should have. -/
def Item.undamaged {σ : Type} (item : Item σ) : Item σ := { item with operationResult := kOk }

/-- A callback fails before all items have been treated. -/
inductive Interrupted {σ : Type} (api : StreamApi σ) (archive : InArchive) :
    List (Item σ) → Session σ → Prop where
  | here {item : Item σ} {rest : List (Item σ)} {x : Session σ} (h : ItemFails api archive item x) :
      Interrupted api archive (item :: rest) x
  | later {item : Item σ} {rest : List (Item σ)} {x x' : Session σ}
      (h : (x.treatItem api archive item).result = .ok x') (hrest : Interrupted api archive rest x') :
      Interrupted api archive (item :: rest) x

/-! ## Nothing reads `NumErrors` -/

section Agree
variable {σ : Type}

/-- The two have failed in the same way, or differ in `NumErrors` only. -/
def Agree : Except Stop (Session σ) → Except Stop (Session σ) → Prop
  | .ok x, .ok y => ∃ numErrors, y = { x with numErrors := numErrors }
  | .error stop, .error stop' => stop = stop'
  | _, _ => False

theorem agree_bind {r r' : Except Stop (Session σ)} {f g : Session σ → Except Stop (Session σ)}
    (h : Agree r r') (hf : ∀ x numErrors, Agree (f x) (g { x with numErrors := numErrors })) :
    Agree (r >>= f) (r' >>= g) := by
  cases r with
  | error stop =>
    cases r' with
    | error stop' => exact h
    | ok y => cases h
  | ok x =>
    cases r' with
    | error stop' => cases h
    | ok y =>
      obtain ⟨numErrors, rfl⟩ := h
      exact hf x numErrors

theorem agree_ok (x : Session σ) (numErrors : ℕ) :
    Agree (.ok x) (.ok { x with numErrors := numErrors }) := ⟨numErrors, rfl⟩

theorem Agree.failed_iff {r r' : Except Stop (Session σ)} (h : Agree r r') : Errs r ↔ Errs r' := by
  cases r with
  | error stop =>
    cases r' with
    | error stop' => exact ⟨fun _ => ⟨stop', rfl⟩, fun _ => ⟨stop, rfl⟩⟩
    | ok y => cases h
  | ok x =>
    cases r' with
    | error stop' => cases h
    | ok y =>
      constructor
      · rintro ⟨stop, hstop⟩
        cases hstop
      · rintro ⟨stop, hstop⟩
        cases hstop

variable {api : StreamApi σ} {archive : InArchive} (x : Session σ) (numErrors : ℕ)

theorem getStream_agree (index : UInt32) (askExtractMode : ℤ) :
    Agree (x.getStream api archive index askExtractMode).result
      (Session.getStream api archive index askExtractMode { x with numErrors := numErrors }).result := by
  unfold Session.getStream
  dsimp only
  cases (x.callback.getStream api.toFileApi archive index askExtractMode x.files).result with
  | error stop => exact rfl
  | ok r => exact agree_ok _ _

theorem setCompleted_agree (completeValue : UInt64) :
    Agree (x.setCompleted api completeValue)
      (Session.setCompleted api { x with numErrors := numErrors } completeValue) := by
  unfold Session.setCompleted
  cases api.progress with
  | none => exact agree_ok _ _
  | some pfnCB =>
    dsimp only
    split
    · exact rfl
    · exact agree_ok _ _

theorem completed_agree (completed : List UInt64) :
    Agree (completed.foldlM (Session.setCompleted api) x)
      (completed.foldlM (Session.setCompleted api) { x with numErrors := numErrors }) := by
  induction completed generalizing x numErrors with
  | nil => exact agree_ok _ _
  | cons v completed ih =>
    rw [List.foldlM_cons, List.foldlM_cons]
    exact agree_bind (setCompleted_agree x numErrors v) fun x' numErrors' => ih x' numErrors'

theorem close_agree (stream : ℕ) :
    Agree (Logged.step (Act.close stream (api.close x.files stream).1)
        (if (api.close x.files stream).1 ≠ sOk then .error (.result (api.close x.files stream).1)
        else .ok { x with files := (api.close x.files stream).2 })).result
      (Logged.step (Act.close stream (api.close x.files stream).1)
        (if (api.close x.files stream).1 ≠ sOk then .error (.result (api.close x.files stream).1)
        else .ok { x with
          numErrors := numErrors
          files := (api.close x.files stream).2 })).result := by
  rw [Logged.step_result, Logged.step_result]
  split
  · exact rfl
  · exact agree_ok _ _

theorem closeStream_agree :
    Agree (x.closeStream api).result
      (Session.closeStream api { x with numErrors := numErrors }).result := by
  unfold Session.closeStream
  dsimp only
  split
  · split
    · rw [Logged.bind_result, Logged.bind_result]
      exact agree_bind (agree_ok _ _) fun x' numErrors' => close_agree x' numErrors' _
    · exact close_agree x numErrors _
  · exact agree_ok _ _

theorem setOperationResult_agree (operationResult : ℤ) :
    Agree (x.setOperationResult api operationResult).result
      (Session.setOperationResult api kOk { x with numErrors := numErrors }).result := by
  unfold Session.setOperationResult
  dsimp only
  -- the branches of the first line differ in the count
  obtain ⟨x₀, hx₀, hcount⟩ : ∃ x₀, (if operationResult = kOk then x
      else { x with numErrors := x.numErrors + 1 }) = x₀ ∧ { x with numErrors := numErrors } =
        { x₀ with numErrors := numErrors } := by
    split
    · exact ⟨x, rfl, rfl⟩
    · exact ⟨_, rfl, rfl⟩
  rw [hx₀, if_pos rfl, hcount, Logged.bind_result, Logged.bind_result]
  refine agree_bind (closeStream_agree x₀ numErrors) fun x' numErrors' => ?_
  dsimp only
  split
  · exact agree_ok _ _
  · exact agree_ok _ _

variable (api archive) in
theorem treatItem_agree (item : Item σ) :
    Agree (x.treatItem api archive item).result
      (Session.treatItem api archive item.undamaged { x with numErrors := numErrors }).result := by
  unfold Session.treatItem
  rw [Logged.bind_result, Logged.bind_result]
  refine agree_bind (getStream_agree x numErrors item.index item.askExtractMode) fun x₁ n₁ => ?_
  dsimp only
  rw [Logged.bind_result, Logged.bind_result, Logged.lift_result, Logged.lift_result]
  refine agree_bind (completed_agree _ n₁ item.completed) fun x₂ n₂ => ?_
  exact setOperationResult_agree x₂ n₂ item.operationResult

variable (api archive) in
/-- A run fails with damaged items where it fails with undamaged ones. -/
theorem drive_agree (items : List (Item σ)) (i : ℕ) :
    Agree (x.drive api archive i items).result
      (Session.drive api archive i (items.map Item.undamaged) { x with numErrors := numErrors }).result := by
  induction items generalizing i x numErrors with
  | nil => exact agree_ok _ _
  | cons item items ih =>
    rw [List.map_cons, Session.drive, Session.drive, Logged.bind_result, Logged.bind_result]
    exact agree_bind (treatItem_agree api archive x numErrors item) fun x' numErrors' => ih x' numErrors' _

end Agree

/-! ## When `UnCompress` tells of damage -/

section Reports
variable {σ : Type} {api : StreamApi σ} {archive : InArchive} {items : List (Item σ)} {x : Session σ}

theorem drive_error_iff {i : ℕ} : Errs (x.drive api archive i items).result ↔ Interrupted api archive items x := by
  induction items generalizing i x with
  | nil =>
    constructor
    · rintro ⟨stop, h⟩
      cases h
    · intro h
      cases h
  | cons item items ih =>
    have hbind : (x.drive api archive i (item :: items)).result =
        (x.treatItem api archive item).result >>= fun x' => (x'.drive api archive (i + 1) items).result := by
      rw [Session.drive, Logged.bind_result, Logged.mapLog_result]
    rw [hbind, errs_bind_iff, errs_treatItem_iff]
    constructor
    · rintro (h | ⟨x', hitem, h⟩)
      · exact .here h
      · exact .later hitem (ih.mp h)
    · intro h
      cases h with
      | here h => exact .inl h
      | later hitem hrest => exact .inr ⟨_, hitem, ih.mpr hrest⟩

theorem interrupted_undamaged_iff {numErrors : ℕ} :
    Interrupted api archive (items.map Item.undamaged) { x with numErrors := numErrors } ↔
      Interrupted api archive items x := by
  rw [← drive_error_iff (i := 0), ← drive_error_iff (i := 0)]
  exact (drive_agree api archive x numErrors items 0).failed_iff.symm

/-- 7z.dll is loaded and gives an object, and the archive can be opened. -/
def Library.Ready (lib : Library σ) (strPak : Path) (files : σ) : Prop :=
  lib.load = true ∧ lib.getProc = true ∧ lib.createObject = true ∧ lib.openFile files strPak = true

section
variable {lib : Library σ} {strPak strName : Path} {files : σ}

/-- The code is no error. -/
def Accepted (r : Except Stop ℤ) : Prop := r = .ok errorOk ∨ r = .ok errorExparamWarn

instance instDecidableAccepted (r : Except Stop ℤ) : Decidable (Accepted r) :=
  inferInstanceAs (Decidable (_ ∨ _))

theorem unCompress_of_not_ready (h : ¬ lib.Ready strPak (outputFolder api strName files)) :
    ¬ Accepted (unCompress api lib strPak strName files) := by
  unfold unCompress
  split
  · decide
  next hload =>
    split
    · decide
    next hproc =>
      dsimp only
      split
      · decide
      next hobject =>
        split
        · decide
        next hfile =>
          refine absurd ⟨?_, ?_, ?_, ?_⟩ h
          · exact eq_true_of_ne_false hload
          · exact eq_true_of_ne_false hproc
          · exact eq_true_of_ne_false hobject
          · exact eq_true_of_ne_false hfile

theorem unCompress_of_ready {total : UInt64} (h : lib.Ready strPak (outputFolder api strName files))
    (hopen : lib.openArchive (outputFolder api strName files) strPak = some (archive, total, items)) :
    Accepted (unCompress api lib strPak strName files) ↔ ¬ Interrupted api archive items
      ((Session.start strName (outputFolder api strName files)).setTotal total) := by
  obtain ⟨hload, hproc, hobject, hfile⟩ := h
  unfold unCompress
  rw [hload, hproc, hobject, if_neg Bool.noConfusion, if_neg Bool.noConfusion]
  dsimp only
  rw [if_neg Bool.noConfusion, hfile, if_neg Bool.noConfusion, hopen]
  dsimp only
  rw [← drive_error_iff (i := 0)]
  split
  next code hrun =>
    rw [hrun]
    exact ⟨fun hacc => absurd hacc (by simp [Accepted]), fun hnot => absurd ⟨_, rfl⟩ hnot⟩
  next hr hrun =>
    rw [hrun]
    exact ⟨fun hacc => absurd hacc (by decide), fun hnot => absurd ⟨_, rfl⟩ hnot⟩
  next x' hrun =>
    rw [hrun]
    refine ⟨fun _ => ?_, fun _ => ?_⟩
    · rintro ⟨stop, hstop⟩
      cases hstop
    · split
      · exact .inr rfl
      · exact .inl rfl

end

/-- `UnCompress` returns `ERROR_OK` or `ERROR_EXPARAM_WARN` only if every item's result was `kOK`. -/
def ReportsDamage (api : StreamApi σ) (lib : Library σ) (strPak strName : Path) (files : σ) : Prop :=
  Accepted (unCompress api lib strPak strName files) →
    ∀ archive total items, lib.openArchive (outputFolder api strName files) strPak =
      some (archive, total, items) → ∀ item ∈ items, item.operationResult = kOk

/-- **`UnCompress` tells of damage** exactly when there is none or it fails for another reason: the
library or the archive cannot be had, or a callback fails that would fail without the damage too. -/
theorem reportsDamage_iff (api : StreamApi σ) (lib : Library σ) (strPak strName : Path) (files : σ) :
    ReportsDamage api lib strPak strName files ↔
      ∀ archive total items, lib.openArchive (outputFolder api strName files) strPak =
          some (archive, total, items) →
        (∀ item ∈ items, item.operationResult = kOk) ∨
          ¬ lib.Ready strPak (outputFolder api strName files) ∨
          Interrupted api archive (items.map Item.undamaged)
            ((Session.start strName (outputFolder api strName files)).setTotal total) := by
  constructor
  · intro h archive total items hopen
    by_cases hready : lib.Ready strPak (outputFolder api strName files)
    · by_cases hrun : Interrupted api archive items
        ((Session.start strName (outputFolder api strName files)).setTotal total)
      · exact .inr (.inr (interrupted_undamaged_iff.mpr hrun))
      · exact .inl (h ((unCompress_of_ready hready hopen).mpr hrun) archive total items hopen)
    · exact .inr (.inl hready)
  · intro h hacc archive total items hopen
    rcases h archive total items hopen with hok | hready | hrun
    · exact hok
    · exact absurd hacc (unCompress_of_not_ready hready)
    · by_cases hready : lib.Ready strPak (outputFolder api strName files)
      · exact absurd (interrupted_undamaged_iff.mp hrun) ((unCompress_of_ready hready hopen).mp hacc)
      · exact absurd hacc (unCompress_of_not_ready hready)

/-- A file system on which everything succeeds. -/
def obligingApi : StreamApi Unit where
  myCreateDirectory _ _ := (.created, ())
  find _ _ := some true
  deleteFileAlways _ _ := (true, ())
  openAlways _ _ := some ()
  setMTime _ _ _ := ()
  close _ _ := (sOk, ())
  mySetFileAttributes _ _ _ := ()
  progress := none

/-- An archive with one file whose data do not fit its checksum. -/
def damagedArchive : Library Unit where
  load := true
  getProc := true
  createObject := true
  openFile _ _ := true
  openArchive _ _ := some (⟨fun _ propID => (sOk, if propID = .path then .bstr ['f'] else .empty)⟩, 0,
    [⟨0, kExtract, id, [], kCrcError⟩])

/-- The file is extracted with the wrong data, and `UnCompress` returns `ERROR_EXPARAM_WARN`. -/
theorem damaged_accepted :
    unCompress obligingApi damagedArchive ['a'] ['d'] () = .ok errorExparamWarn ∧
      ¬ ReportsDamage obligingApi damagedArchive ['a'] ['d'] () := by
  have hacc : unCompress obligingApi damagedArchive ['a'] ['d'] () = .ok errorExparamWarn := by rfl
  refine ⟨hacc, fun h => ?_⟩
  have hok := h (.inr hacc) _ 0 _ rfl ⟨0, kExtract, id, [], kCrcError⟩ (List.mem_singleton_self _)
  cases hok

end Reports

end AppUtil.SevenZip
