import AppUtil.SevenZip.Protocol

/-! # When a callback fails

Call by call: a property that cannot be had or has the wrong type, a file that can be neither deleted nor
opened, a progress callback that returns a negative number, and a stream that cannot be closed. -/
namespace AppUtil.SevenZip
open AppUtil.Lib
open AppUtil.Zip (Path)
set_option autoImplicit false

section Errors
variable {ε α β : Type}

/-- The program ends with an error. -/
def Errs (r : Except ε α) : Prop := ∃ e, r = .error e

theorem errs_error (e : ε) : Errs (.error e : Except ε α) := ⟨e, rfl⟩

theorem not_errs_ok (a : α) : ¬ Errs (.ok a : Except ε α) := nofun

theorem errs_bind_iff {r : Except ε α} {f : α → Except ε β} :
    Errs (r >>= f) ↔ Errs r ∨ ∃ a, r = .ok a ∧ Errs (f a) := by
  cases r with
  | error e => exact ⟨fun _ => .inl (errs_error e), fun _ => errs_error e⟩
  | ok a =>
    constructor
    · intro h
      exact .inr ⟨a, rfl, h⟩
    · rintro (h | ⟨b, hb, h⟩)
      · exact absurd h (not_errs_ok a)
      · cases hb
        exact h

end Errors

/-! ## Properties -/

/-- Whether the callback takes a value of this type. -/
def PropVariant.taken : PropId → PropVariant → Bool
  | _, .empty => true
  | .path, .bstr _ => true
  | .attrib, .ui4 _ => true
  | .isDir, .bool _ => true
  | .mTime, .filetime _ => true
  | .size, .ui1 _ => true
  | .size, .ui2 _ => true
  | .size, .ui4 _ => true
  | .size, .ui8 _ => true
  | _, _ => false

/-- `GetProperty` fails, or its value has the wrong type. -/
def Unreadable (archive : InArchive) (index : UInt32) (propID : PropId) : Prop :=
  (archive.getProperty index propID).1 ≠ sOk ∨ (archive.getProperty index propID).2.taken propID = false

section Properties
variable {archive : InArchive} {index : UInt32} {propID : PropId}

theorem getProperty_cases (archive : InArchive) (index : UInt32) (propID : PropId) :
    (Unreadable archive index propID ∧ Errs (getProperty archive index propID)) ∨
      ∃ prop, getProperty archive index propID = .ok prop ∧
        (Unreadable archive index propID ↔ prop.taken propID = false) := by
  unfold getProperty Unreadable
  dsimp only
  by_cases hr : (archive.getProperty index propID).1 = sOk
  · rw [if_neg (not_not.mpr hr)]
    refine .inr ⟨_, rfl, fun h => ?_, .inr⟩
    rcases h with h | h
    · exact absurd hr h
    · exact h
  · rw [if_pos hr]
    exact .inl ⟨.inl hr, errs_error _⟩

theorem errs_readPath_iff : Errs (readPath archive index) ↔ Unreadable archive index .path := by
  unfold readPath
  rcases getProperty_cases archive index .path with ⟨hbad, hstop, h⟩ | ⟨prop, h, hbad⟩
  · rw [h]
    exact ⟨fun _ => hbad, fun _ => errs_error hstop⟩
  · rw [h, hbad]
    cases prop with
    | empty => exact ⟨fun h => absurd h (not_errs_ok _), nofun⟩
    | bstr bstrVal => exact ⟨fun h => absurd h (not_errs_ok _), nofun⟩
    | _ => exact ⟨fun _ => rfl, fun _ => errs_error _⟩

/-- A reader succeeds exactly if the property is not bad, whatever was read before. -/
def ReadsUnless (m : Reading Unit) (bad : Prop) : Prop :=
  ∀ info, (∃ info', m.run.run info = (.ok (), info')) ↔ ¬ bad

theorem ReadsUnless.bind {m k : Reading Unit} {bad bad' : Prop} (hm : ReadsUnless m bad) (hk : ReadsUnless k bad') :
    ReadsUnless (m >>= fun _ => k) (bad ∨ bad') := by
  intro info
  rw [not_or, ← hm info]
  constructor
  · rintro ⟨info', h⟩
    obtain ⟨_, info₁, hok, hok'⟩ := reading_bind_ok.mp h
    exact ⟨⟨info₁, hok⟩, (hk info₁).mp ⟨info', hok'⟩⟩
  · rintro ⟨⟨info₁, hok⟩, hgood⟩
    obtain ⟨info', hok'⟩ := (hk info₁).mpr hgood
    exact ⟨info', reading_bind_ok.mpr ⟨(), info₁, hok, hok'⟩⟩

theorem readsUnless_of_true {m : Reading Unit} {bad : Prop} (hbad : bad)
    (h : ∀ info info', m.run.run info ≠ (.ok (), info')) : ReadsUnless m bad :=
  fun info => ⟨fun ⟨info', hok⟩ => absurd hok (h info info'), fun hgood => absurd hbad hgood⟩

theorem readsUnless_of_false {m : Reading Unit} {bad : Prop} (hgood : ¬ bad)
    (h : ∀ info, ∃ info', m.run.run info = (.ok (), info')) : ReadsUnless m bad :=
  fun info => ⟨fun _ => hgood, fun _ => h info⟩

theorem readAttrib_readsUnless : ReadsUnless (readAttrib archive index) (Unreadable archive index .attrib) := by
  unfold readAttrib
  rcases getProperty_cases archive index .attrib with ⟨hbad, stop, h⟩ | ⟨prop, h, hbad⟩
  · rw [h]
    exact readsUnless_of_true hbad nofun
  · rw [h, hbad]
    cases prop with
    | empty => exact readsUnless_of_false nofun fun info => ⟨_, rfl⟩
    | ui4 ulVal => exact readsUnless_of_false nofun fun info => ⟨_, rfl⟩
    | _ => exact readsUnless_of_true rfl nofun

theorem readIsDir_readsUnless : ReadsUnless (readIsDir archive index) (Unreadable archive index .isDir) := by
  unfold readIsDir isArchiveItemFolder
  rcases getProperty_cases archive index .isDir with ⟨hbad, stop, h⟩ | ⟨prop, h, hbad⟩
  · rw [h]
    exact readsUnless_of_true hbad nofun
  · rw [h, hbad]
    cases prop with
    | empty => exact readsUnless_of_false nofun fun info => ⟨_, rfl⟩
    | bool boolVal => exact readsUnless_of_false nofun fun info => ⟨_, rfl⟩
    | _ => exact readsUnless_of_true rfl nofun

theorem readMTime_readsUnless : ReadsUnless (readMTime archive index) (Unreadable archive index .mTime) := by
  unfold readMTime
  rcases getProperty_cases archive index .mTime with ⟨hbad, stop, h⟩ | ⟨prop, h, hbad⟩
  · rw [h]
    exact readsUnless_of_true hbad nofun
  · rw [h, hbad]
    cases prop with
    | empty => exact readsUnless_of_false nofun fun info => ⟨_, rfl⟩
    | filetime filetime => exact readsUnless_of_false nofun fun info => ⟨_, rfl⟩
    | _ => exact readsUnless_of_true rfl nofun

theorem readSize_readsUnless :
    ReadsUnless (do let _ ← readSize archive index) (Unreadable archive index .size) := by
  unfold readSize
  rcases getProperty_cases archive index .size with ⟨hbad, stop, h⟩ | ⟨prop, h, hbad⟩
  · rw [h]
    exact readsUnless_of_true hbad nofun
  · rw [h, hbad]
    cases prop with
    | empty => exact readsUnless_of_false nofun fun info => ⟨_, rfl⟩
    | ui1 bVal => exact readsUnless_of_false nofun fun info => ⟨_, rfl⟩
    | ui2 uiVal => exact readsUnless_of_false nofun fun info => ⟨_, rfl⟩
    | ui4 ulVal => exact readsUnless_of_false nofun fun info => ⟨_, rfl⟩
    | ui8 uhVal => exact readsUnless_of_false nofun fun info => ⟨_, rfl⟩
    | _ => exact readsUnless_of_true rfl nofun

theorem readInfo_readsUnless : ReadsUnless (readInfo archive index) (Unreadable archive index .attrib ∨
    Unreadable archive index .isDir ∨ Unreadable archive index .mTime ∨ Unreadable archive index .size) :=
  readAttrib_readsUnless.bind (readIsDir_readsUnless.bind (readMTime_readsUnless.bind readSize_readsUnless))

theorem readIsDir_isDir {info info' : ProcessedFileInfo}
    (h : (readIsDir archive index).run.run info = (.ok (), info')) :
    info'.isDir = true ↔ (archive.getProperty index .isDir).2 = .bool true := by
  unfold readIsDir at h
  obtain ⟨isDir, info₁, hlift, h⟩ := reading_bind_ok.mp h
  obtain ⟨hdir, -⟩ := lift_ok.mp hlift
  rw [modify_ok h]
  unfold isArchiveItemFolder at hdir
  obtain ⟨prop, hprop, hval⟩ := bind_eq_ok.mp hdir
  rw [getProperty_ok hprop]
  cases prop with
  | empty =>
    cases hval
    exact ⟨nofun, nofun⟩
  | bool boolVal =>
    cases hval
    exact ⟨congrArg PropVariant.bool, PropVariant.bool.inj⟩
  | _ => cases hval

theorem readMTime_isDir {info info' : ProcessedFileInfo}
    (h : (readMTime archive index).run.run info = (.ok (), info')) : info'.isDir = info.isDir := by
  unfold readMTime at h
  obtain ⟨prop, info₁, hprop, h⟩ := reading_bind_ok.mp h
  obtain ⟨-, rfl⟩ := lift_ok.mp hprop
  obtain ⟨_, info₂, hclear, h⟩ := reading_bind_ok.mp h
  have hclear := modify_ok hclear
  cases prop with
  | empty =>
    have hinfo : info' = info₂ := (congrArg Prod.snd h).symm
    rw [hinfo, hclear]
  | filetime filetime => rw [modify_ok h, hclear]
  | _ => cases h

theorem readInfo_isDir {info info' : ProcessedFileInfo}
    (h : (readInfo archive index).run.run info = (.ok (), info')) :
    info'.isDir = true ↔ (archive.getProperty index .isDir).2 = .bool true := by
  unfold readInfo at h
  obtain ⟨_, info₁, -, h⟩ := reading_bind_ok.mp h
  obtain ⟨_, info₂, hdir, h⟩ := reading_bind_ok.mp h
  obtain ⟨_, info₃, hmtime, h⟩ := reading_bind_ok.mp h
  obtain ⟨size, info₄, hsize, h⟩ := reading_bind_ok.mp h
  obtain ⟨-, rfl⟩ := lift_ok.mp hsize
  have hinfo : info' = info₃ := (congrArg Prod.snd h).symm
  rw [hinfo, readMTime_isDir hmtime]
  exact readIsDir_isDir hdir

end Properties

/-! ## `GetStream` -/

section GetStream
variable {σ : Type} {archive : InArchive} {index : UInt32} {askExtractMode : ℤ} {cb : ExtractCallback} {s : σ}

/-- A file that stands at the path cannot be deleted, or the new one cannot be opened. -/
def OutputFails (api : FileApi σ) (path : Path) (s : σ) : Prop :=
  ((api.find s path).isSome = true ∧ (api.deleteFileAlways s path).1 = false) ∨
    api.openAlways (if (api.find s path).isSome then (api.deleteFileAlways s path).2 else s) path = none

/-- A property cannot be read, or the file of an item that is no folder cannot be made. -/
def GetStreamFails (api : FileApi σ) (archive : InArchive) (index : UInt32) (askExtractMode : ℤ)
    (cb : ExtractCallback) (s : σ) : Prop :=
  Unreadable archive index .path ∨ askExtractMode = kExtract ∧
    ((Unreadable archive index .attrib ∨ Unreadable archive index .isDir ∨ Unreadable archive index .mTime ∨
        Unreadable archive index .size) ∨
      ∃ fullPath, readPath archive index = .ok fullPath ∧ (archive.getProperty index .isDir).2 ≠ .bool true ∧
        OutputFails api (cb.directoryPath ++ fullPath)
          (ExtractCallback.createFolders api { cb with filePath := fullPath } s).2)

variable {api : FileApi σ}

theorem errs_openOutput_iff {path : Path} : Errs (cb.openOutput api path s).result ↔ OutputFails api path s := by
  unfold ExtractCallback.openOutput OutputFails
  cases hfind : (api.find s path).isSome with
  | false =>
    cases hopen : api.openAlways s path with
    | none => simp [hopen, Errs]
    | some s' => simp [hopen, Errs]
  | true =>
    cases hdelete : (api.deleteFileAlways s path).1 with
    | false => simp [hdelete, Errs]
    | true =>
      cases hopen : api.openAlways (api.deleteFileAlways s path).2 path with
      | none => simp [hdelete, hopen, Errs]
      | some s' => simp [hdelete, hopen, Errs]

theorem errs_createItem_iff : Errs (cb.createItem api s).result ↔
    cb.processedFileInfo.isDir = false ∧
      OutputFails api (cb.directoryPath ++ cb.filePath) (cb.createFolders api s).2 := by
  unfold ExtractCallback.createItem
  dsimp only
  cases hdir : cb.processedFileInfo.isDir with
  | true =>
    rw [if_pos rfl]
    exact ⟨fun h => absurd h (not_errs_ok _), fun h => absurd h.1 (by decide)⟩
  | false =>
    rw [if_neg (by decide)]
    exact errs_openOutput_iff.trans ⟨fun h => ⟨rfl, h⟩, And.right⟩

theorem errs_getStream_iff : Errs (cb.getStream api archive index askExtractMode s).result ↔
    GetStreamFails api archive index askExtractMode cb s := by
  unfold ExtractCallback.getStream GetStreamFails
  rw [← errs_readPath_iff]
  dsimp only
  cases hpath : readPath archive index with
  | error stop => exact ⟨fun _ => .inl (errs_error stop), fun _ => errs_error stop⟩
  | ok fullPath =>
    dsimp only
    by_cases hmode : askExtractMode = kExtract
    · rw [if_neg (not_not.mpr hmode)]
      rcases hinfo : (readInfo archive index).run.run cb.processedFileInfo with ⟨stop | ⟨⟩, info⟩
      · -- a property
        have hbad := not_not.mp (mt (readInfo_readsUnless cb.processedFileInfo).mpr (by
          rintro ⟨info', hok⟩
          rw [hinfo] at hok
          cases hok))
        exact ⟨fun _ => .inr ⟨hmode, .inl hbad⟩, fun _ => errs_error stop⟩
      · have hgood := (readInfo_readsUnless cb.processedFileInfo).mp ⟨info, hinfo⟩
        have hdir := readInfo_isDir hinfo
        have hitem : Errs (({ cb with
            outFileStream := none
            filePath := fullPath
            processedFileInfo := info } : ExtractCallback).createItem api s).result ↔ _ := errs_createItem_iff
        refine hitem.trans ?_
        constructor
        · rintro ⟨hfile, hfails⟩
          refine .inr ⟨hmode, .inr ⟨fullPath, rfl, fun htrue => ?_, hfails⟩⟩
          have htrue := hdir.mpr htrue
          rw [hfile] at htrue
          cases htrue
        · rintro (hno | ⟨-, hbad | ⟨fullPath', hsame, hfile, hfails⟩⟩)
          · exact absurd hno (not_errs_ok _)
          · exact absurd hbad hgood
          · cases hsame
            exact ⟨Bool.eq_false_iff.mpr fun htrue => hfile (hdir.mp htrue), hfails⟩
    · rw [if_pos hmode]
      constructor
      · intro h
        exact absurd h (not_errs_ok _)
      · rintro (h | ⟨h, -⟩)
        · exact absurd h (not_errs_ok _)
        · exact absurd h hmode

end GetStream

/-! ## The callbacks for an item -/

section Callbacks
variable {σ : Type} {x : Session σ}

/-- `m_pfnCB` returns a negative number. -/
def ProgressFails (api : StreamApi σ) : List UInt64 → Session σ → Prop
  | [], _ => False
  | completeValue :: rest, x => ∃ pfnCB, api.progress = some pfnCB ∧
      ((pfnCB x.files x.uiTotal completeValue).1 < 0 ∨
        ProgressFails api rest { x with files := (pfnCB x.files x.uiTotal completeValue).2 })

/-- There is a stream, and `Close` does not return `S_OK` for it. -/
def CloseFails (api : StreamApi σ) (x : Session σ) : Prop :=
  ∃ stream, x.callback.outFileStream.isSome = true ∧ x.callback.outFileStreamSpec = some stream ∧
    (api.close (if x.callback.processedFileInfo.mTimeDefined then
      api.setMTime x.files stream x.callback.processedFileInfo.mTime else x.files) stream).1 ≠ sOk

/-- After `PrepareOperation` and what is written to the stream. -/
def Session.prepared (item : Item σ) (x : Session σ) : Session σ :=
  { x.prepareOperation item.askExtractMode with files := item.writes x.files }

/-- One of the callbacks for the item fails. -/
inductive ItemFails (api : StreamApi σ) (archive : InArchive) (item : Item σ) (x : Session σ) : Prop where
  | getStream (h : GetStreamFails api.toFileApi archive item.index item.askExtractMode x.callback x.files)
  | setCompleted {x' : Session σ} (hget : (x.getStream api archive item.index item.askExtractMode).result = .ok x')
      (h : ProgressFails api item.completed (x'.prepared item))
  | setOperationResult {x' x'' : Session σ}
      (hget : (x.getStream api archive item.index item.askExtractMode).result = .ok x')
      (hcompleted : item.completed.foldlM (Session.setCompleted api) (x'.prepared item) = .ok x'')
      (h : CloseFails api x'')

variable {api : StreamApi σ} {archive : InArchive} {item : Item σ}

theorem errs_getStream_result_iff {index : UInt32} {askExtractMode : ℤ} :
    Errs (x.getStream api archive index askExtractMode).result ↔
      GetStreamFails api.toFileApi archive index askExtractMode x.callback x.files := by
  rw [← errs_getStream_iff]
  unfold Session.getStream
  dsimp only
  cases (x.callback.getStream api.toFileApi archive index askExtractMode x.files).result with
  | error stop => exact ⟨fun _ => errs_error stop, fun _ => errs_error stop⟩
  | ok r => exact ⟨fun h => absurd h (not_errs_ok _), fun h => absurd h (not_errs_ok _)⟩

theorem errs_completed_iff {completed : List UInt64} :
    Errs (completed.foldlM (Session.setCompleted api) x) ↔ ProgressFails api completed x := by
  induction completed generalizing x with
  | nil => exact ⟨fun h => absurd h (not_errs_ok _), False.elim⟩
  | cons v completed ih =>
    rw [List.foldlM_cons, errs_bind_iff, ProgressFails]
    cases hprogress : api.progress with
    | none =>
      have hcall : x.setCompleted api v = .ok x := by
        unfold Session.setCompleted
        rw [hprogress]
      rw [hcall]
      constructor
      · rintro (h | ⟨x', hok, h⟩)
        · exact absurd h (not_errs_ok _)
        · cases hok
          -- without a callback there is nothing to fail
          have hnone : ∀ vs, ¬ ProgressFails api vs x := by
            intro vs hfails
            cases vs with
            | nil => exact hfails
            | cons v vs =>
              obtain ⟨pfnCB, hsome, -⟩ := hfails
              rw [hprogress] at hsome
              cases hsome
          exact absurd (ih.mp h) (hnone completed)
      · rintro ⟨pfnCB, hsome, -⟩
        cases hsome
    | some pfnCB =>
      have hcall : x.setCompleted api v = if (pfnCB x.files x.uiTotal v).1 < 0 then .error (.result sFalse)
          else .ok { x with files := (pfnCB x.files x.uiTotal v).2 } := by
        unfold Session.setCompleted
        rw [hprogress]
      rw [hcall]
      by_cases hneg : (pfnCB x.files x.uiTotal v).1 < 0
      · rw [if_pos hneg]
        exact ⟨fun _ => ⟨pfnCB, rfl, .inl hneg⟩, fun _ => .inl (errs_error _)⟩
      · rw [if_neg hneg]
        constructor
        · rintro (h | ⟨x', hok, h⟩)
          · exact absurd h (not_errs_ok _)
          · cases hok
            exact ⟨pfnCB, rfl, .inr (ih.mp h)⟩
        · rintro ⟨pfnCB', hsome, h⟩
          cases hsome
          rcases h with h | h
          · exact absurd h hneg
          · exact .inr ⟨_, rfl, ih.mpr h⟩

theorem errs_closeStream_iff : Errs (x.closeStream api).result ↔ CloseFails api x := by
  unfold Session.closeStream CloseFails
  cases hout : x.callback.outFileStream with
  | none => exact ⟨fun h => absurd h (not_errs_ok _), fun ⟨_, h, _⟩ => absurd h (by decide)⟩
  | some out =>
    cases hspec : x.callback.outFileStreamSpec with
    | none => exact ⟨fun h => absurd h (not_errs_ok _), fun ⟨_, _, h, _⟩ => by cases h⟩
    | some stream =>
      have hclose : ∀ files : σ, Errs (if (api.close files stream).1 ≠ sOk then
          .error (.result (api.close files stream).1) else .ok { x with files := (api.close files stream).2 } :
            Except Stop (Session σ)) ↔ (api.close files stream).1 ≠ sOk := by
        intro files
        by_cases hr : (api.close files stream).1 = sOk
        · rw [if_neg (not_not.mpr hr)]
          exact ⟨fun h => absurd h (not_errs_ok _), fun h => absurd hr h⟩
        · rw [if_pos hr]
          exact ⟨fun _ => hr, fun _ => errs_error _⟩
      dsimp only
      have hstream : ∀ P : ℕ → Prop, (∃ stream', (some out).isSome = true ∧ some stream = some stream' ∧ P stream') ↔
          P stream := by
        intro P
        constructor
        · rintro ⟨stream', -, hsame, h⟩
          cases hsame
          exact h
        · intro h
          exact ⟨stream, rfl, rfl, h⟩
      rw [hstream]
      split
      · exact hclose _
      · exact hclose _

theorem errs_setOperationResult_iff {operationResult : ℤ} :
    Errs (x.setOperationResult api operationResult).result ↔ CloseFails api x := by
  unfold Session.setOperationResult
  rw [Logged.bind_result, errs_bind_iff]
  have hcount : CloseFails api (if operationResult = kOk then x else { x with numErrors := x.numErrors + 1 }) ↔
      CloseFails api x := by
    split
    · rfl
    · rfl
  rw [errs_closeStream_iff, hcount]
  constructor
  · rintro (h | ⟨x', -, h⟩)
    · exact h
    · dsimp only at h
      split at h
      · exact absurd h (not_errs_ok _)
      · exact absurd h (not_errs_ok _)
  · exact .inl

/-- The callbacks for an item fail exactly as said. -/
theorem errs_treatItem_iff : Errs (x.treatItem api archive item).result ↔ ItemFails api archive item x := by
  unfold Session.treatItem
  rw [Logged.bind_result, errs_bind_iff, errs_getStream_result_iff]
  have hrest : ∀ x' : Session σ, Errs (Logged.lift (ι := Act) (item.completed.foldlM (Session.setCompleted api)
        (x'.prepared item)) >>= fun x'' => Session.setOperationResult api item.operationResult x'').result ↔
      ProgressFails api item.completed (x'.prepared item) ∨
        ∃ x'', item.completed.foldlM (Session.setCompleted api) (x'.prepared item) = .ok x'' ∧ CloseFails api x'' := by
    intro x'
    rw [Logged.bind_result, errs_bind_iff, Logged.lift_result, errs_completed_iff]
    refine or_congr_right (exists_congr fun x'' => and_congr_right fun _ => errs_setOperationResult_iff)
  constructor
  · rintro (h | ⟨x', hget, h⟩)
    · exact .getStream h
    · rcases (hrest x').mp h with h | ⟨x'', hcompleted, h⟩
      · exact .setCompleted hget h
      · exact .setOperationResult hget hcompleted h
  · intro h
    cases h with
    | getStream h => exact .inl h
    | setCompleted hget h => exact .inr ⟨_, hget, (hrest _).mpr (.inl h)⟩
    | setOperationResult hget hcompleted h => exact .inr ⟨_, hget, (hrest _).mpr (.inr ⟨_, hcompleted, h⟩)⟩

end Callbacks

end AppUtil.SevenZip
