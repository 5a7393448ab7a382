import AppUtil.Lib.Run
import AppUtil.SevenZip.Callback

/-! # To which item the attributes and times go

What an earlier item has left in the callback is not used for a later one: whatever
`SetOperationResult` uses was set by the `GetStream` of the same item. -/
namespace AppUtil.SevenZip
open AppUtil.Lib AppUtil.Zip
set_option autoImplicit false

/-! ## What is read of an item -/

section Reading
variable {archive : InArchive} {index : UInt32} {info info' : ProcessedFileInfo}

theorem reading_bind_ok {α β : Type} {x : Reading α} {f : α → Reading β} {b : β} :
    (x >>= f).run.run info = (.ok b, info') ↔
      ∃ a info₁, x.run.run info = (.ok a, info₁) ∧ (f a).run.run info₁ = (.ok b, info') := by
  have hrun : (x >>= f).run.run info = match x.run.run info with
      | (.ok a, info₁) => (f a).run.run info₁
      | (.error stop, info₁) => (.error stop, info₁) := by
    show (StateT.run (ExceptT.run (x >>= f)) info : Id _) = _
    rw [ExceptT.run_bind, StateT.run_bind]
    rcases StateT.run (ExceptT.run x) info with ⟨_ | a, info₁⟩ <;> rfl
  rw [hrun]
  rcases x.run.run info with ⟨stop | a, info₁⟩
  · constructor
    · intro h
      cases h
    · rintro ⟨a, info₂, h, -⟩
      cases h
  · constructor
    · intro h
      exact ⟨a, info₁, rfl, h⟩
    · rintro ⟨a', info₂, h, hf⟩
      cases h
      exact hf

/-- The attributes in `info` are those of the item. -/
def AttribOf (archive : InArchive) (index : UInt32) (info : ProcessedFileInfo) : Prop :=
  info.attribDefined = true → archive.getProperty index .attrib = (sOk, .ui4 info.attrib)

/-- The modification time in `info` is that of the item. -/
def MTimeOf (archive : InArchive) (index : UInt32) (info : ProcessedFileInfo) : Prop :=
  info.mTimeDefined = true → archive.getProperty index .mTime = (sOk, .filetime info.mTime)

theorem getProperty_ok {propID : PropId} {prop : PropVariant}
    (h : getProperty archive index propID = .ok prop) :
    archive.getProperty index propID = (sOk, prop) := by
  unfold getProperty at h
  rcases hp : archive.getProperty index propID with ⟨hr, p⟩
  rw [hp] at h
  dsimp only at h
  split at h
  · cases h
  · next hne =>
    cases h
    rw [not_not.mp hne]

theorem lift_ok {α : Type} {x : Except Stop α} {a : α} :
    (liftM x : Reading α).run.run info = (.ok a, info') ↔ x = .ok a ∧ info = info' := by
  cases x with
  | error stop =>
    constructor
    · intro h
      cases h
    · rintro ⟨h, -⟩
      cases h
  | ok b =>
    constructor
    · intro h
      cases h
      exact ⟨rfl, rfl⟩
    · rintro ⟨h, rfl⟩
      cases h
      rfl

theorem modify_ok {f : ProcessedFileInfo → ProcessedFileInfo}
    (h : (modify f : Reading Unit).run.run info = (.ok (), info')) : info' = f info :=
  (congrArg Prod.snd h).symm

theorem readAttrib_ok (h : (readAttrib archive index).run.run info = (.ok (), info')) :
    AttribOf archive index info' := by
  unfold readAttrib at h
  obtain ⟨prop, info₁, hprop, h⟩ := reading_bind_ok.mp h
  obtain ⟨hget, -⟩ := lift_ok.mp hprop
  cases prop with
  | empty =>
    intro hdef
    rw [modify_ok h] at hdef
    cases hdef
  | ui4 ulVal =>
    intro _
    rw [modify_ok h]
    exact getProperty_ok hget
  | _ => cases h

theorem readIsDir_ok (h : (readIsDir archive index).run.run info = (.ok (), info')) :
    ∃ isDir, info' = { info with isDir := isDir } := by
  unfold readIsDir at h
  obtain ⟨isDir, info₁, hdir, h⟩ := reading_bind_ok.mp h
  obtain ⟨-, rfl⟩ := lift_ok.mp hdir
  exact ⟨isDir, modify_ok h⟩

theorem readMTime_ok (h : (readMTime archive index).run.run info = (.ok (), info')) :
    MTimeOf archive index info' ∧ info'.attribDefined = info.attribDefined ∧
      info'.attrib = info.attrib := by
  unfold readMTime at h
  obtain ⟨prop, info₁, hprop, h⟩ := reading_bind_ok.mp h
  obtain ⟨hget, rfl⟩ := lift_ok.mp hprop
  obtain ⟨_, info₂, hclear, h⟩ := reading_bind_ok.mp h
  have hclear := modify_ok hclear
  cases prop with
  | empty =>
    have hinfo : info' = info₂ := (congrArg Prod.snd h).symm
    rw [hinfo, hclear]
    refine ⟨fun hdef => ?_, rfl, rfl⟩
    cases hdef
  | filetime filetime =>
    rw [modify_ok h, hclear]
    exact ⟨fun _ => getProperty_ok hget, rfl, rfl⟩
  | _ => cases h

theorem readInfo_ok (h : (readInfo archive index).run.run info = (.ok (), info')) :
    AttribOf archive index info' ∧ MTimeOf archive index info' := by
  unfold readInfo at h
  obtain ⟨_, info₁, hattrib, h⟩ := reading_bind_ok.mp h
  obtain ⟨_, info₂, hdir, h⟩ := reading_bind_ok.mp h
  obtain ⟨_, info₃, hmtime, h⟩ := reading_bind_ok.mp h
  obtain ⟨size, info₄, hsize, h⟩ := reading_bind_ok.mp h
  obtain ⟨-, rfl⟩ := lift_ok.mp hsize
  have hinfo : info' = info₃ := (congrArg Prod.snd h).symm
  have ha : AttribOf archive index info₁ := readAttrib_ok hattrib
  obtain ⟨isDir, rfl⟩ := readIsDir_ok hdir
  obtain ⟨hm, hdef, hval⟩ := readMTime_ok hmtime
  rw [hinfo]
  refine ⟨fun hd => ?_, hm⟩
  rw [hdef] at hd
  rw [hval]
  exact ha hd

end Reading

/-! ## `GetStream` -/

section GetStream
variable {σ : Type} {api : FileApi σ} {archive : InArchive} {index : UInt32} {askExtractMode : ℤ}
  {cb : ExtractCallback} {s : σ}

/-- The members that `SetOperationResult` uses are those of the item. -/
structure Describes (archive : InArchive) (index : UInt32) (dir : Path) (cb : ExtractCallback) : Prop where
  path : ∃ name, readPath archive index = .ok name ∧ cb.diskFilePath = dir ++ name
  attrib : AttribOf archive index cb.processedFileInfo
  mTime : MTimeOf archive index cb.processedFileInfo

/-- What `GetStream` leaves when it succeeds: `stream` is what it hands out. -/
structure Delivered (archive : InArchive) (index : UInt32) (askExtractMode : ℤ)
    (cb cb' : ExtractCallback) (stream : Option ℕ) : Prop where
  dir : cb'.directoryPath = cb.directoryPath
  outFileStream : cb'.outFileStream = stream
  fresh : ∀ n, stream = some n → n = cb.streams ∧ cb'.outFileStreamSpec = some n
  streams : cb.streams + stream.toList.length = cb'.streams
  mode : askExtractMode ≠ kExtract → stream = none
  describes : askExtractMode = kExtract → Describes archive index cb.directoryPath cb'

theorem openOutput_ok {path : Path} {r : Option ℕ}
    (h : (cb.openOutput api path s).result = .ok r) :
    r = some cb.streams ∧ (cb.openOutput api path s).callback =
      { cb with outFileStreamSpec := some cb.streams, streams := cb.streams + 1,
                outFileStream := some cb.streams } := by
  unfold ExtractCallback.openOutput at h ⊢
  cases hfind : (api.find s path).isSome with
  | false =>
    cases hopen : api.openAlways s path with
    | none => simp [hfind, hopen] at h
    | some s₁ =>
      simp only [hfind, hopen, Bool.false_eq_true, Bool.true_eq_false, if_false] at h ⊢
      exact ⟨(Except.ok.inj h).symm, trivial⟩
  | true =>
    cases hdelete : api.deleteFileAlways s path with
    | mk fine s₁ =>
      cases fine with
      | false => simp [hfind, hdelete] at h
      | true =>
        cases hopen : api.openAlways s₁ path with
        | none => simp [hfind, hdelete, hopen] at h
        | some s₂ =>
          simp only [hfind, hdelete, hopen, Bool.true_eq_false, if_true, if_false] at h ⊢
          exact ⟨(Except.ok.inj h).symm, trivial⟩

theorem createItem_ok {r : Option ℕ} (hclosed : cb.outFileStream = none)
    (hinfo : AttribOf archive index cb.processedFileInfo ∧ MTimeOf archive index cb.processedFileInfo)
    (hname : readPath archive index = .ok cb.filePath)
    (h : (cb.createItem api s).result = .ok r) :
    Delivered archive index kExtract cb (cb.createItem api s).callback r := by
  unfold ExtractCallback.createItem at h ⊢
  dsimp only at h ⊢
  split at h
  next hdir =>
    rw [if_pos hdir]
    cases h
    refine ⟨rfl, hclosed, fun n hn => ?_, rfl, fun h => absurd rfl h, fun _ => ⟨⟨_, hname, rfl⟩, hinfo.1, hinfo.2⟩⟩
    cases hn
  next hdir =>
    rw [if_neg hdir]
    obtain ⟨rfl, hcb⟩ := openOutput_ok h
    dsimp only
    rw [hcb]
    refine ⟨rfl, rfl, fun n hn => ?_, rfl, fun h => absurd rfl h, fun _ => ⟨⟨_, hname, rfl⟩, hinfo.1, hinfo.2⟩⟩
    cases hn
    exact ⟨rfl, rfl⟩

/-- **What `GetStream` sets**, when it succeeds. -/
theorem getStream_ok {o : Outcome σ} (ho : cb.getStream api archive index askExtractMode s = o)
    {r : Option ℕ} (h : o.result = .ok r) :
    Delivered archive index askExtractMode cb o.callback r := by
  rw [← ho] at h ⊢
  unfold ExtractCallback.getStream at h ⊢
  dsimp only at h ⊢
  split at h
  · cases h
  next fullPath hname =>
    split at h
    next hmode =>
      rw [if_pos hmode]
      cases h
      refine ⟨rfl, rfl, fun n hn => ?_, rfl, fun _ => rfl, fun h => absurd h hmode⟩
      cases hn
    next hmode =>
      rw [if_neg hmode]
      obtain rfl := not_not.mp hmode
      split at h
      · cases h
      next info hinfo =>
        obtain ⟨hdir, hout, hfresh, hstreams, hm, hdesc⟩ := createItem_ok rfl (readInfo_ok hinfo) hname h
        exact ⟨hdir, hout, hfresh, hstreams, hm, hdesc⟩

end GetStream

/-! ## What may be done when -/

/-- The stream was opened for item `i` and has not been closed. -/
def IsOpen (past : List (ℕ × Act)) (i n : ℕ) : Prop :=
  (i, .opened n) ∈ past ∧ (i, .close n sOk) ∉ past

/-- Item `i` is that of the archive with this index, and it is asked for with `kExtract`. -/
def Requested {σ : Type} (items : List (Item σ)) (i : ℕ) (index : UInt32) : Prop :=
  ∃ item, items[i]? = some item ∧ item.index = index ∧ item.askExtractMode = kExtract

/-- After `past` an item may open a stream when all before are closed; it may set the time of its own
stream and close it, and set the attributes of its own path, to what the archive says of it. -/
def MayDo {σ : Type} (archive : InArchive) (directoryPath : Path) (items : List (Item σ))
    (past : List (ℕ × Act)) : ℕ × Act → Prop
  | (_, .effect _) => True
  | (_, .opened n) => ∀ j m, (j, .opened m) ∈ past → m ≠ n ∧ (j, .close m sOk) ∈ past
  | (i, .setMTime n mTime) => IsOpen past i n ∧
      ∃ index, Requested items i index ∧ archive.getProperty index .mTime = (sOk, .filetime mTime)
  | (i, .close n _) => IsOpen past i n
  | (i, .setFileAttributes path attrib) => ∃ index name, Requested items i index ∧
      readPath archive index = .ok name ∧ path = normalizeDirPathPrefix directoryPath ++ name ∧
      archive.getProperty index .attrib = (sOk, .ui4 attrib)

/-- At most one stream is open. -/
def OneOpen (past : List (ℕ × Act)) : Prop :=
  ∀ i j m n, IsOpen past i m → IsOpen past j n → i = j ∧ m = n

section MayDo
variable {σ : Type} {archive : InArchive} {directoryPath : Path} {items : List (Item σ)}
  {past : List (ℕ × Act)} {entry : ℕ × Act}

theorem isOpen_of_snoc {i n : ℕ} (h : IsOpen (past ++ [entry]) i n) :
    IsOpen past i n ∨ entry = (i, .opened n) := by
  have hclose : (i, Act.close n sOk) ∉ past := fun hmem => h.2 (List.mem_append_left _ hmem)
  rcases List.mem_append.mp h.1 with hmem | hmem
  · exact .inl ⟨hmem, hclose⟩
  · exact .inr (List.mem_singleton.mp hmem).symm

theorem oneOpen_snoc (hpast : OneOpen past) (h : MayDo archive directoryPath items past entry) :
    OneOpen (past ++ [entry]) := by
  intro i j m n hm hn
  -- nothing is open when a stream is opened
  have hnone : ∀ {k p k' p' : ℕ}, entry = (k, .opened p) → ¬ IsOpen past k' p' := by
    rintro k p k' p' rfl hopen
    exact hopen.2 (h k' p' hopen.1).2
  rcases isOpen_of_snoc hm with hm | hm
  · rcases isOpen_of_snoc hn with hn | hn
    · exact hpast i j m n hm hn
    · exact absurd hm (hnone hn)
  · rcases isOpen_of_snoc hn with hn | hn
    · exact absurd hn (hnone hm)
    · rw [hm] at hn
      cases hn
      exact ⟨rfl, rfl⟩

theorem oneOpen_of_permitted {log later : List (ℕ × Act)}
    (h : Permitted (MayDo archive directoryPath items) [] (log ++ later)) : OneOpen log := by
  refine h.before.preserves (fun past entry => oneOpen_snoc) ?_
  intro i j m n hm
  cases hm.1

end MayDo

/-! ## The streams at each moment -/

/-- `next` is the number of the next stream, and all but `current` are closed. -/
structure Streams (past : List (ℕ × Act)) (next : ℕ) (current : Option (ℕ × ℕ)) : Prop where
  opened : ∀ j m, (j, .opened m) ∈ past → m < next ∧ (current = some (j, m) ∨ (j, .close m sOk) ∈ past)
  closed : ∀ j m hr, (j, .close m hr) ∈ past → m < next
  current : ∀ i n, current = some (i, n) → IsOpen past i n

/-- The act neither opens nor closes a stream. -/
def Act.Quiet : Act → Prop
  | .opened _ => False
  | .close _ _ => False
  | _ => True

namespace Streams
variable {past : List (ℕ × Act)} {next i n : ℕ} {current : Option (ℕ × ℕ)}

theorem append {quiet : List (ℕ × Act)} (h : Streams past next current)
    (hquiet : ∀ entry ∈ quiet, entry.2.Quiet) : Streams (past ++ quiet) next current := by
  have hopened : ∀ j m, (j, .opened m) ∉ quiet := fun j m hmem => hquiet _ hmem
  have hclose : ∀ j m hr, (j, .close m hr) ∉ quiet := fun j m hr hmem => hquiet _ hmem
  refine ⟨fun j m hmem => ?_, fun j m hr hmem => ?_, fun i n hc => ⟨?_, fun hmem => ?_⟩⟩
  · have hm := h.opened j m ((List.mem_append.mp hmem).resolve_right (hopened j m))
    exact ⟨hm.1, hm.2.imp_right (List.mem_append_left _)⟩
  · exact h.closed j m hr ((List.mem_append.mp hmem).resolve_right (hclose j m hr))
  · exact List.mem_append_left _ (h.current i n hc).1
  · exact (h.current i n hc).2 ((List.mem_append.mp hmem).resolve_right (hclose i n sOk))

theorem snoc_quiet {act : Act} (h : Streams past next current) (hquiet : act.Quiet) :
    Streams (past ++ [(i, act)]) next current :=
  h.append (List.forall_mem_singleton.mpr hquiet)

theorem snoc_opened (h : Streams past next none) :
    Streams (past ++ [(i, .opened next)]) (next + 1) (some (i, next)) := by
  refine ⟨fun j m hmem => ?_, fun j m hr hmem => ?_, fun k n hc => ?_⟩
  · rcases List.mem_append.mp hmem with hmem | hmem
    · have hm := h.opened j m hmem
      refine ⟨Nat.lt_succ_of_lt hm.1, .inr (List.mem_append_left _ ?_)⟩
      exact hm.2.resolve_left (Option.some_ne_none _).symm
    · cases List.mem_singleton.mp hmem
      exact ⟨Nat.lt_succ_self _, .inl rfl⟩
  · rcases List.mem_append.mp hmem with hmem | hmem
    · exact Nat.lt_succ_of_lt (h.closed j m hr hmem)
    · cases List.mem_singleton.mp hmem
  · cases hc
    refine ⟨List.mem_append_right _ (List.mem_singleton_self _), fun hmem => ?_⟩
    rcases List.mem_append.mp hmem with hmem | hmem
    · exact absurd (h.closed i next sOk hmem) (Nat.lt_irrefl _)
    · cases List.mem_singleton.mp hmem

theorem snoc_closed (h : Streams past next (some (i, n))) :
    Streams (past ++ [(i, .close n sOk)]) next none := by
  refine ⟨fun j m hmem => ?_, fun j m hr hmem => ?_, fun k n hc => ?_⟩
  · have hpast : (j, Act.opened m) ∈ past := by
      refine (List.mem_append.mp hmem).resolve_right fun h => ?_
      cases List.mem_singleton.mp h
    have hm := h.opened j m hpast
    refine ⟨hm.1, .inr ?_⟩
    rcases hm.2 with hc | hc
    · cases hc
      exact List.mem_append_right _ (List.mem_singleton_self _)
    · exact List.mem_append_left _ hc
  · rcases List.mem_append.mp hmem with hmem | hmem
    · exact h.closed j m hr hmem
    · cases List.mem_singleton.mp hmem
      exact h.opened i n (h.current i n rfl).1 |>.1
  · cases hc

end Streams

/-! ## One item -/

section Item
variable {σ : Type} {api : StreamApi σ} {archive : InArchive} {directoryPath : Path} {items : List (Item σ)}
  {past : List (ℕ × Act)} {i : ℕ} {item : Item σ} {x : Session σ}

/-- Between two items. -/
structure AtItem (directoryPath : Path) (past : List (ℕ × Act)) (cb : ExtractCallback) : Prop where
  dir : cb.directoryPath = normalizeDirPathPrefix directoryPath
  streams : Streams past cb.streams none

/-- From the `GetStream` of item `i` on. -/
structure InItem (archive : InArchive) (directoryPath : Path) (i : ℕ) (item : Item σ)
    (past : List (ℕ × Act)) (cb : ExtractCallback) : Prop where
  dir : cb.directoryPath = normalizeDirPathPrefix directoryPath
  streams : Streams past cb.streams (cb.outFileStream.map (i, ·))
  spec : ∀ n, cb.outFileStream = some n → cb.outFileStreamSpec = some n ∧ item.askExtractMode = kExtract
  describes : item.askExtractMode = kExtract →
    Describes archive item.index (normalizeDirPathPrefix directoryPath) cb

/-- The entry for the stream that is handed out. -/
def openedBy (i : ℕ) : Except Stop (Option ℕ) → List (ℕ × Act)
  | .ok (some stream) => [(i, .opened stream)]
  | _ => []

theorem getStream_log {index : UInt32} {askExtractMode : ℤ} {o : Outcome σ}
    (ho : x.callback.getStream api.toFileApi archive index askExtractMode x.files = o) :
    ((Session.getStream api archive index askExtractMode x).mapLog (i, ·)).log =
      o.effects.map (fun e => (i, .effect e)) ++ openedBy i o.result := by
  unfold Session.getStream
  rw [ho, Logged.mapLog_log, List.map_append, List.map_map]
  rcases o.result with stop | _ | stream <;> rfl

theorem effects_permitted (effects : List Effect) :
    Permitted (MayDo archive directoryPath items) past (effects.map fun e => (i, .effect e)) := by
  induction effects generalizing past with
  | nil => trivial
  | cons e effects ih => exact ⟨trivial, ih⟩

theorem effects_quiet (effects : List Effect) :
    ∀ entry ∈ effects.map fun e => (i, Act.effect e), entry.2.Quiet := by
  intro entry hentry
  obtain ⟨e, -, rfl⟩ := List.mem_map.mp hentry
  trivial

section Delivery
variable {index : UInt32} {askExtractMode : ℤ} {cb cb' : ExtractCallback} {r : Option ℕ}

theorem Delivered.permitted (hd : Delivered archive index askExtractMode cb cb' r)
    (h : Streams past cb.streams none) :
    Permitted (MayDo archive directoryPath items) past (openedBy i (.ok r)) := by
  cases r with
  | none => trivial
  | some n =>
    obtain ⟨rfl, -⟩ := hd.fresh n rfl
    refine ⟨fun j m hmem => ?_, trivial⟩
    have hm := h.opened j m hmem
    exact ⟨Nat.ne_of_lt hm.1, hm.2.resolve_left (Option.some_ne_none _).symm⟩

theorem Delivered.streams_after (hd : Delivered archive index askExtractMode cb cb' r)
    (h : Streams past cb.streams none) :
    Streams (past ++ openedBy i (.ok r)) cb'.streams (cb'.outFileStream.map (i, ·)) := by
  rw [hd.outFileStream, ← hd.streams]
  cases r with
  | none =>
    show Streams (past ++ []) cb.streams none
    rw [List.append_nil]
    exact h
  | some n =>
    obtain ⟨rfl, -⟩ := hd.fresh n rfl
    exact h.snoc_opened

theorem Delivered.spec (hd : Delivered archive index askExtractMode cb cb' r) {n : ℕ}
    (hn : cb'.outFileStream = some n) :
    cb'.outFileStreamSpec = some n ∧ askExtractMode = kExtract := by
  rw [hd.outFileStream] at hn
  refine ⟨(hd.fresh n hn).2, ?_⟩
  by_contra hmode
  rw [hd.mode hmode] at hn
  cases hn

end Delivery

theorem getStream_keeps (h : AtItem directoryPath past x.callback) :
    ((Session.getStream api archive item.index item.askExtractMode x).mapLog (i, ·)).Keeps
      (MayDo archive directoryPath items) past
      fun past' x' => InItem archive directoryPath i item past' x'.callback := by
  obtain ⟨o, ho⟩ : ∃ o, x.callback.getStream api.toFileApi archive item.index item.askExtractMode
      x.files = o := ⟨_, rfl⟩
  have hquiet := h.streams.append (effects_quiet (i := i) o.effects)
  have hresult : ((Session.getStream api archive item.index item.askExtractMode x).mapLog (i, ·)).result =
      o.result.map fun _ => { x with callback := o.callback, files := o.files } := by
    unfold Session.getStream
    rw [ho]
    rfl
  unfold Logged.Keeps
  rw [getStream_log ho, hresult]
  cases hr : o.result with
  | error stop =>
    refine ⟨permitted_append.mpr ⟨effects_permitted _, trivial⟩, fun x' hx' => ?_⟩
    cases hx'
  | ok r =>
    have hd := getStream_ok ho hr
    refine ⟨permitted_append.mpr ⟨effects_permitted _, hd.permitted hquiet⟩, fun x' hx' => ?_⟩
    cases hx'
    refine ⟨hd.dir.trans h.dir, ?_, fun n hn => hd.spec hn, fun hmode => ?_⟩
    · rw [← List.append_assoc]
      exact hd.streams_after hquiet
    · rw [← h.dir]
      exact hd.describes hmode

theorem setCompleted_kept {x' : Session σ} {completeValue : UInt64}
    (h : x.setCompleted api completeValue = .ok x') :
    x'.callback = x.callback ∧ x'.extractMode = x.extractMode := by
  unfold Session.setCompleted at h
  split at h
  · cases h
    exact ⟨rfl, rfl⟩
  · dsimp only at h
    split at h
    · cases h
    · cases h
      exact ⟨rfl, rfl⟩

theorem completed_kept {x' : Session σ} {completed : List UInt64}
    (h : completed.foldlM (Session.setCompleted api) x = .ok x') :
    x'.callback = x.callback ∧ x'.extractMode = x.extractMode := by
  refine foldlM_inv (P := fun y => y.callback = x.callback ∧ y.extractMode = x.extractMode)
    (fun y v y' _ hy hstep => ?_) ⟨rfl, rfl⟩ h
  obtain ⟨hcb, hmode⟩ := setCompleted_kept hstep
  exact ⟨hcb.trans hy.1, hmode.trans hy.2⟩

theorem close_keeps {n next : ℕ} {hr : ℤ} {x' : Session σ} (h : Streams past next (some (i, n))) :
    (Logged.step (i, Act.close n hr) (if hr ≠ sOk then .error (.result hr) else .ok x') :
      Logged (ℕ × Act) Stop (Session σ)).Keeps (MayDo archive directoryPath items) past
        fun past' y => Streams past' next none ∧ y = x' := by
  apply Logged.keeps_step
  · exact h.current i n rfl
  · intro y hy
    split at hy
    · cases hy
    next hsok =>
      obtain rfl := not_not.mp hsok
      cases hy
      exact ⟨h.snoc_closed, rfl⟩

theorem closeStream_keeps (h : InItem archive directoryPath i item past x.callback)
    (hitem : items[i]? = some item) :
    ((Session.closeStream api x).mapLog (i, ·)).Keeps (MayDo archive directoryPath items) past
      fun past' x' => Streams past' x.callback.streams none ∧ x'.callback = x.callback ∧
        x'.extractMode = x.extractMode := by
  unfold Session.closeStream
  have hstreams := h.streams
  cases hout : x.callback.outFileStream with
  | none =>
    rw [hout] at hstreams
    exact Logged.keeps_pure ⟨hstreams, rfl, rfl⟩
  | some n =>
    obtain ⟨hspec, hmode⟩ := h.spec n hout
    rw [hout] at hstreams
    rw [hspec]
    dsimp only
    split
    next htime =>
      rw [Logged.bind_mapLog]
      refine Logged.keeps_bind (Q := fun past' x' => Streams past' x.callback.streams (some (i, n)) ∧
        x'.callback = x.callback ∧ x'.extractMode = x.extractMode) ?_ ?_
      · apply Logged.keeps_step
        · exact ⟨hstreams.current i n rfl, item.index, ⟨item, hitem, rfl, hmode⟩,
            (h.describes hmode).mTime htime⟩
        · intro x' hx'
          cases hx'
          exact ⟨hstreams.snoc_quiet trivial, rfl, rfl⟩
      · rintro past' x' ⟨hpast', hkept⟩
        refine (close_keeps hpast').mono fun past'' y hy => ?_
        obtain ⟨hnone, rfl⟩ := hy
        exact ⟨hnone, hkept⟩
    next =>
      refine (close_keeps hstreams).mono fun past' y hy => ?_
      obtain ⟨hnone, rfl⟩ := hy
      exact ⟨hnone, rfl, rfl⟩

theorem setOperationResult_keeps (h : InItem archive directoryPath i item past x.callback)
    (hitem : items[i]? = some item) (hmode : x.extractMode = decide (item.askExtractMode = kExtract)) {r : ℤ} :
    ((Session.setOperationResult api r x).mapLog (i, ·)).Keeps (MayDo archive directoryPath items) past
      fun past' x' => AtItem directoryPath past' x'.callback := by
  unfold Session.setOperationResult
  dsimp only
  -- counting the errors touches nothing else
  obtain ⟨x₀, hx₀, hcb, hmode₀⟩ : ∃ x₀, (if r = kOk then x else { x with numErrors := x.numErrors + 1 }) = x₀ ∧
      x₀.callback = x.callback ∧ x₀.extractMode = x.extractMode := by
    split
    · exact ⟨x, rfl, rfl, rfl⟩
    · exact ⟨_, rfl, rfl, rfl⟩
  rw [hx₀, Logged.bind_mapLog]
  have h₀ : InItem archive directoryPath i item past x₀.callback := by
    rw [hcb]
    exact h
  refine Logged.keeps_bind (closeStream_keeps h₀ hitem) ?_
  rintro past' x' ⟨hstreams, hcb', hmode'⟩
  have hdir : x'.callback.directoryPath = normalizeDirPathPrefix directoryPath := by
    rw [hcb']
    exact h₀.dir
  rw [← hcb'] at hstreams
  split
  next hattrib =>
    have hextract : item.askExtractMode = kExtract := by
      rw [hmode', hmode₀, hmode] at hattrib
      exact of_decide_eq_true hattrib.1
    have hdesc := h₀.describes hextract
    rw [← hcb'] at hdesc
    obtain ⟨name, hname, hpath⟩ := hdesc.path
    apply Logged.keeps_step
    · exact ⟨item.index, name, ⟨item, hitem, rfl, hextract⟩, hname, hpath, hdesc.attrib hattrib.2⟩
    · intro y hy
      cases hy
      exact ⟨hdir, hstreams.snoc_quiet trivial⟩
  next => exact Logged.keeps_pure ⟨hdir, hstreams⟩

theorem treatItem_keeps (h : AtItem directoryPath past x.callback) (hitem : items[i]? = some item) :
    ((Session.treatItem api archive item x).mapLog (i, ·)).Keeps (MayDo archive directoryPath items) past
      fun past' x' => AtItem directoryPath past' x'.callback := by
  unfold Session.treatItem
  rw [Logged.bind_mapLog]
  refine Logged.keeps_bind (getStream_keeps h) fun past' x' hx' => ?_
  dsimp only
  rw [Logged.bind_mapLog, Logged.lift_mapLog]
  refine Logged.keeps_bind (Q := fun past'' x'' =>
    InItem archive directoryPath i item past'' x''.callback ∧
      x''.extractMode = decide (item.askExtractMode = kExtract)) ?_ ?_
  · apply Logged.keeps_lift
    intro x'' hx''
    obtain ⟨hcb, hmode⟩ := completed_kept hx''
    refine ⟨?_, hmode⟩
    rw [hcb]
    exact hx'
  · rintro past'' x'' ⟨hin, hmode⟩
    exact setOperationResult_keeps hin hitem hmode

end Item

/-! ## All items -/

section Drive
variable {σ : Type} {api : StreamApi σ} {archive : InArchive} {directoryPath : Path} {items rest : List (Item σ)}

/-- Every item leaves the streams before it closed, so that the next starts as the first did. -/
theorem drive_keeps {past : List (ℕ × Act)} {i : ℕ} {x : Session σ}
    (h : AtItem directoryPath past x.callback) (hrest : items.drop i = rest) :
    (Session.drive api archive i rest x).Keeps (MayDo archive directoryPath items) past
      fun past' x' => AtItem directoryPath past' x'.callback := by
  induction rest generalizing past i x with
  | nil => exact Logged.keeps_pure h
  | cons item rest ih =>
    have hitem : items[i]? = some item := by
      rw [← Nat.add_zero i, ← List.getElem?_drop, hrest]
      rfl
    have hnext : items.drop (i + 1) = rest := by
      rw [← List.drop_drop, hrest]
      rfl
    exact Logged.keeps_bind (treatItem_keeps h hitem) fun past' x' hx' => ih hx' hnext

/-- **Attributes and times go to the item just extracted**: whatever is done was permitted when it was
done, and at no time more than one stream is open. -/
theorem extraction_keeps_items_apart (api : StreamApi σ) (archive : InArchive) (directoryPath : Path)
    (items : List (Item σ)) (files : σ) (total : UInt64) :
    let log := (Session.drive api archive 0 items ((Session.start directoryPath files).setTotal total)).log
    Permitted (MayDo archive directoryPath items) [] log ∧ ∀ k, OneOpen (log.take k) := by
  intro log
  have hstart : AtItem directoryPath [] ((Session.start directoryPath files).setTotal total).callback := by
    refine ⟨rfl, fun j m hmem => ?_, fun j m hr hmem => ?_, fun i n hc => ?_⟩
    · cases hmem
    · cases hmem
    · cases hc
  have hlog : Permitted (MayDo archive directoryPath items) [] log := (drive_keeps hstart rfl).1
  refine ⟨hlog, fun k => ?_⟩
  rw [← List.take_append_drop k log] at hlog
  exact oneOpen_of_permitted hlog

end Drive

end AppUtil.SevenZip
