import AppUtil.SevenZip.Damage
import AppUtil.SevenZip.Extraction
import AppUtil.SevenZip.Packed
import AppUtil.SevenZip.Protocol
import AppUtil.SevenZip.UpdateCallback

/-! # What is extracted of what was archived

`UnCompress` on an archive that says of its items what `Compress` has said of its files. -/
namespace AppUtil.SevenZip
open AppUtil.Lib
open AppUtil.Lib.Text
open AppUtil.Zip (Path Folder)
set_option autoImplicit false

/-- The archive says of the item what the update callback says of the file. -/
def Stores (archive : InArchive) (index : UInt32) (dirItem : DirItem) : Prop :=
  ∀ propID, archive.getProperty index propID = (sOk, UpdateCallback.propertyOf dirItem (.of propID))

/-- All but the folders that are made and the files that make room. -/
def Act.lasting : Act → Bool
  | .effect (.openAlways _ _) => true
  | .effect _ => false
  | _ => true

/-- The file of an item: opened as the stream `stream`, given its time, closed, and given its attributes. -/
def restored (path : Path) (stream : ℕ) (dirItem : DirItem) : List Act :=
  (if dirItem.isDir then []
    else [.effect (.openAlways stream path), .opened stream, .setMTime stream dirItem.mTime, .close stream sOk]) ++
    [.setFileAttributes path dirItem.attrib]

/-- The files of the items, from the item `i` and the stream `stream` on. -/
def restoredAll (directoryPath : Path) : ℕ → ℕ → List DirItem → List (ℕ × Act)
  | _, _, [] => []
  | i, stream, dirItem :: rest =>
    (restored (normalizeDirPathPrefix directoryPath ++ dirItem.name) stream dirItem).map (i, ·) ++
      restoredAll directoryPath (i + 1) (if dirItem.isDir then stream else stream + 1) rest

/-! ## One item -/

section Reading
variable {archive : InArchive} {index : UInt32} {dirItem : DirItem}

theorem Stores.getProperty (h : Stores archive index dirItem) (propID : PropId) :
    getProperty archive index propID = .ok (UpdateCallback.propertyOf dirItem (.of propID)) := by
  unfold SevenZip.getProperty
  rw [h propID]
  rfl

theorem Stores.readPath (h : Stores archive index dirItem) : readPath archive index = .ok dirItem.name := by
  unfold SevenZip.readPath
  rw [h.getProperty]
  rfl

/-- What is read of an item that is stored. -/
def DirItem.processedInfo (dirItem : DirItem) : ProcessedFileInfo :=
  ⟨dirItem.mTime, dirItem.attrib, dirItem.isDir, true, true⟩

theorem Stores.readInfo (h : Stores archive index dirItem) (info : ProcessedFileInfo) :
    (readInfo archive index).run.run info = (.ok (), dirItem.processedInfo) := by
  unfold SevenZip.readInfo readAttrib readIsDir readMTime isArchiveItemFolder readSize
  simp only [h.getProperty]
  rfl

end Reading

section Acts
variable {σ : Type} {api : StreamApi σ} {archive : InArchive} {index : UInt32} {dirItem : DirItem}

/-- The effect makes a folder. -/
def Effect.makesFolder : Effect → Prop
  | .createComplexDirectory _ => True
  | .myCreateDirectory _ => True
  | _ => False

theorem climb_makesFolder (api : FileApi σ) (l : List Path) (s : σ) : ∀ e ∈ (climb api l s).1, e.makesFolder := by
  induction l generalizing s with
  | nil => exact fun e he => absurd he List.not_mem_nil
  | cons pathName above ih =>
    intro e he
    unfold climb at he
    split at he
    · rw [List.mem_singleton.mp he]
      trivial
    · rw [List.mem_singleton.mp he]
      trivial
    · rcases List.mem_cons.mp he with rfl | he
      · trivial
      · exact ih _ e he

theorem createComplexDirectory_makesFolder (api : FileApi σ) (path : Path) (s : σ) :
    ∀ e ∈ (createComplexDirectory api path s).1, e.makesFolder := by
  intro e he
  unfold createComplexDirectory at he
  split at he
  · rw [List.mem_singleton.mp he]
    trivial
  · have hclimb := climb_makesFolder api (outward (withoutSlash path)) s
    dsimp only at he
    split at he
    next tried r s₁ heq =>
      rw [heq] at hclimb
      rcases List.mem_cons.mp he with rfl | he
      · trivial
      · exact hclimb e he
    next tried pos s₁ heq =>
      rw [heq] at hclimb
      rcases List.mem_append.mp he with he | he
      · rcases List.mem_cons.mp he with rfl | he
        · trivial
        · exact hclimb e he
      · obtain ⟨q, -, rfl⟩ := exists_of_mem_descend he
        trivial

theorem filter_lasting_of_makesFolder {effects : List Effect} (h : ∀ e ∈ effects, e.makesFolder) :
    (effects.map Act.effect).filter Act.lasting = [] := by
  rw [List.filter_eq_nil_iff]
  intro act hact
  obtain ⟨e, he, rfl⟩ := List.mem_map.mp hact
  have hmakes := h e he
  cases e with
  | createComplexDirectory pathName => exact Bool.false_ne_true
  | myCreateDirectory pathName => exact Bool.false_ne_true
  | _ => exact absurd hmakes id

theorem createFolders_makesFolder (api : FileApi σ) (cb : ExtractCallback) (s : σ) :
    ∀ e ∈ (cb.createFolders api s).1, e.makesFolder := by
  unfold ExtractCallback.createFolders
  split
  · exact createComplexDirectory_makesFolder api _ s
  · exact fun e he => absurd he List.not_mem_nil

theorem openOutput_lasting {api : FileApi σ} {cb : ExtractCallback} {path : Path} {s : σ} {r : Option ℕ}
    (h : (cb.openOutput api path s).result = .ok r) :
    ((cb.openOutput api path s).effects.map Act.effect).filter Act.lasting =
      [.effect (.openAlways cb.streams path)] := by
  unfold ExtractCallback.openOutput at h ⊢
  cases hfind : (api.find s path).isSome with
  | false =>
    cases hopen : api.openAlways s path with
    | none => simp [hfind, hopen] at h
    | some s₁ =>
      simp only [hopen, Bool.false_eq_true, Bool.true_eq_false, if_false]
      rfl
  | true =>
    cases hdelete : api.deleteFileAlways s path with
    | mk fine s₁ =>
      cases fine with
      | false => simp [hfind, hdelete] at h
      | true =>
        cases hopen : api.openAlways s₁ path with
        | none => simp [hfind, hdelete, hopen] at h
        | some s₂ =>
          simp only [hopen, Bool.true_eq_false, if_true, if_false]
          rfl

/-- What `GetStream` hands out for a stored item, and what of its effects lasts. -/
theorem createItem_lasting {api : FileApi σ} {cb : ExtractCallback} {s : σ} {r : Option ℕ}
    (h : (cb.createItem api s).result = .ok r) :
    (cb.createItem api s).callback.diskFilePath = cb.directoryPath ++ cb.filePath ∧
      (cb.createItem api s).callback.processedFileInfo = cb.processedFileInfo ∧
      r = (if cb.processedFileInfo.isDir then none else some cb.streams) ∧
      ((cb.createItem api s).effects.map Act.effect).filter Act.lasting =
        if cb.processedFileInfo.isDir then [] else
          [.effect (.openAlways cb.streams (cb.directoryPath ++ cb.filePath))] := by
  have hfolders := filter_lasting_of_makesFolder (createFolders_makesFolder api cb s)
  unfold ExtractCallback.createItem at h ⊢
  dsimp only at h ⊢
  split at h
  next hdir =>
    rw [if_pos hdir, if_pos hdir, if_pos hdir]
    cases h
    refine ⟨rfl, rfl, rfl, ?_⟩
    rw [List.map_append, List.filter_append, hfolders,
      filter_lasting_of_makesFolder (createComplexDirectory_makesFolder api _ _), List.nil_append]
  next hdir =>
    rw [if_neg hdir, if_neg hdir, if_neg hdir]
    obtain ⟨rfl, hcb⟩ := openOutput_ok h
    have hopen := openOutput_lasting h
    dsimp only
    rw [hcb, List.map_append, List.filter_append, hfolders, hopen]
    exact ⟨rfl, rfl, rfl, rfl⟩

/-- What `GetStream` leaves of a stored item. -/
structure Prepared (dirItem : DirItem) (x x' : Session σ) : Prop where
  dir : x'.callback.directoryPath = x.callback.directoryPath
  path : x'.callback.diskFilePath = x.callback.directoryPath ++ dirItem.name
  info : x'.callback.processedFileInfo = dirItem.processedInfo
  stream : x'.callback.outFileStream = if dirItem.isDir then none else some x.callback.streams
  spec : dirItem.isDir = false → x'.callback.outFileStreamSpec = some x.callback.streams
  streams : x'.callback.streams = if dirItem.isDir then x.callback.streams else x.callback.streams + 1

theorem getStream_restores (h : Stores archive index dirItem) {x x' : Session σ}
    (hr : (Session.getStream api archive index kExtract x).result = .ok x') :
    Prepared dirItem x x' ∧ (Session.getStream api archive index kExtract x).log.filter Act.lasting =
      if dirItem.isDir then []
      else [.effect (.openAlways x.callback.streams (x.callback.directoryPath ++ dirItem.name)),
        .opened x.callback.streams] := by
  obtain ⟨o, ho⟩ : ∃ o, x.callback.getStream api.toFileApi archive index kExtract x.files = o := ⟨_, rfl⟩
  have hcreate : o = (item x.callback dirItem.name dirItem.processedInfo).createItem api.toFileApi x.files :=
    ho.symm.trans (getStream_of_extracts h.readPath (h.readInfo _))
  unfold Session.getStream at hr ⊢
  rw [ho] at hr ⊢
  dsimp only at hr ⊢
  cases hresult : o.result with
  | error stop =>
    rw [hresult] at hr
    cases hr
  | ok r =>
    have hdelivered := getStream_ok ho hresult
    have hlasting := hresult
    rw [hcreate] at hlasting
    obtain ⟨hpath, hinfo, hstream, hlog⟩ := createItem_lasting hlasting
    rw [← hcreate] at hpath hinfo hlog
    rw [hresult] at hr
    cases hr
    have hr : r = if dirItem.isDir then none else some x.callback.streams := hstream
    refine ⟨⟨hdelivered.dir, hpath, hinfo, hdelivered.outFileStream.trans hr, fun hdir => ?_, ?_⟩, ?_⟩
    · refine (hdelivered.fresh _ ?_).2
      rw [hr, hdir]
      rfl
    · rw [← hdelivered.streams, hr]
      split <;> rfl
    · rw [List.filter_append, hlog, hr]
      show (if dirItem.isDir = true then _ else _) ++ _ = _
      split <;> rfl

theorem closeStream_restores {x x₁ x' : Session σ} (h : Prepared dirItem x x₁)
    (hr : (Session.closeStream api x₁).result = .ok x') :
    x'.callback = x₁.callback ∧ x'.extractMode = x₁.extractMode ∧
      (Session.closeStream api x₁).log.filter Act.lasting =
      if dirItem.isDir then []
      else [.setMTime x.callback.streams dirItem.mTime, .close x.callback.streams sOk] := by
  unfold Session.closeStream at hr ⊢
  rw [h.stream] at hr ⊢
  cases hdir : dirItem.isDir with
  | true =>
    rw [hdir] at hr
    cases hr
    exact ⟨rfl, rfl, rfl⟩
  | false =>
    have hspec := h.spec hdir
    have htime : x₁.callback.processedFileInfo.mTimeDefined = true := by
      rw [h.info]
      rfl
    have hmTime : x₁.callback.processedFileInfo.mTime = dirItem.mTime := by
      rw [h.info]
      rfl
    simp only [hdir, Bool.false_eq_true, if_false, hspec, htime, if_true, hmTime] at hr ⊢
    rw [Logged.bind_result, Logged.step_result, ok_bind] at hr
    rw [Logged.bind_log_of_ok rfl]
    dsimp only at hr ⊢
    rw [Logged.step_result] at hr
    split at hr
    · cases hr
    next hcode =>
      cases hr
      rw [not_not.mp hcode]
      exact ⟨rfl, rfl, rfl⟩

theorem setOperationResult_restores {x x₁ x' : Session σ} {r : ℤ} (h : Prepared dirItem x x₁)
    (hmode : x₁.extractMode = true) (hr : (Session.setOperationResult api r x₁).result = .ok x') :
    x'.callback.directoryPath = x.callback.directoryPath ∧
      x'.callback.streams = (if dirItem.isDir then x.callback.streams else x.callback.streams + 1) ∧
      (Session.setOperationResult api r x₁).log.filter Act.lasting =
        (if dirItem.isDir then []
          else [.setMTime x.callback.streams dirItem.mTime, .close x.callback.streams sOk]) ++
        [.setFileAttributes (x.callback.directoryPath ++ dirItem.name) dirItem.attrib] := by
  unfold Session.setOperationResult at hr ⊢
  dsimp only at hr ⊢
  obtain ⟨x₀, hx₀, hcb, hmode₀⟩ : ∃ x₀,
      (if r = kOk then x₁ else { x₁ with numErrors := x₁.numErrors + 1 }) = x₀ ∧
        x₀.callback = x₁.callback ∧ x₀.extractMode = x₁.extractMode := by
    split
    · exact ⟨x₁, rfl, rfl, rfl⟩
    · exact ⟨_, rfl, rfl, rfl⟩
  rw [hx₀] at hr ⊢
  have h₀ : Prepared dirItem x x₀ := by
    obtain ⟨hdir, hpath, hinfo, hstream, hspec, hstreams⟩ := h
    rw [← hcb] at hdir hpath hinfo hstream hspec hstreams
    exact ⟨hdir, hpath, hinfo, hstream, hspec, hstreams⟩
  rw [Logged.bind_result] at hr
  obtain ⟨x₂, hx₂, hr⟩ := bind_eq_ok.mp hr
  obtain ⟨hcb₂, hmode₂, hlog⟩ := closeStream_restores h₀ hx₂
  rw [Logged.bind_log_of_ok hx₂, List.filter_append, hlog]
  have hattrib : x₂.extractMode = true ∧ x₂.callback.processedFileInfo.attribDefined = true := by
    rw [hmode₂, hmode₀, hcb₂, h₀.info]
    exact ⟨hmode, rfl⟩
  rw [if_pos hattrib] at hr ⊢
  cases hr
  rw [hcb₂, h₀.path, h₀.info]
  exact ⟨h₀.dir, h₀.streams, rfl⟩

/-- **What the callbacks of a stored item come to**, where none of them fails. -/
theorem treatItem_restores {it : Item σ} (h : Stores archive it.index dirItem)
    (hmode : it.askExtractMode = kExtract) {x x' : Session σ}
    (hr : (Session.treatItem api archive it x).result = .ok x') :
    x'.callback.directoryPath = x.callback.directoryPath ∧
      x'.callback.streams = (if dirItem.isDir then x.callback.streams else x.callback.streams + 1) ∧
      (Session.treatItem api archive it x).log.filter Act.lasting =
        restored (x.callback.directoryPath ++ dirItem.name) x.callback.streams dirItem := by
  unfold Session.treatItem at hr ⊢
  rw [hmode] at hr ⊢
  rw [Logged.bind_result] at hr
  obtain ⟨x₁, hx₁, hr⟩ := bind_eq_ok.mp hr
  obtain ⟨hprepared, hlog⟩ := getStream_restores h hx₁
  rw [Logged.bind_log_of_ok hx₁, List.filter_append, hlog]
  dsimp only at hr ⊢
  rw [Logged.bind_result, Logged.lift_result] at hr
  obtain ⟨x₂, hx₂, hr⟩ := bind_eq_ok.mp hr
  obtain ⟨hcb, hextract⟩ := completed_kept hx₂
  rw [Logged.bind_log_of_ok (x := Logged.lift _) hx₂, Logged.lift_log, List.nil_append]
  have h₂ : Prepared dirItem x x₂ := by
    obtain ⟨hdir, hpath, hinfo, hstream, hspec, hstreams⟩ := hprepared
    have hcb' : x₂.callback = x₁.callback := hcb
    rw [← hcb'] at hdir hpath hinfo hstream hspec hstreams
    exact ⟨hdir, hpath, hinfo, hstream, hspec, hstreams⟩
  obtain ⟨hdir, hstreams, hlog₂⟩ := setOperationResult_restores h₂ hextract hr
  refine ⟨hdir, hstreams, ?_⟩
  rw [hlog₂, restored]
  cases dirItem.isDir <;> rfl

end Acts

/-! ## All items -/

section Items
variable {σ : Type} {api : StreamApi σ} {archive : InArchive} {directoryPath : Path}

theorem drive_restores {its : List (Item σ)} {kept : List DirItem}
    (h : List.Forall₂ (fun it dirItem => it.askExtractMode = kExtract ∧ Stores archive it.index dirItem) its kept)
    {i : ℕ} {x x' : Session σ} (hdir : x.callback.directoryPath = normalizeDirPathPrefix directoryPath)
    (hr : (Session.drive api archive i its x).result = .ok x') :
    (Session.drive api archive i its x).log.filter (fun entry => entry.2.lasting) =
      restoredAll directoryPath i x.callback.streams kept := by
  induction h generalizing i x with
  | nil => rfl
  | cons hitem _ ih =>
    unfold Session.drive at hr ⊢
    rw [Logged.bind_result, Logged.mapLog_result] at hr
    obtain ⟨x₁, hx₁, hr⟩ := bind_eq_ok.mp hr
    obtain ⟨hdir₁, hstreams, hlog⟩ := treatItem_restores hitem.2 hitem.1 hx₁
    have hresult : ((Session.treatItem api archive _ x).mapLog (i, ·)).result = .ok x₁ := hx₁
    rw [Logged.bind_log_of_ok hresult, Logged.mapLog_log, List.filter_append, List.filter_map]
    have hrest := ih (hdir₁.trans hdir) hr
    rw [hstreams] at hrest
    rw [hrest, restoredAll, ← hdir, ← hlog]
    rfl

variable {os : FileFind} {packer : Packer} {strPak strName : Path}

theorem exists_of_mem_left {α β : Type} {R : α → β → Prop} {as : List α} {bs : List β}
    (h : List.Forall₂ R as bs) {a : α} (ha : a ∈ as) : ∃ b ∈ bs, R a b := by
  induction h with
  | nil => cases ha
  | cons hab _ ih =>
    rcases List.mem_cons.mp ha with rfl | ha
    · exact ⟨_, List.mem_cons_self .., hab⟩
    · obtain ⟨b, hb, hr⟩ := ih ha
      exact ⟨b, List.mem_cons_of_mem _ hb, hr⟩

theorem dirItems_find {path : Path} {files : List Path} {items : List DirItem}
    (h : dirItems os path files = some items) : ∀ d ∈ items, os.find d.fullPath = some d.toFileInfo := by
  induction files generalizing items with
  | nil =>
    cases h
    exact fun d hd => absurd hd List.not_mem_nil
  | cons file files ih =>
    unfold dirItems at h
    dsimp only at h
    obtain ⟨fi, hfind, h⟩ := Option.bind_eq_some_iff.mp h
    obtain ⟨rest, hrest, h⟩ := Option.bind_eq_some_iff.mp h
    cases h
    intro d hd
    rcases List.mem_cons.mp hd with rfl | hd
    · exact hfind
    · exact ih hrest d hd

/-- The file of the folder that an item stands for, and what it says of it. -/
def StandsFor (os : FileFind) (strPak : Path) (d : DirItem) (p : List Path) : Prop :=
  ReachedFrom os (searched os strPak) p ∧ os.place d.fullPath = searched os strPak ++ p ∧
    d.name = strFileName strPak ++ joined '\\' p ∧ os.find d.fullPath = some d.toFileInfo

theorem handed_items (hlaws : FileFindLaws os) (hready : packer.Ready strName) {items : List DirItem}
    (h : (compress os packer strPak strName).1 = some items) :
    (items.map DirItem.name).Nodup ∧ ∀ d ∈ items, ∃ p, StandsFor os strPak d p := by
  obtain ⟨ps, hnodup, hmem, hforall⟩ := handed_spec strPak hlaws hready
  have hfind : ∀ d ∈ items, os.find d.fullPath = some d.toFileInfo := by
    rw [compress_handed hready] at h
    obtain ⟨files, -, hitems⟩ := Option.bind_eq_some_iff.mp h
    exact dirItems_find hitems
  rw [h, Option.getD_some] at hforall
  have hvalid : ∀ p ∈ ps, ∀ n ∈ p, '\\' ∉ n := fun p hp n hn =>
    ((hlaws.proper _).validFile (wanted_of_reached ((hmem p).mp hp).2).1 n hn).noBackslash
  have hnames : items.map DirItem.name = ps.map fun p => strFileName strPak ++ joined '\\' p := by
    clear hfind h hmem hvalid hnodup
    induction hforall with
    | nil => rfl
    | cons hd _ ih => rw [List.map_cons, List.map_cons, hd.2, ih]
  refine ⟨?_, fun d hd => ?_⟩
  · rw [hnames]
    refine List.Nodup.map_on (fun p hp q hq heq => ?_) hnodup
    exact joined_inj (hvalid p hp) (hvalid q hq) (List.append_cancel_left heq)
  · obtain ⟨p, hp, hplace, hname⟩ := exists_of_mem_left hforall hd
    exact ⟨p, (hmem p).mp hp, hplace, hname, hfind d hd⟩

/-- The archive says of each of its items what the update callback says of one of the files, of no two the
same, and all are asked for. -/
structure Holds (archive : InArchive) (its : List (Item σ)) (items : List DirItem) (indices : List UInt32) :
    Prop where
  nodup : indices.Nodup
  stored : List.Forall₂ (fun it index => it.askExtractMode = kExtract ∧ ∀ propID, ∃ value,
    (UpdateCallback.init items).getProperty index (.of propID) = some value ∧
      archive.getProperty it.index propID = (sOk, value)) its indices

theorem Holds.kept {its : List (Item σ)} {items : List DirItem} {indices : List UInt32}
    (h : Holds archive its items indices) : ∃ kept : List DirItem,
      List.Forall₂ (fun index dirItem => items[index.toNat]? = some dirItem) indices kept ∧
      List.Forall₂ (fun it dirItem => it.askExtractMode = kExtract ∧ Stores archive it.index dirItem) its kept := by
  have hstored := h.stored
  clear h
  induction hstored with
  | nil => exact ⟨[], .nil, .nil⟩
  | cons hit _ ih =>
    obtain ⟨kept, hkept, hstores⟩ := ih
    obtain ⟨hmode, hsame⟩ := hit
    obtain ⟨path, hpath, -⟩ := hsame .path
    obtain ⟨dirItem, hitem, -⟩ := Option.map_eq_some_iff.mp hpath
    refine ⟨dirItem :: kept, .cons hitem hkept, .cons ⟨hmode, fun propID => ?_⟩ hstores⟩
    obtain ⟨value, hvalue, hget⟩ := hsame propID
    have hprop : some (UpdateCallback.propertyOf dirItem (.of propID)) = some value := by
      rw [← hvalue]
      exact (congrArg (Option.map (UpdateCallback.propertyOf · (.of propID))) hitem).symm
    rw [hget, Option.some.inj hprop]

theorem kept_names_nodup {items kept : List DirItem} {indices : List UInt32} (hindices : indices.Nodup)
    (hkept : List.Forall₂ (fun index dirItem => items[index.toNat]? = some dirItem) indices kept)
    (hnames : (items.map DirItem.name).Nodup) : (kept.map DirItem.name).Nodup := by
  induction hkept with
  | nil => exact List.nodup_nil
  | @cons index dirItem indices kept hitem hrest ih =>
    obtain ⟨hfresh, htail⟩ := List.nodup_cons.mp hindices
    rw [List.map_cons, List.nodup_cons]
    refine ⟨fun hmem => hfresh ?_, ih htail⟩
    obtain ⟨d, hd, hsame⟩ := List.mem_map.mp hmem
    obtain ⟨j, hj, hget⟩ := exists_of_mem_left hrest.flip hd
    have hlt : index.toNat < (items.map DirItem.name).length := by
      rw [List.length_map]
      exact (List.getElem?_eq_some_iff.mp hitem).1
    have heq : (items.map DirItem.name)[index.toNat]? = (items.map DirItem.name)[j.toNat]? := by
      rw [List.getElem?_map, List.getElem?_map, hitem, hget, Option.map_some, Option.map_some, hsame]
    have hnat := (List.getElem?_inj hlt hnames).mp heq
    rw [UInt32.toNat_inj.mp hnat]
    exact hj

theorem drive_ok_of_accepted {lib : Library σ} {strPak strName : Path} {files : σ} {total : UInt64}
    {its : List (Item σ)} (h : Accepted (unCompress api lib strPak strName files))
    (hopen : lib.openArchive (outputFolder api strName files) strPak = some (archive, total, its)) :
    ∃ x', (Session.drive api archive 0 its
      ((Session.start strName (outputFolder api strName files)).setTotal total)).result = .ok x' := by
  have hready : lib.Ready strPak (outputFolder api strName files) := by
    by_contra hnot
    exact unCompress_of_not_ready hnot h
  have hrun := (unCompress_of_ready hready hopen).mp h
  rw [← drive_error_iff (i := 0)] at hrun
  cases hresult : (Session.drive api archive 0 its
      ((Session.start strName (outputFolder api strName files)).setTotal total)).result with
  | error stop => exact absurd ⟨stop, hresult⟩ hrun
  | ok x' => exact ⟨x', rfl⟩

/-- **What was archived is extracted**: of an archive that says of its items what `Compress` has said of its
files, `UnCompress` opens, dates, closes and marks the files one after the other, each once, under the name of
the folder and the way from there, with the time and the attributes it had there; no two have the same name. -/
theorem extraction_restores {lib : Library σ} {strOut : Path} {files : σ} {total : UInt64}
    {its : List (Item σ)} {items : List DirItem} {indices : List UInt32} (hlaws : FileFindLaws os)
    (hready : packer.Ready strName) (hhanded : (compress os packer strPak strName).1 = some items)
    (hopen : lib.openArchive (outputFolder api strOut files) strName = some (archive, total, its))
    (hholds : Holds archive its items indices)
    (haccepted : Accepted (unCompress api lib strName strOut files)) :
    ∃ kept : List DirItem,
      List.Forall₂ (fun index dirItem => items[index.toNat]? = some dirItem) indices kept ∧
      (kept.map DirItem.name).Nodup ∧ (∀ d ∈ kept, ∃ p, StandsFor os strPak d p) ∧
      (Session.drive api archive 0 its
        ((Session.start strOut (outputFolder api strOut files)).setTotal total)).log.filter
          (fun entry => entry.2.lasting) = restoredAll strOut 0 0 kept := by
  obtain ⟨hnames, hstands⟩ := handed_items hlaws hready hhanded
  obtain ⟨kept, hkept, hstores⟩ := hholds.kept
  obtain ⟨x', hx'⟩ := drive_ok_of_accepted haccepted hopen
  refine ⟨kept, hkept, kept_names_nodup hholds.nodup hkept hnames, fun d hd => ?_, drive_restores hstores rfl hx'⟩
  obtain ⟨index, -, hitem⟩ := exists_of_mem_left hkept.flip hd
  exact hstands d (List.mem_of_getElem? hitem)

end Items

/-! ## What `Compress` tells of the files it could not open -/

section Reports
variable {σ : Type} {api : UpdateApi σ} {os : FileFind} {packer : Packer} {strPak strName : Path}

theorem compress_code {items : List DirItem} (hready : packer.Ready strName)
    (h : (compress os packer strPak strName).1 = some items) : (compress os packer strPak strName).2 =
      if (packer.updateItems items).1 ≠ sOk then errorCompressFaild
      else if (packer.updateItems items).2 ≠ 0 then errorHasfilesFaild else errorOk := by
  obtain ⟨hload, hproc, hcreate, hobject, hprop⟩ := hready
  unfold compress at h ⊢
  rw [hload, hproc, hcreate, hobject, hprop] at h ⊢
  simp only [Bool.true_eq_false, if_false, ne_eq, not_true_eq_false] at h ⊢
  cases htraverse : traverseFloder os (strFileName strPak) (strFolderPath strPak) with
  | none =>
    rw [htraverse] at h
    cases h
  | some vecFilelist =>
    rw [htraverse] at h
    dsimp only at h ⊢
    cases hitems : dirItems os (strFolderPath strPak) vecFilelist with
    | none =>
      rw [hitems] at h
      cases h
    | some handed =>
      rw [hitems] at h
      cases h
      rfl

/-- **What `Compress` returns** when it has come to `UpdateItems`, whatever 7z.dll asks for and in whatever
order: `ERROR_OK` only if every stream that was asked for was opened or belongs to a folder, and
`ERROR_HASFILES_FAILD` only if one was not; `FailedFiles` are those, as often as they were asked for. -/
theorem compress_tells_failures {items : List DirItem} {calls : List UpdateCall}
    {answers : List (UpdateCall × Answer)} {cb : UpdateCallback} {s s' : σ} {hr : ℤ}
    (hready : packer.Ready strName) (hhanded : (compress os packer strPak strName).1 = some items)
    (hcalls : (UpdateCallback.init items).calls api s calls = some (answers, cb, s'))
    (hupdate : packer.updateItems items = (hr, cb.failedFiles.length)) :
    cb.failedFiles = answers.filterMap (failedPath (.init items)) ∧
      ((compress os packer strPak strName).2 = errorOk ↔
        hr = sOk ∧ ∀ index, (UpdateCall.getStream index, Answer.inStream sFalse none) ∉ answers) ∧
      ((compress os packer strPak strName).2 = errorHasfilesFaild ↔
        hr = sOk ∧ ∃ index, (UpdateCall.getStream index, Answer.inStream sFalse none) ∈ answers) := by
  have hfiles : cb.failedFiles = answers.filterMap (failedPath (.init items)) := (calls_notes hcalls).files
  have hfailed := calls_failed_iff hcalls
  rw [compress_code hready hhanded, hupdate, ← hfailed, ← hfiles]
  have hnone : (∀ index, (UpdateCall.getStream index, Answer.inStream sFalse none) ∉ answers) ↔
      cb.failedFiles = [] := by
    rw [← not_exists, ← hfailed, ← hfiles, not_not]
  rw [hnone]
  dsimp only
  by_cases hok : hr = sOk
  · rw [if_neg (not_not.mpr hok)]
    cases hlist : cb.failedFiles with
    | nil => exact ⟨rfl, by simp [hok], by simp [errorOk, errorHasfilesFaild]⟩
    | cons file files => exact ⟨rfl, by simp [errorOk, errorHasfilesFaild], by simp [hok]⟩
  · rw [if_pos hok]
    exact ⟨rfl, by simp [hok, errorOk, errorCompressFaild], by simp [hok, errorHasfilesFaild, errorCompressFaild]⟩

end Reports

/-! ## Two of three files -/

/-- The folder `p` of a drive, with the files `f`, `g` and `h`. -/
def threeFiles : FileFind where
  place path := path.splitOn '\\'
  opens place := place = [['d', ':'], ['p']]
  items place :=
    if place = [['d', ':'], ['p']] then .file ['f'] [1] (.file ['g'] [2] (.file ['h'] [3, 4] .done)) else .done
  find path :=
    if path = ['d', ':', '\\', 'p', '\\', 'f'] then some ⟨0x20, 1, 11, 12, 13⟩
    else if path = ['d', ':', '\\', 'p', '\\', 'g'] then some ⟨0x20, 1, 21, 22, 23⟩
    else if path = ['d', ':', '\\', 'p', '\\', 'h'] then some ⟨0x21, 2, 31, 32, 33⟩
    else none

theorem threeFiles_fileAt {place p : List Path} (h : (threeFiles.items place).FileAt p) :
    place = [['d', ':'], ['p']] ∧ (p = [['f']] ∨ p = [['g']] ∨ p = [['h']]) := by
  unfold threeFiles at h
  dsimp only at h
  split at h
  next hplace => exact ⟨hplace, by simpa [Folder.FileAt] using h⟩
  next => exact absurd h id

theorem threeFiles_folderAt {place p : List Path} : ¬ (threeFiles.items place).FolderAt p := by
  intro h
  unfold threeFiles at h
  dsimp only at h
  split at h <;> exact absurd h id

theorem threeFiles_place {path : Path} (h : threeFiles.place path = [['d', ':'], ['p']]) :
    path = ['d', ':', '\\', 'p'] := by
  have hsplit : path.splitOn '\\' = [['d', ':'], ['p']] := h
  calc path = ['\\'].intercalate (path.splitOn '\\') := (List.intercalate_splitOn '\\').symm
    _ = ['\\'].intercalate [['d', ':'], ['p']] := by rw [hsplit]
    _ = ['d', ':', '\\', 'p'] := rfl

theorem threeFiles_laws : FileFindLaws threeFiles := by
  refine ⟨fun place => ?_, fun path p h => ?_, fun path p h => ?_⟩
  · unfold threeFiles
    dsimp only
    split
    · exact ⟨.of_plain (by decide), by decide, .of_plain (by decide), by decide, .of_plain (by decide), by decide,
        trivial⟩
    · trivial
  · obtain ⟨-, hp⟩ := threeFiles_fileAt (h.resolve_right fun hf => threeFiles_folderAt hf.1)
    rcases hp with rfl | rfl | rfl <;> exact List.splitOn_append_cons_self _ _
  · obtain ⟨hplace, hp⟩ := threeFiles_fileAt h
    obtain rfl := threeFiles_place hplace
    rcases hp with rfl | rfl | rfl <;> rfl

/-- What `Compress` hands over of them is `g` and `h`. -/
def secondFile : DirItem :=
  ⟨⟨0x20, 1, 21, 22, 23⟩, ['p', '\\', 'g'], ['d', ':', '\\', 'p', '\\', 'g']⟩

def thirdFile : DirItem :=
  ⟨⟨0x21, 2, 31, 32, 33⟩, ['p', '\\', 'h'], ['d', ':', '\\', 'p', '\\', 'h']⟩

/-- An archive of both, in the other order. -/
def bothArchive : InArchive where
  getProperty index propID :=
    (sOk, UpdateCallback.propertyOf (if index = 0 then thirdFile else secondFile) (.of propID))

def bothItems : List (Item Unit) := [⟨0, kExtract, id, [], kOk⟩, ⟨1, kExtract, id, [], kOk⟩]

def bothLibrary : Library Unit :=
  { damagedArchive with openArchive := fun _ _ => some (bothArchive, 3, bothItems) }

theorem bothArchive_holds : Holds bothArchive bothItems [secondFile, thirdFile] [1, 0] := by
  refine ⟨by decide, .cons ⟨rfl, fun propID => ⟨_, ?_, rfl⟩⟩ (.cons ⟨rfl, fun propID => ⟨_, ?_, rfl⟩⟩ .nil)⟩
  · cases propID <;> rfl
  · cases propID <;> rfl

theorem extraction_restores_both : ∃ kept : List DirItem,
    List.Forall₂ (fun index dirItem => [secondFile, thirdFile][index.toNat]? = some dirItem)
        [(1 : UInt32), 0] kept ∧
      (kept.map DirItem.name).Nodup ∧ (∀ d ∈ kept, ∃ p, StandsFor threeFiles ['d', ':', '\\', 'p'] d p) ∧
      (Session.drive obligingApi bothArchive 0 bothItems
        ((Session.start ['o'] (outputFolder obligingApi ['o'] ())).setTotal 3)).log.filter
          (fun entry => entry.2.lasting) = restoredAll ['o'] 0 0 kept := by
  have haccepted : Accepted (unCompress obligingApi bothLibrary ['a'] ['o'] ()) := .inr rfl
  exact extraction_restores threeFiles_laws (takesAll_ready ['a']) rfl rfl bothArchive_holds haccepted

/-- A disk on which only `g` can be opened. -/
def lockedApi : UpdateApi Unit where
  openRead _ path := (path = secondFile.fullPath, ())
  create _ _ := (false, ())
  getLastError _ := 32
  progress := none

/-- Both files are told of and asked for, `h` twice. -/
def mixedCalls : List UpdateCall :=
  [.setTotal 3, .getUpdateItemInfo 1, .getProperty 1 (.of .path), .getStream 1, .getStream 0, .setCompleted 1,
    .setOperationResult kOk, .getProperty 0 .cTime, .getStream 1]

theorem compress_tells_failures_locked :
    (compress threeFiles { takesAll with updateItems := fun _ => (sOk, 2) } ['d', ':', '\\', 'p'] ['a']).2 =
        errorHasfilesFaild ∧
      ∃ answers cb, (UpdateCallback.init [secondFile, thirdFile]).calls lockedApi () mixedCalls =
          some (answers, cb, ()) ∧
        cb.failedFiles = [thirdFile.fullPath, thirdFile.fullPath] ∧
        (.getStream 0, .inStream sOk (some secondFile.fullPath)) ∈ answers := by
  have hready : Packer.Ready { takesAll with updateItems := fun _ => (sOk, 2) } ['a'] :=
    ⟨rfl, rfl, rfl, rfl, rfl⟩
  obtain ⟨⟨answers, cb, s⟩, hcalls⟩ : ∃ r,
      (UpdateCallback.init [secondFile, thirdFile]).calls lockedApi () mixedCalls = some r := ⟨_, rfl⟩
  have hruns := hcalls
  cases hruns
  have hhanded : (compress threeFiles { takesAll with updateItems := fun _ => (sOk, 2) }
      ['d', ':', '\\', 'p'] ['a']).1 = some [secondFile, thirdFile] := rfl
  obtain ⟨hfiles, -, hcode⟩ := compress_tells_failures hready hhanded hcalls rfl
  exact ⟨hcode.mpr ⟨rfl, 1, by decide⟩, _, _, hcalls, hfiles, by decide⟩

end AppUtil.SevenZip
