import AppUtil.SevenZip.Folders

/-! # Where extraction writes

Neither extractor looks at the names in the archive: it stays in the output folder exactly when they
do. -/
namespace AppUtil.SevenZip
open AppUtil.Lib AppUtil.Zip ExtractCallback
set_option autoImplicit false

/-- Everything `GetStream` creates, deletes or opens is in the folder, which is there. -/
def StreamsInside (dir : Path) (archive : InArchive) : Prop :=
  ∀ (σ : Type) (api : FileApi σ), Provides api dir →
    ∀ (index : UInt32) (askExtractMode : ℤ) (cb : ExtractCallback) (s : σ),
      ∀ e ∈ (getStream api archive index askExtractMode (cb.init dir) s).effects,
        Paths.Inside windows dir e.path

/-- The name does not lead out of the folder. Without one it is a path of its own. -/
def StaysIn (dir name : Path) : Prop :=
  if dir = [] then Paths.Inside windows [] name else Paths.Stays windows dir name

instance (dir name : Path) : Decidable (StaysIn dir name) := inferInstanceAs (Decidable (ite ..))

/-- The name stays in the folder, and so does its folder part, with what `CreateComplexDirectory` tries
on the way from there to `dir`. -/
structure ItemStays (dir name : Path) : Prop where
  whole : StaysIn dir name
  folder : '\\' ∈ name → StaysIn dir (beforeLast name)
  above : '\\' ∈ name → ∀ p ∈ approach dir (normalizeDirPathPrefix dir ++ beforeLast name),
    Paths.Inside windows dir p

/-- The item has a name, and `GetStream` accepts its other properties. -/
def Extracts (archive : InArchive) (index : UInt32) (name : Path) : Prop :=
  readPath archive index = .ok name ∧ ∃ info, ((readInfo archive index).run.run info).1 = .ok ()

theorem inside_normalize_iff {dir name : Path} :
    Paths.Inside windows dir (normalizeDirPathPrefix dir ++ name) ↔ StaysIn dir name := by
  rw [normalizeDirPathPrefix, StaysIn]
  split
  next h =>
    subst h
    rfl
  next =>
    split
    next h => exact Paths.inside_append_of_ends_iff h rfl
    next =>
      rw [List.append_assoc, List.singleton_append]
      exact Paths.inside_append_sep_iff rfl

/-! ## The effects of `GetStream` -/

/-- The callback when the properties of an item have been read. -/
def item (cb : ExtractCallback) (name : Path) (info : ProcessedFileInfo) : ExtractCallback :=
  { cb with outFileStream := none, filePath := name, processedFileInfo := info }

section Effects
variable {σ : Type} {api : FileApi σ} {archive : InArchive} {index : UInt32} {cb : ExtractCallback} {s : σ}

theorem exists_of_getStream {askExtractMode : ℤ} {e : Effect}
    (he : e ∈ (getStream api archive index askExtractMode cb s).effects) :
    ∃ name info, Extracts archive index name ∧ e ∈ (createItem api (item cb name info) s).effects := by
  unfold getStream at he
  dsimp only at he
  split at he
  next => cases he
  next name hname =>
    split at he
    next => cases he
    next =>
      split at he
      next => cases he
      next info hinfo => exact ⟨name, info, ⟨hname, cb.processedFileInfo, by rw [hinfo]⟩, he⟩

theorem getStream_of_extracts {name : Path} {info : ProcessedFileInfo}
    (hname : readPath archive index = .ok name)
    (hinfo : (readInfo archive index).run.run cb.processedFileInfo = (.ok (), info)) :
    getStream api archive index kExtract cb s = createItem api (item cb name info) s := by
  unfold getStream
  simp only [hname, ne_eq, not_true_eq_false, if_false, hinfo]
  rfl

variable (api) in
/-- A file that is there is deleted first; where that fails it is all. -/
theorem openOutput_effects (cb : ExtractCallback) (path : Path) (s : σ) :
    (cb.openOutput api path s).effects = [.deleteFileAlways path] ∨
      ∃ stream, (cb.openOutput api path s).effects = [.deleteFileAlways path, .openAlways stream path] ∨
        (cb.openOutput api path s).effects = [.openAlways stream path] := by
  unfold openOutput
  cases hfind : (api.find s path).isSome with
  | false =>
    right
    refine ⟨cb.streams, .inr ?_⟩
    cases hopen : api.openAlways s path <;> simp [hopen]
  | true =>
    cases hdelete : api.deleteFileAlways s path with
    | mk fine s₁ =>
      cases fine with
      | false =>
        left
        simp
      | true =>
        right
        refine ⟨cb.streams, .inl ?_⟩
        cases hopen : api.openAlways s₁ path <;> simp [hopen]

theorem path_of_openOutput {path : Path} {e : Effect} (he : e ∈ (cb.openOutput api path s).effects) :
    e.path = path := by
  rcases openOutput_effects api cb path s with h | ⟨stream, h | h⟩
  · rw [h] at he
    rw [List.mem_singleton.mp he, Effect.path]
  · rw [h] at he
    rcases List.mem_cons.mp he with rfl | he
    · rfl
    · rw [List.mem_singleton.mp he, Effect.path]
  · rw [h] at he
    rw [List.mem_singleton.mp he, Effect.path]

theorem openOutput_ne_nil {path : Path} : (cb.openOutput api path s).effects ≠ [] := by
  rcases openOutput_effects api cb path s with h | ⟨stream, h | h⟩ <;> simp [h]

theorem createComplexDirectory_self (path : Path) :
    .createComplexDirectory path ∈ (createComplexDirectory api path s).1 := by
  unfold createComplexDirectory
  split
  · exact List.mem_cons_self ..
  · dsimp only
    split
    · exact List.mem_cons_self ..
    · exact List.mem_append_left _ (List.mem_cons_self ..)

/-- Where the effects of an item come from. -/
theorem mem_createItem {e : Effect} : e ∈ (createItem api cb s).effects ↔
    e ∈ (cb.createFolders api s).1 ∨
      e ∈ if cb.processedFileInfo.isDir then
          (createComplexDirectory api (cb.directoryPath ++ cb.filePath) (cb.createFolders api s).2).1
        else
          (({ cb with diskFilePath := cb.directoryPath ++ cb.filePath } : ExtractCallback).openOutput api
            (cb.directoryPath ++ cb.filePath) (cb.createFolders api s).2).effects := by
  cases hdir : cb.processedFileInfo.isDir <;> simp [createItem, hdir]

theorem createFolders_of_slash (h : '\\' ∈ cb.filePath) : (cb.createFolders api s).1 =
    (createComplexDirectory api (cb.directoryPath ++ beforeLast cb.filePath) s).1 := by
  rw [createFolders, if_pos h]

theorem createItem_inside {dir : Path} (hapi : Provides api dir)
    (hdir : cb.directoryPath = normalizeDirPathPrefix dir) (hitem : ItemStays dir cb.filePath)
    {e : Effect} (he : e ∈ (createItem api cb s).effects) : Paths.Inside windows dir e.path := by
  have hwhole : Paths.Inside windows dir (cb.directoryPath ++ cb.filePath) := by
    rw [hdir]
    exact inside_normalize_iff.mpr hitem.whole
  have hfolder : '\\' ∈ cb.filePath →
      Paths.Inside windows dir (cb.directoryPath ++ beforeLast cb.filePath) := fun h => by
    rw [hdir]
    exact inside_normalize_iff.mpr (hitem.folder h)
  have habove := hitem.above
  rw [← hdir] at habove
  rcases mem_createItem.mp he with he | he
  · by_cases hslash : '\\' ∈ cb.filePath
    · rw [createFolders_of_slash hslash] at he
      exact createComplexDirectory_inside hapi (hfolder hslash) (habove hslash) he
    · rw [createFolders, if_neg hslash] at he
      cases he
  · split at he
    · refine createComplexDirectory_inside hapi hwhole (fun q hq => ?_) he
      rw [hdir] at hq
      rcases mem_approach_full hq with h | ⟨hslash, -, -, h | h⟩
      · rw [h, ← hdir]
        exact hwhole
      · rw [h, ← hdir]
        exact hfolder hslash
      · rw [← hdir] at h
        exact habove hslash q h
    · rw [path_of_openOutput he]
      exact hwhole

variable (api cb s) in
theorem exists_createItem :
    ∃ e ∈ (createItem api cb s).effects, e.path = cb.directoryPath ++ cb.filePath := by
  by_cases hdir : cb.processedFileInfo.isDir = true
  · refine ⟨.createComplexDirectory (cb.directoryPath ++ cb.filePath), mem_createItem.mpr (.inr ?_), rfl⟩
    rw [if_pos hdir]
    exact createComplexDirectory_self _
  · obtain ⟨e, he⟩ := List.exists_mem_of_ne_nil (({ cb with
      diskFilePath := cb.directoryPath ++ cb.filePath } : ExtractCallback).openOutput api
        (cb.directoryPath ++ cb.filePath) (cb.createFolders api s).2).effects openOutput_ne_nil
    refine ⟨e, mem_createItem.mpr (.inr ?_), path_of_openOutput he⟩
    rw [if_neg hdir]
    exact he

end Effects

/-- **`GetStream` stays in its folder** exactly when every item's name does. -/
theorem getStream_inside_iff {dir : Path} {archive : InArchive} :
    StreamsInside dir archive ↔ ∀ index name, Extracts archive index name → ItemStays dir name := by
  constructor
  · rintro h index name ⟨hname, info, hinfo⟩
    obtain ⟨cb, rfl⟩ : ∃ cb : ExtractCallback, cb.processedFileInfo = info :=
      ⟨⟨[], [], [], info, none, none, 0⟩, rfl⟩
    obtain ⟨info', hread⟩ : ∃ info', (readInfo archive index).run.run (cb.init dir).processedFileInfo =
        (.ok (), info') := ⟨_, Prod.ext hinfo rfl⟩
    -- on the file system in which every folder before the output folder is tried
    have hall : ∀ e ∈ (createItem (refusing dir) (item (cb.init dir) name info') ()).effects,
        Paths.Inside windows dir e.path := by
      rw [← getStream_of_extracts hname hread]
      exact h Unit (refusing dir) (refusing_provides dir) index kExtract cb ()
    obtain ⟨e, he, hpath⟩ := exists_createItem (refusing dir) (item (cb.init dir) name info') ()
    have hfolder : '\\' ∈ name → ∀ e' ∈ (createComplexDirectory (refusing dir)
        (normalizeDirPathPrefix dir ++ beforeLast name) ()).1, Paths.Inside windows dir e'.path := by
      intro hslash e' he'
      refine hall e' (mem_createItem.mpr (.inl ?_))
      rw [createFolders_of_slash hslash]
      exact he'
    refine ⟨inside_normalize_iff.mp ?_, fun hslash => inside_normalize_iff.mp ?_, fun hslash p hp => ?_⟩
    · have hin := hall e he
      rw [hpath] at hin
      exact hin
    · exact hfolder hslash _ (createComplexDirectory_self _)
    · exact hfolder hslash _ (createComplexDirectory_refusing hp)
  · intro h σ api hapi index askExtractMode cb s e he
    obtain ⟨name, info, hname, he⟩ := exists_of_getStream he
    exact createItem_inside hapi rfl (h index name hname) he

/-- **Extraction stays in the output folder** exactly when the names in the archive do. -/
theorem extraction_inside_iff (dir : Path) (entries : List UnzEntry) (archive : InArchive) :
    (LoopInside dir entries ↔ ∀ e ∈ entries, Paths.Stays windows dir e.szFilePath) ∧
      (StreamsInside dir archive ↔ ∀ index name, Extracts archive index name → ItemStays dir name) :=
  ⟨unCompressLoop_inside_iff, getStream_inside_iff⟩

/-- The one entry `..\x`, and no other properties. -/
def parentArchive : InArchive :=
  ⟨fun _ propID => (sOk, if propID = .path then .bstr ['.', '.', '\\', 'x'] else .empty)⟩

theorem parentArchive_escapes :
    ¬ LoopInside "out".toList [⟨['.', '.', '\\', 'x'], [], [], false⟩] ∧
      ¬ StreamsInside "out".toList parentArchive := by
  have hstays : ¬ Paths.Stays windows "out".toList ['.', '.', '\\', 'x'] := by decide
  refine ⟨fun h => ?_, fun h => ?_⟩
  · exact hstays (unCompressLoop_inside_iff.mp h _ (List.mem_singleton_self _))
  · have hitem := getStream_inside_iff.mp h 0 ['.', '.', '\\', 'x'] ⟨rfl, ⟨0, 0, false, false, false⟩, rfl⟩
    exact hstays hitem.whole

end AppUtil.SevenZip
