import AppUtil.Zip.Directories

/-! # Which entries `UnCompress` has handled

`CreatedMultipleDirectory` says `false` of a folder that is there, and the loop is left with `ZIP_OK`. -/
namespace AppUtil.Zip
open AppUtil.Lib
set_option autoImplicit false

section Visiting
variable {σ : Type} (ops : FileOps σ)

/-- What is done with the file of an entry: `written` are the buffers that are in it. -/
structure Visit where
  entry : UnzEntry
  existed : Bool
  deleted : Bool
  opened : Bool
  written : List Bytes
  deriving DecidableEq, Repr

/-- The buffers that `writeLoop` writes without an error. -/
def writtenBuffers (path : Path) : List Bytes → σ → List Bytes
  | [], _ => []
  | szBuf :: rest, s =>
    let (good, s) := ops.fwrite s path szBuf
    if good then szBuf :: writtenBuffers path rest s else []

/-- One pass of the loop over the entries. It ends with a code where the loop is left. -/
def visitEntry (strZipFilePath : Path) (iFlag : ℤ) (s : σ) (e : UnzEntry) :
    Visit × Except Fault (Option ℤ × σ) :=
  let strOutFilePath := outFilePath strZipFilePath e
  match entryFolder ops (beforeLast strOutFilePath) s with
  | (some iRet, s) => (⟨e, false, false, false, []⟩, .ok (some iRet, s))
  | (none, s) =>
    let there := ops.accessFile s strOutFilePath
    if there ∧ iFlag = zipFileSkip then (⟨e, true, false, false, []⟩, .ok (none, s))
    else
      let s := if there then ops.deleteFile s strOutFilePath else s
      match ops.create s strOutFilePath with
      | none => (⟨e, there, there, false, []⟩, .error .nullFile)
      | some s =>
        let visit : Visit := ⟨e, there, there, true, writtenBuffers ops strOutFilePath e.buffers s⟩
        match writeLoop ops strOutFilePath e.fails e.buffers s with
        | .error f => (visit, .error f)
        | .ok (iRet, s) => (visit, .ok (if iRet ≠ zipOk then some iRet else none, s))

/-- The loop: what is done with each entry it comes to, and how it ends. -/
def visits (strZipFilePath : Path) (iFlag : ℤ) : List UnzEntry → σ → List Visit × Except Fault (ℤ × σ)
  | [], s => ([], .ok (zipOk, s))
  | e :: rest, s =>
    match visitEntry ops strZipFilePath iFlag s e with
    | (visit, .error f) => ([visit], .error f)
    | (visit, .ok (some iRet, s)) => ([visit], .ok (iRet, s))
    | (visit, .ok (none, s)) =>
      let (more, r) := visits strZipFilePath iFlag rest s
      (visit :: more, r)

/-- A pass after which the loop goes on. -/
def pass (strZipFilePath : Path) (iFlag : ℤ) (s : σ) (e : UnzEntry) : Except Unit σ :=
  match (visitEntry ops strZipFilePath iFlag s e).2 with
  | .ok (none, s) => .ok s
  | _ => .error ()

/-- This is the loop of `UnCompress`. -/
theorem visits_eq (dst : Path) (iFlag : ℤ) (entries : List UnzEntry) (s : σ) :
    (visits ops dst iFlag entries s).2 = (unCompressLoop ops dst iFlag entries s).2 := by
  induction entries generalizing s with
  | nil => rfl
  | cons e rest ih =>
    unfold visits unCompressLoop visitEntry
    dsimp only
    rcases entryFolder ops (beforeLast (outFilePath dst e)) s with ⟨_ | iRet, s₁⟩
    · dsimp only
      by_cases hskip : ops.accessFile s₁ (outFilePath dst e) = true ∧ iFlag = zipFileSkip
      · simp only [if_pos hskip, ih]
      · simp only [if_neg hskip]
        cases ops.create (if ops.accessFile s₁ (outFilePath dst e) = true then
          ops.deleteFile s₁ (outFilePath dst e) else s₁) (outFilePath dst e) with
        | none => rfl
        | some s₂ =>
          dsimp only
          cases writeLoop ops (outFilePath dst e) e.fails e.buffers s₂ with
          | error f => rfl
          | ok r =>
            by_cases hok : r.1 = zipOk
            · simp [hok, ih]
            · simp [hok]
    · rfl

end Visiting

/-! ## One pass -/

section Pass
variable {σ : Type} {ops : FileOps σ} {dst path : Path} {iFlag : ℤ} {e : UnzEntry} {s s' : σ}

/-- The file was written as a whole, or it was there and the flag says to leave it alone. -/
def Visit.Handled (iFlag : ℤ) (v : Visit) : Prop :=
  (v.opened = true ∧ v.written = v.entry.buffers ∧ v.entry.fails = false) ∨
    (v.existed = true ∧ iFlag = zipFileSkip ∧ v.deleted = false ∧ v.opened = false)

/-- The folder of the entry is not there, or `CreatedMultipleDirectory` does not say `false` of it. -/
def FolderPasses (ops : FileOps σ) (dst : Path) (s : σ) (e : UnzEntry) : Prop :=
  ops.accessFile s (beforeLast (outFilePath dst e)) = true →
    ∀ s', createdMultipleDirectory ops (beforeLast (outFilePath dst e)) s ≠ .ok (false, s')

theorem writeLoop_ok {fails : Bool} {bufs : List Bytes}
    (h : writeLoop ops path fails bufs s = .ok (zipOk, s')) :
    writtenBuffers ops path bufs s = bufs ∧ fails = false := by
  induction bufs generalizing s with
  | nil =>
    unfold writeLoop at h
    cases fails with
    | true => cases h
    | false => exact ⟨rfl, rfl⟩
  | cons szBuf rest ih =>
    unfold writeLoop at h
    unfold writtenBuffers
    dsimp only at h ⊢
    cases hgood : (ops.fwrite s path szBuf).1 with
    | true =>
      rw [hgood] at h
      obtain ⟨hall, hfails⟩ := ih h
      exact ⟨by rw [if_pos rfl, hall], hfails⟩
    | false =>
      rw [hgood] at h
      cases h

/-- The loop is left with `ZIP_OK` only for a folder that is there. -/
theorem entryFolder_left_iff (ops : FileOps σ) (dst : Path) (e : UnzEntry) (s : σ) :
    (∃ s', entryFolder ops (beforeLast (outFilePath dst e)) s = (some zipOk, s')) ↔
    ¬ FolderPasses ops dst s e := by
  unfold FolderPasses entryFolder
  cases hthere : ops.accessFile s (beforeLast (outFilePath dst e)) with
  | false => simp
  | true =>
    simp only [if_true]
    have hne : zipStateErr ≠ zipOk := by decide
    cases createdMultipleDirectory ops (beforeLast (outFilePath dst e)) s with
    | error f => simp [hne]
    | ok r =>
      obtain ⟨_ | _, s₁⟩ := r <;> simp

/-- How one pass ends: it goes on with the entry handled, it leaves the loop with `ZIP_OK` because of
the folder, or it leaves it otherwise. -/
theorem visitEntry_cases (ops : FileOps σ) (dst : Path) (iFlag : ℤ) (s : σ) (e : UnzEntry) :
    (visitEntry ops dst iFlag s e).1.entry = e ∧
      ((∃ s', (visitEntry ops dst iFlag s e).2 = .ok (none, s') ∧
          (visitEntry ops dst iFlag s e).1.Handled iFlag ∧ FolderPasses ops dst s e) ∨
        (∃ s', (visitEntry ops dst iFlag s e).2 = .ok (some zipOk, s') ∧
          ¬ (visitEntry ops dst iFlag s e).1.Handled iFlag ∧ ¬ FolderPasses ops dst s e) ∨
        (FolderPasses ops dst s e ∧ ((∃ f, (visitEntry ops dst iFlag s e).2 = .error f) ∨
          ∃ iRet s', iRet ≠ zipOk ∧ (visitEntry ops dst iFlag s e).2 = .ok (some iRet, s')))) := by
  have hleft := entryFolder_left_iff ops dst e s
  unfold visitEntry
  dsimp only
  rcases hfolder : entryFolder ops (beforeLast (outFilePath dst e)) s with ⟨_ | iRet, s₁⟩
  · have hpass : FolderPasses ops dst s e := by
      by_contra hnot
      obtain ⟨s', h⟩ := hleft.mpr hnot
      rw [hfolder] at h
      cases h
    dsimp only
    by_cases hskip : ops.accessFile s₁ (outFilePath dst e) = true ∧ iFlag = zipFileSkip
    · rw [if_pos hskip]
      exact ⟨rfl, .inl ⟨s₁, rfl, .inr ⟨rfl, hskip.2, rfl, rfl⟩, hpass⟩⟩
    · rw [if_neg hskip]
      split
      next => exact ⟨rfl, .inr (.inr ⟨hpass, .inl ⟨_, rfl⟩⟩)⟩
      next s₂ _ =>
        cases hwrite : writeLoop ops (outFilePath dst e) e.fails e.buffers s₂ with
        | error f => exact ⟨rfl, .inr (.inr ⟨hpass, .inl ⟨f, rfl⟩⟩)⟩
        | ok r =>
          obtain ⟨iRet, s₃⟩ := r
          by_cases hok : iRet = zipOk
          · subst hok
            obtain ⟨hall, hfails⟩ := writeLoop_ok hwrite
            exact ⟨rfl, .inl ⟨s₃, rfl, .inl ⟨rfl, hall, hfails⟩, hpass⟩⟩
          · exact ⟨rfl, .inr (.inr ⟨hpass, .inr ⟨iRet, s₃, hok, by simp [hok]⟩⟩)⟩
  · refine ⟨rfl, .inr ?_⟩
    by_cases hok : iRet = zipOk
    · subst hok
      refine .inl ⟨s₁, rfl, ?_, hleft.mp ⟨s₁, hfolder⟩⟩
      rintro (⟨h, -⟩ | ⟨h, -⟩) <;> cases h
    · refine .inr ⟨?_, .inr ⟨iRet, s₁, hok, rfl⟩⟩
      by_contra hnot
      obtain ⟨s', h⟩ := hleft.mpr hnot
      rw [hfolder] at h
      cases h
      exact hok rfl

end Pass

/-! ## The loop -/

section Loop
variable {σ : Type} {ops : FileOps σ} {dst : Path} {iFlag : ℤ} {entries : List UnzEntry} {s : σ}

/-- If the loop ends with `ZIP_OK`, it has come to each entry once, in order, and has handled it. -/
def AllHandled (ops : FileOps σ) (dst : Path) (iFlag : ℤ) (entries : List UnzEntry) (s : σ) : Prop :=
  ∀ s', (visits ops dst iFlag entries s).2 = .ok (zipOk, s') →
    (visits ops dst iFlag entries s).1.map Visit.entry = entries ∧
      ∀ v ∈ (visits ops dst iFlag entries s).1, v.Handled iFlag

theorem allHandled_iff_meets : AllHandled ops dst iFlag entries s ↔
    Meets (pass ops dst iFlag) (FolderPasses ops dst) s entries := by
  induction entries generalizing s with
  | nil => exact ⟨fun _ => trivial, fun _ s' _ => ⟨rfl, fun v hv => absurd hv List.not_mem_nil⟩⟩
  | cons e rest ih =>
    obtain ⟨hentry, hcases⟩ := visitEntry_cases ops dst iFlag s e
    unfold AllHandled visits Meets pass
    generalize visitEntry ops dst iFlag s e = result at hentry hcases ⊢
    obtain ⟨v, r⟩ := result
    rcases hcases with ⟨s', hr, hv, hpass⟩ | ⟨s', hr, hv, hpass⟩ | ⟨hpass, hr⟩
    · -- the loop goes on
      obtain rfl : r = .ok (none, s') := hr
      have hrest := @ih s'
      unfold AllHandled at hrest
      simp only [List.map_cons, List.mem_cons, forall_eq_or_imp, Except.ok.injEq, forall_eq']
      constructor
      · intro h
        refine ⟨hpass, hrest.mp fun t ht => ?_⟩
        obtain ⟨hmap, -, hall⟩ := h t ht
        exact ⟨(List.cons.inj hmap).2, hall⟩
      · rintro ⟨-, hm⟩ t ht
        obtain ⟨hmap, hall⟩ := hrest.mpr hm t ht
        exact ⟨congrArg₂ List.cons hentry hmap, hv, hall⟩
    · -- it is left with `ZIP_OK`
      obtain rfl : r = .ok (some zipOk, s') := hr
      refine iff_of_false (fun h => ?_) fun h => hpass h.1
      exact hv ((h s' rfl).2 v (List.mem_singleton.mpr rfl))
    · -- it is left, and not with `ZIP_OK`
      rcases hr with ⟨f, rfl⟩ | ⟨iRet, s', hne, rfl⟩
      · exact iff_of_true (fun t ht => by cases ht) ⟨hpass, fun t ht => by cases ht⟩
      · refine iff_of_true (fun t ht => ?_) ⟨hpass, fun t ht => by cases ht⟩
        exact absurd (congrArg Prod.fst (Except.ok.inj ht)) hne

/-- Where nobody else changes anything this is: the folder is not there. -/
theorem folderPasses_iff (laws : FolderLaws ops) {e : UnzEntry} :
    FolderPasses ops dst s e ↔ ops.accessFile s (beforeLast (outFilePath dst e)) = false := by
  constructor
  · intro hpass
    by_contra hthere
    rw [Bool.not_eq_false] at hthere
    have hne : beforeLast (outFilePath dst e) ≠ [] := by
      intro hnil
      rw [hnil, (laws.empty s).1] at hthere
      cases hthere
    refine hpass hthere (makeDirs ops false (vPathOf (beforeLast (outFilePath dst e))) s).2 ?_
    rw [createdMultipleDirectory_eq hne]
    exact congrArg Except.ok (Prod.ext (makeDirs_denies laws hthere) rfl)
  · intro habsent hthere
    rw [habsent] at hthere
    cases hthere

/-- On a disk that only this code changes: no folder is there when the loop comes to its entry. -/
theorem allHandled_iff_absent (laws : FolderLaws ops) : AllHandled ops dst iFlag entries s ↔
    Meets (pass ops dst iFlag) (fun s e => ops.accessFile s (beforeLast (outFilePath dst e)) = false) s entries :=
  allHandled_iff_meets.trans (Meets.congr fun _ _ => folderPasses_iff laws)

/-- **When a `ZIP_OK` of the loop means that every entry was handled**: in each pass it takes the folder
of the entry is not there, or `CreatedMultipleDirectory` does not say `false` of it. -/
theorem allHandled_iff : AllHandled ops dst iFlag entries s ↔
    Meets (pass ops dst iFlag) (FolderPasses ops dst) s entries :=
  allHandled_iff_meets

end Loop

/-- An archive with a single file, and the output folder is there: `ZIP_OK`, and the file is neither
written nor left alone. -/
theorem unCompressLoop_left : (visits (folders (fun _ => true)) ['d'] zipFileReplace
      [⟨['f'], [], [[1]], false⟩] [['d']]).2 = .ok (zipOk, [['d']]) ∧
    ¬ AllHandled (folders (fun _ => true)) ['d'] zipFileReplace [⟨['f'], [], [[1]], false⟩] [['d']] := by
  have hrun : visits (folders (fun _ => true)) ['d'] zipFileReplace [⟨['f'], [], [[1]], false⟩] [['d']] =
      ([⟨⟨['f'], [], [[1]], false⟩, false, false, false, []⟩], .ok (zipOk, [['d']])) := by decide
  refine ⟨congrArg Prod.snd hrun, fun h => ?_⟩
  obtain ⟨-, hall⟩ := h _ (congrArg Prod.snd hrun)
  rw [hrun] at hall
  rcases hall _ (List.mem_singleton.mpr rfl) with ⟨h, -⟩ | ⟨h, -⟩ <;> cases h

end AppUtil.Zip
