import Mathlib.Order.Basic
import AppUtil.Lib.HandleLogs
import AppUtil.Zip.ZipTools

/-! # Which handles `UnCompress` closes

The archive, the entry that is open in it and the file that is written are three handles. `UnCompress`
does not look at what `unzOpenCurrentFile` and `fopen` return, and an exception goes past `unzClose`. -/
namespace AppUtil.Zip
open AppUtil.Lib
set_option autoImplicit false

/-- What `unzOpen64`, `unzOpenCurrentFile` and `fopen` return; entries and streams are told apart by the
pass of the loop. -/
inductive UnzHandle where
  | archive
  | entry (i : ℕ)
  | stream (i : ℕ)
  deriving DecidableEq, Repr

abbrev UnzCall := Lifetime.Event UnzHandle

/-- An entry, and whether `unzOpenCurrentFile` opens it. -/
structure UnzItem where
  entry : UnzEntry
  opens : Bool
  deriving DecidableEq, Repr

/-- What the reads then find: without an open entry the first of them fails. -/
def UnzItem.read (item : UnzItem) : UnzEntry :=
  if item.opens then item.entry else { item.entry with buffers := [], fails := true }

/-- What `unzOpen64` and `unzGetGlobalInfo64` find, with what can be opened of it. -/
structure UnzArchive where
  info : Bool
  items : List UnzItem

def UnzArchive.file (unzFp : UnzArchive) : UnzFile := ⟨unzFp.info, unzFp.items.map UnzItem.read⟩

/-- How the loop is left: with a code, or with an exception. -/
inductive LoopEnd (σ : Type) where
  | code (iRet : ℤ) (s : σ)
  | thrown (s : σ)

/-- What `UnCompress` returns then. -/
def LoopEnd.returned {σ : Type} : LoopEnd σ → ℤ × σ
  | .code iRet s => (iRet, s)
  | .thrown s => (zipStateErr, s)

/-! ## The calls -/

section Calls
variable {σ : Type} (ops : FileOps σ)

/-- `entryFolder`, with the exception told from a code. -/
def entryFolderOutcome (strTempFilePath : Path) (s : σ) : Except (LoopEnd σ) σ :=
  if ops.accessFile s strTempFilePath then
    match createdMultipleDirectory ops strTempFilePath s with
    | .error _ => .error (.thrown s)
    | .ok (false, s) => .error (.code zipOk s)
    | .ok (true, s) => .ok s
  else .ok s

/-- `writeLoop` with its calls. -/
def writeLoopCalls (i : ℕ) (path : Path) (fails : Bool) : List Bytes → σ → Logged UnzCall Fault (ℤ × σ)
  | [], s => do
    Logged.step (.used (.entry i)) (.ok ())
    if fails then Logged.step (.used (.stream i)) (.error .overrun) else pure (zipOk, s)
  | szBuf :: rest, s => do
    Logged.step (.used (.entry i)) (.ok ())
    let (good, s) ← Logged.step (.used (.stream i)) (.ok (ops.fwrite s path szBuf))
    if good then writeLoopCalls i path fails rest s else pure (zipStateIoError, s)

/-- One entry from `unzOpenCurrentFile` to `unzGoToNextFile`. With a NULL stream `fwrite` is called, or
`fclose`. -/
def extractCalls (i : ℕ) (path : Path) (item : UnzItem) (s : σ) : Logged UnzCall Fault (ℤ × σ) := do
  Logged.step (if item.opens then .born (.entry i) (some .archive) else .used .archive) (.ok ())
  match ops.create s path with
  | none => do
    Logged.step (.used (.entry i)) (.ok ())
    Logged.step (.used (.stream i)) (.error .nullFile)
  | some s => do
    Logged.step (.born (.stream i) none) (.ok ())
    let (iRet, s) ← writeLoopCalls ops i path item.read.fails item.read.buffers s
    Logged.step (.died (.stream i)) (.ok ())
    Logged.step (.died (.entry i)) (.ok ())
    Logged.step (.used .archive) (.ok ())
    pure (iRet, s)

/-- `unCompressLoop` with its calls. -/
def unCompressLoopCalls (strZipFilePath : Path) (iFlag : ℤ) :
    ℕ → List UnzItem → σ → Logged UnzCall Fault (LoopEnd σ)
  | _, [], s => pure (.code zipOk s)
  | i, item :: rest, s => do
    Logged.step (.used .archive) (.ok ())
    let strOutFilePath := outFilePath strZipFilePath item.read
    match entryFolderOutcome ops (beforeLast strOutFilePath) s with
    | .error ended => pure ended
    | .ok s =>
      let there := ops.accessFile s strOutFilePath
      if there ∧ iFlag = zipFileSkip then do
        Logged.step (.used .archive) (.ok ())
        unCompressLoopCalls strZipFilePath iFlag (i + 1) rest s
      else do
        let s := if there then ops.deleteFile s strOutFilePath else s
        let (iRet, s) ← extractCalls ops i strOutFilePath item s
        if iRet ≠ zipOk then pure (.code iRet s)
        else unCompressLoopCalls strZipFilePath iFlag (i + 1) rest s

/-- `unzClose` behind the loop. -/
def closeArchiveCall : LoopEnd σ → Logged UnzCall Fault (ℤ × σ)
  | .code iRet s => Logged.step (.died .archive) (.ok (iRet, s))
  | .thrown s => pure (zipStateErr, s)

/-- The `try` of `UnCompress`. `unzClose` does nothing with NULL. -/
def readArchiveCalls (unzOpen64 : σ → Path → Option UnzArchive) (strSrcDir strDstDir : Path) (iFlag : ℤ)
    (s : σ) : Logged UnzCall Fault (ℤ × σ) :=
  match unzOpen64 s strSrcDir with
  | none => pure (zipStateIoError, s)
  | some unzFp => do
    Logged.step (.born .archive none) (.ok ())
    Logged.step (.used .archive) (.ok ())
    if unzFp.info = false then closeArchiveCall (.code zipStateIoError s)
    else do
      let ended ← unCompressLoopCalls ops strDstDir iFlag 0 unzFp.items s
      closeArchiveCall ended

/-- `unCompress` with its calls. -/
def unCompressCalls (unzOpen64 : σ → Path → Option UnzArchive) (strSrcDir strDstDir : Option Path)
    (iFlag : ℤ) (s : σ) : Logged UnzCall Fault (ℤ × σ) :=
  match strSrcDir, strDstDir with
  | some strSrcDir, some strDstDir =>
    if ops.accessFile s strSrcDir then pure (zipStateFileNotFound, s)
    else do
      let (bSuccess, s) ← Logged.lift (if ops.accessFile s strDstDir then
        createdMultipleDirectory ops strDstDir s else pure (true, s))
      if bSuccess = false then pure (zipStateErr, s)
      else readArchiveCalls ops unzOpen64 strSrcDir strDstDir iFlag s
  | _, _ => pure (zipStateErr, s)

/-! ## What it does not look at -/

/-- Every pass of the loop that extracts an entry can open it, and can make its file. -/
def LoopOpens (strZipFilePath : Path) (iFlag : ℤ) : List UnzItem → σ → Prop
  | [], _ => True
  | item :: rest, s =>
    let strOutFilePath := outFilePath strZipFilePath item.read
    ∀ s₁, entryFolder ops (beforeLast strOutFilePath) s = (none, s₁) →
      let there := ops.accessFile s₁ strOutFilePath
      if there ∧ iFlag = zipFileSkip then LoopOpens strZipFilePath iFlag rest s₁
      else item.opens = true ∧
        ∃ s₂, ops.create (if there then ops.deleteFile s₁ strOutFilePath else s₁) strOutFilePath = some s₂ ∧
          ∀ s₃, writeLoop ops strOutFilePath item.read.fails item.read.buffers s₂ = .ok (zipOk, s₃) →
            LoopOpens strZipFilePath iFlag rest s₃

/-- The same of the whole of `UnCompress`. -/
def OpensAll (unzOpen64 : σ → Path → Option UnzArchive) (strSrcDir strDstDir : Option Path) (iFlag : ℤ)
    (s : σ) : Prop :=
  ∀ src dst, strSrcDir = some src → strDstDir = some dst → ops.accessFile s src = false →
    ∀ s₁, (if ops.accessFile s dst then createdMultipleDirectory ops dst s else .ok (true, s)) =
        .ok (true, s₁) →
      ∀ unzFp, unzOpen64 s₁ src = some unzFp → unzFp.info = true → LoopOpens ops dst iFlag unzFp.items s₁

end Calls

/-! ## Without the calls it is `UnCompress` -/

section Results
variable {σ : Type} {ops : FileOps σ}

variable (ops) in
theorem entryFolder_eq (path : Path) (s : σ) : entryFolder ops path s =
    match entryFolderOutcome ops path s with
    | .error ended => (some ended.returned.1, ended.returned.2)
    | .ok s' => (none, s') := by
  unfold entryFolder entryFolderOutcome
  split
  · cases createdMultipleDirectory ops path s with
    | error f => rfl
    | ok r =>
      obtain ⟨bSuccess, s'⟩ := r
      cases bSuccess <;> rfl
  · rfl

theorem writeLoopCalls_result (i : ℕ) (path : Path) (fails : Bool) (bufs : List Bytes) (s : σ) :
    (writeLoopCalls ops i path fails bufs s).result = writeLoop ops path fails bufs s := by
  induction bufs generalizing s with
  | nil =>
    unfold writeLoopCalls writeLoop
    cases fails <;> rfl
  | cons szBuf rest ih =>
    unfold writeLoopCalls writeLoop
    rw [Logged.bind_result, Logged.step_result, ok_bind, Logged.bind_result, Logged.step_result, ok_bind]
    dsimp only
    split
    · exact ih ..
    · rfl

variable (ops) in
theorem extractCalls_result (i : ℕ) (path : Path) (item : UnzItem) (s : σ) :
    (extractCalls ops i path item s).result =
      match ops.create s path with
      | none => .error .nullFile
      | some s' => writeLoop ops path item.read.fails item.read.buffers s' := by
  unfold extractCalls
  cases ops.create s path with
  | none => rfl
  | some s' =>
    simp only [Logged.bind_result, Logged.step_result, ok_bind, writeLoopCalls_result]
    cases writeLoop ops path item.read.fails item.read.buffers s' <;> rfl

theorem unCompressLoopCalls_result (dst : Path) (iFlag : ℤ) (i : ℕ) (items : List UnzItem) (s : σ) :
    (unCompressLoopCalls ops dst iFlag i items s).result.map LoopEnd.returned =
      (unCompressLoop ops dst iFlag (items.map UnzItem.read) s).2 := by
  induction items generalizing i s with
  | nil => rfl
  | cons item rest ih =>
    rw [List.map_cons]
    unfold unCompressLoopCalls unCompressLoop
    dsimp only
    rw [Logged.bind_result, Logged.step_result, ok_bind, entryFolder_eq]
    cases entryFolderOutcome ops (beforeLast (outFilePath dst item.read)) s with
    | error ended => rfl
    | ok s₁ =>
      dsimp only
      split
      · rw [Logged.bind_result, Logged.step_result, ok_bind]
        exact ih ..
      · rw [Logged.bind_result, extractCalls_result]
        generalize (if ops.accessFile s₁ (outFilePath dst item.read) = true then _ else s₁) = s₂
        cases ops.create s₂ (outFilePath dst item.read) with
        | none => rfl
        | some s₃ =>
          dsimp only
          cases writeLoop ops (outFilePath dst item.read) item.read.fails item.read.buffers s₃ with
          | error f => rfl
          | ok r =>
            obtain ⟨iRet, s₄⟩ := r
            rw [ok_bind]
            dsimp only
            split
            · rfl
            · exact ih ..

theorem closeArchiveCall_result (ended : LoopEnd σ) :
    (closeArchiveCall ended).result = .ok ended.returned := by
  cases ended <;> rfl

theorem readArchiveCalls_result (unzOpen64 : σ → Path → Option UnzArchive) (src dst : Path) (iFlag : ℤ)
    (s : σ) : (readArchiveCalls ops unzOpen64 src dst iFlag s).result =
      match (unzOpen64 s src).map UnzArchive.file with
      | none => pure (zipStateIoError, s)
      | some unzFp =>
        if unzFp.info = false then pure (zipStateIoError, s)
        else (unCompressLoop ops dst iFlag unzFp.entries s).2 := by
  unfold readArchiveCalls
  cases unzOpen64 s src with
  | none => rfl
  | some unzFp =>
    simp only [Option.map_some, UnzArchive.file]
    split
    · rfl
    · rw [← unCompressLoopCalls_result dst iFlag 0 unzFp.items s]
      simp only [Logged.bind_result, Logged.step_result, ok_bind, closeArchiveCall_result]
      cases (unCompressLoopCalls ops dst iFlag 0 unzFp.items s).result <;> rfl

theorem unCompressCalls_result (unzOpen64 : σ → Path → Option UnzArchive) (src dst : Option Path) (iFlag : ℤ)
    (s : σ) :
    (unCompressCalls ops unzOpen64 src dst iFlag s).result =
      unCompress ops (fun s path => (unzOpen64 s path).map UnzArchive.file) src dst iFlag s := by
  cases src with
  | none => rfl
  | some src =>
    cases dst with
    | none => rfl
    | some dst =>
      unfold unCompressCalls unCompress
      dsimp only
      split
      · rfl
      rw [Logged.bind_result, Logged.lift_result]
      split
      · refine congrArg _ (funext fun r => ?_)
        split
        · rfl
        · exact readArchiveCalls_result ..
      · exact readArchiveCalls_result ..

end Results

/-! ## What is open -/

section Open
variable {σ : Type} {ops : FileOps σ} {past : List UnzCall} {dst : Path} {iFlag : ℤ}

/-- What is opened from the pass `i` on. -/
def LaterPass (i : ℕ) (x : UnzHandle) : Prop := ∃ j, i ≤ j ∧ (x = .entry j ∨ x = .stream j)

theorem writeLoopCalls_keeps {i : ℕ} {path : Path} {fails : Bool} {bufs : List Bytes} {s : σ}
    {fresh : UnzHandle → Prop} {held : List (UnzHandle × Option UnzHandle)} (h : Open fresh held past)
    (hentry : .entry i ∈ held.map Prod.fst) (hstream : .stream i ∈ held.map Prod.fst) :
    (writeLoopCalls ops i path fails bufs s).Keeps MayHappen past fun past' _ => Open fresh held past' := by
  induction bufs generalizing s past with
  | nil =>
    unfold writeLoopCalls
    refine keeps_used h hentry fun past₁ _ _ h₁ => ?_
    split
    · exact Logged.keeps_step (h₁.used hstream).1 fun a ha => by cases ha
    · exact Logged.keeps_pure h₁
  | cons szBuf rest ih =>
    unfold writeLoopCalls
    refine keeps_used h hentry fun past₁ _ _ h₁ => keeps_used h₁ hstream fun past₂ r _ h₂ => ?_
    obtain ⟨good, s'⟩ := r
    dsimp only
    split
    · exact ih h₂
    · exact Logged.keeps_pure h₂

theorem laterPass_succ {i : ℕ} (y : UnzHandle) (hy : LaterPass (i + 1) y) :
    LaterPass i y ∧ y ≠ .entry i ∧ y ≠ .stream i := by
  obtain ⟨j, hj, rfl | rfl⟩ := hy
  · exact ⟨⟨j, by omega, .inl rfl⟩, by simp; omega, by simp⟩
  · exact ⟨⟨j, by omega, .inr rfl⟩, by simp, by simp; omega⟩

theorem extractCalls_keeps {i : ℕ} {path : Path} {item : UnzItem} {s s' : σ}
    (h : Open (LaterPass i) [(.archive, none)] past) (hopens : item.opens = true)
    (hcreate : ops.create s path = some s') :
    (extractCalls ops i path item s).Keeps MayHappen past
      fun past' _ => Open (LaterPass (i + 1)) [(.archive, none)] past' := by
  unfold extractCalls
  rw [hopens, if_pos rfl]
  refine keeps_born (F := fun x => x = .stream i ∨ LaterPass (i + 1) x) h
    ⟨i, Nat.le_refl i, .inl rfl⟩ (fun q hq => ?_) (fun y hy => ?_) fun past₁ _ _ h₁ => ?_
  · cases hq
    simp
  · rcases hy with rfl | hy
    · exact ⟨⟨i, Nat.le_refl i, .inr rfl⟩, fun heq => by cases heq⟩
    · exact ⟨(laterPass_succ y hy).1, (laterPass_succ y hy).2.1⟩
  simp only [hcreate]
  refine keeps_born (F := LaterPass (i + 1)) h₁ (.inl rfl) (fun q hq => by cases hq)
    (fun y hy => ⟨.inr hy, (laterPass_succ y hy).2.2⟩) fun past₂ _ _ h₂ => ?_
  refine Logged.keeps_bind (writeLoopCalls_keeps h₂ (by simp) (by simp)) fun past₃ r h₃ => ?_
  obtain ⟨iRet, s''⟩ := r
  exact keeps_died h₃ (by simp) fun past₄ _ _ h₄ => keeps_died h₄ (by simp) fun past₅ _ _ h₅ =>
    keeps_used h₅ (by simp) fun past₆ _ _ h₆ => Logged.keeps_pure h₆

/-- Where the entry or the file is not open the pass uses it all the same, and does not come back. -/
theorem extractCalls_breaks {i : ℕ} {path : Path} {item : UnzItem} {s : σ}
    (h : Open (LaterPass i) [(.archive, none)] past)
    (hnot : ¬ (item.opens = true ∧ ∃ s', ops.create s path = some s')) :
    (extractCalls ops i path item s).Breaks MayHappen past := by
  have hentry : LaterPass i (.entry i) := ⟨i, Nat.le_refl i, .inl rfl⟩
  have hstream : LaterPass i (.stream i) := ⟨i, Nat.le_refl i, .inr rfl⟩
  unfold extractCalls
  cases hopens : item.opens with
  | false =>
    -- the first read is of an entry that is not open
    have hread : item.read.buffers = [] ∧ item.read.fails = true := by
      simp [UnzItem.read, hopens]
    have hused := (h.used (x := .archive) (by simp)).2
    rw [if_neg Bool.false_ne_true]
    apply Logged.breaks_of_ok rfl
    cases ops.create s path with
    | none => exact Logged.breaks_step (hused.not_used hentry) ⟨_, rfl⟩
    | some s' =>
      have hborn := (hused.born (F := fun x => x = .entry i) hstream (p := none) nofun fun y hy =>
        ⟨hy ▸ hentry, by rw [hy]; exact UnzHandle.noConfusion⟩).2
      apply Logged.breaks_of_ok rfl
      apply Logged.Breaks.bind
      rw [hread.1, hread.2, writeLoopCalls]
      exact Logged.breaks_step (hborn.not_used rfl) ⟨_, rfl⟩
  | true =>
    have hcreate : ops.create s path = none := by
      rw [Option.eq_none_iff_forall_ne_some]
      exact fun s' hs' => hnot ⟨hopens, s', hs'⟩
    have hborn := (h.born (F := fun x => x = .stream i) hentry (p := some .archive)
      (fun q hq => by cases hq; simp) fun y hy =>
        ⟨hy ▸ hstream, by rw [hy]; exact UnzHandle.noConfusion⟩).2
    have hused := (hborn.used (x := .entry i) (by simp)).2
    rw [if_pos rfl, hcreate]
    apply Logged.breaks_of_ok rfl
    apply Logged.breaks_of_ok rfl
    exact ⟨fun hlog => hused.not_used rfl hlog.1, _, rfl⟩

theorem prefix_beforeLast (p q : Path) : p <+: beforeLast (p ++ '\\' :: q) := by
  have hmem : '\\' ∈ p ++ '\\' :: q := List.mem_append_right p (List.mem_cons_self ..)
  have hsplit : ∃ r, r ≠ [] ∧ upToLast (p ++ '\\' :: q) = p ++ r := by
    unfold upToLast
    rw [List.reverse_append, List.reverse_cons, List.append_assoc, List.dropWhile_append]
    split
    · exact ⟨['\\'], by simp, by simp⟩
    · exact ⟨'\\' :: (q.reverse.dropWhile (· ≠ '\\')).reverse, by simp, by simp⟩
  obtain ⟨r, hr, hup⟩ := hsplit
  rw [beforeLast, if_pos hmem, hup, List.dropLast_append_of_ne_nil hr]
  exact List.prefix_append ..

/-- There is no exception where the destination has a name: it comes from an empty path. -/
theorem entryFolderOutcome_thrown {e : UnzEntry} {s s' : σ}
    (h : entryFolderOutcome ops (beforeLast (outFilePath dst e)) s = .error (.thrown s')) : dst = [] := by
  have hempty : beforeLast (outFilePath dst e) = [] := by
    by_contra hne
    unfold entryFolderOutcome createdMultipleDirectory at h
    rw [if_neg hne] at h
    dsimp only at h
    split at h
    · cases hmake : makeDirs ops false _ s with
      | mk bSuccess s₁ =>
        rw [hmake] at h
        cases bSuccess <;> cases h
    · cases h
  have hout : outFilePath dst e = netPathToWinPath dst ++ '\\' :: netPathToWinPath e.szFilePath := by
    unfold outFilePath netPathToWinPath Path.child
    rw [List.map_append, List.map_cons]
    rfl
  rw [hout] at hempty
  have hpre := prefix_beforeLast (netPathToWinPath dst) (netPathToWinPath e.szFilePath)
  rw [hempty, List.prefix_nil] at hpre
  exact List.map_eq_nil_iff.mp hpre

theorem unCompressLoopCalls_keeps {i : ℕ} {items : List UnzItem} {s : σ}
    (h : Open (LaterPass i) [(.archive, none)] past) (hopens : LoopOpens ops dst iFlag items s) :
    (unCompressLoopCalls ops dst iFlag i items s).Keeps MayHappen past fun past' ended =>
      Open (fun _ => False) [(.archive, none)] past' ∧ ((∃ s', ended = .thrown s') → dst = []) := by
  induction items generalizing i s past with
  | nil =>
    refine Logged.keeps_pure ⟨h.weaken fun x hx => absurd hx id, ?_⟩
    rintro ⟨s', heq⟩
    cases heq
  | cons item rest ih =>
    unfold unCompressLoopCalls
    refine keeps_used h (by simp) fun past₁ _ _ h₁ => ?_
    dsimp only
    have hnext : Open (LaterPass (i + 1)) [(.archive, none)] past₁ :=
      h₁.weaken fun x ⟨j, hj, hx⟩ => ⟨j, by omega, hx⟩
    have hfolder := entryFolder_eq ops (beforeLast (outFilePath dst item.read)) s
    cases hout : entryFolderOutcome ops (beforeLast (outFilePath dst item.read)) s with
    | error ended =>
      refine Logged.keeps_pure ⟨h₁.weaken fun x hx => absurd hx id, ?_⟩
      rintro ⟨s', rfl⟩
      exact entryFolderOutcome_thrown hout
    | ok s₁ =>
      rw [hout] at hfolder
      have hpass := hopens s₁ hfolder
      dsimp only at hpass ⊢
      split
      · rename_i hskip
        rw [if_pos hskip] at hpass
        exact keeps_used hnext (by simp) fun past₂ _ _ h₂ => ih h₂ hpass
      · rename_i hskip
        rw [if_neg hskip] at hpass
        obtain ⟨hentry, s₂, hcreate, hrest⟩ := hpass
        refine Logged.keeps_bind (Logged.keeps_result (extractCalls_keeps h₁ hentry hcreate))
          fun past₂ r h₂ => ?_
        obtain ⟨iRet, s₃⟩ := r
        obtain ⟨hres, h₂⟩ := h₂
        rw [extractCalls_result, hcreate] at hres
        dsimp only
        split
        · refine Logged.keeps_pure ⟨h₂.weaken fun x hx => absurd hx id, ?_⟩
          rintro ⟨s', heq⟩
          cases heq
        · rename_i hok
          rw [not_not] at hok
          subst hok
          exact ih h₂ (hrest s₃ hres)

theorem unCompressLoopCalls_breaks {i : ℕ} {items : List UnzItem} {s : σ}
    (h : Open (LaterPass i) [(.archive, none)] past) (hnot : ¬ LoopOpens ops dst iFlag items s) :
    (unCompressLoopCalls ops dst iFlag i items s).Breaks MayHappen past := by
  induction items generalizing i s past with
  | nil => exact absurd trivial hnot
  | cons item rest ih =>
    simp only [LoopOpens, not_forall] at hnot
    obtain ⟨s₁, hfolder, hpass⟩ := hnot
    have hout : entryFolderOutcome ops (beforeLast (outFilePath dst item.read)) s = .ok s₁ := by
      rw [entryFolder_eq] at hfolder
      cases hout : entryFolderOutcome ops (beforeLast (outFilePath dst item.read)) s with
      | error ended =>
        rw [hout] at hfolder
        cases hfolder
      | ok s' =>
        rw [hout] at hfolder
        cases hfolder
        rfl
    have h₁ := (h.used (x := .archive) (by simp)).2
    unfold unCompressLoopCalls
    apply Logged.breaks_of_ok rfl
    dsimp only
    rw [hout]
    dsimp only
    split
    · rename_i hskip
      rw [if_pos hskip] at hpass
      have h₂ := (h₁.used (x := .archive) (by simp)).2
      exact Logged.breaks_of_ok rfl (ih (h₂.weaken fun x ⟨j, hj, hx⟩ => ⟨j, by omega, hx⟩) hpass)
    · rename_i hskip
      rw [if_neg hskip] at hpass
      by_cases hboth : item.opens = true ∧ ∃ s₂, ops.create (if ops.accessFile s₁
          (outFilePath dst item.read) then ops.deleteFile s₁ (outFilePath dst item.read) else s₁)
          (outFilePath dst item.read) = some s₂
      · -- this pass goes well, and what is misused comes later
        obtain ⟨hentry, s₂, hcreate⟩ := hboth
        obtain ⟨s₃, hwrite, hrest⟩ : ∃ s₃, writeLoop ops (outFilePath dst item.read) item.read.fails
            item.read.buffers s₂ = .ok (zipOk, s₃) ∧ ¬ LoopOpens ops dst iFlag rest s₃ := by
          by_contra hnone
          exact hpass ⟨hentry, s₂, hcreate, fun s₃ hwrite => by
            by_contra hrest
            exact hnone ⟨s₃, hwrite, hrest⟩⟩
        have hres := extractCalls_result ops i (outFilePath dst item.read) item
          (if ops.accessFile s₁ (outFilePath dst item.read) then
            ops.deleteFile s₁ (outFilePath dst item.read) else s₁)
        rw [hcreate] at hres
        have hres := hres.trans hwrite
        apply Logged.breaks_of_ok hres
        rw [if_neg (not_not.mpr rfl)]
        exact ih ((extractCalls_keeps h₁ hentry hcreate).2 _ hres) hrest
      · exact (extractCalls_breaks h₁ hboth).bind

/-- Where the destination has a name nothing is open behind the `try`; else at most the archive is. -/
structure LeftOpen (dst : Path) (past : List UnzCall) : Prop where
  most : ∃ held, held <+: [(UnzHandle.archive, none)] ∧ Open (fun _ => False) held past
  named : dst ≠ [] → Open (fun _ => False) [] past

theorem LeftOpen.of_open (h : Open (fun _ => False) [] past) : LeftOpen dst past :=
  ⟨⟨[], List.nil_prefix, h⟩, fun _ => h⟩

theorem closeArchiveCall_keeps {ended : LoopEnd σ} (h : Open (fun _ => False) [(.archive, none)] past)
    (hdst : (∃ s', ended = .thrown s') → dst = []) :
    (closeArchiveCall ended).Keeps MayHappen past fun past' _ => LeftOpen dst past' := by
  cases ended with
  | code iRet s =>
    have hdied := h.died (by simp)
    exact Logged.keeps_step hdied.1 fun r _ => .of_open hdied.2
  | thrown s =>
    refine Logged.keeps_pure ⟨⟨_, List.prefix_rfl, h⟩, fun hne => absurd (hdst ⟨s, rfl⟩) hne⟩

theorem readArchiveCalls_keeps {unzOpen64 : σ → Path → Option UnzArchive} {src : Path} {s : σ}
    (hopens : ∀ unzFp, unzOpen64 s src = some unzFp → unzFp.info = true →
      LoopOpens ops dst iFlag unzFp.items s) :
    (readArchiveCalls ops unzOpen64 src dst iFlag s).Keeps MayHappen []
      fun past' _ => LeftOpen dst past' := by
  unfold readArchiveCalls
  cases hopen : unzOpen64 s src with
  | none => exact Logged.keeps_pure (.of_open Open.start)
  | some unzFp =>
    refine keeps_born (F := LaterPass 0) (Open.start : Open (fun _ => True) [] []) trivial
      (fun q hq => by cases hq) (fun y hy => ⟨trivial, ?_⟩) fun past₁ _ _ h₁ =>
        keeps_used h₁ (by simp) fun past₂ _ _ h₂ => ?_
    · obtain ⟨j, -, rfl | rfl⟩ := hy <;> simp
    split
    · refine closeArchiveCall_keeps (h₂.weaken fun x hx => absurd hx id) ?_
      rintro ⟨s', heq⟩
      cases heq
    · rename_i hinfo
      have hloop := hopens unzFp hopen (Bool.not_eq_false _ ▸ hinfo)
      exact Logged.keeps_bind (unCompressLoopCalls_keeps h₂ hloop) fun past₃ ended h₃ =>
        closeArchiveCall_keeps h₃.1 h₃.2

theorem readArchiveCalls_breaks {unzOpen64 : σ → Path → Option UnzArchive} {src : Path} {s : σ}
    {unzFp : UnzArchive} (hopen : unzOpen64 s src = some unzFp) (hinfo : unzFp.info = true)
    (hnot : ¬ LoopOpens ops dst iFlag unzFp.items s) :
    (readArchiveCalls ops unzOpen64 src dst iFlag s).Breaks MayHappen [] := by
  unfold readArchiveCalls
  rw [hopen]
  have h₁ := ((Open.start : Open (fun _ => True) [] []).born (x := UnzHandle.archive) (F := LaterPass 0)
    (p := none) trivial nofun fun y hy => ⟨trivial, by obtain ⟨j, -, rfl | rfl⟩ := hy <;> simp⟩).2
  have h₂ := (h₁.used (x := .archive) (by simp)).2
  apply Logged.breaks_of_ok rfl
  apply Logged.breaks_of_ok rfl
  rw [if_neg (by rw [hinfo]; exact Bool.noConfusion)]
  exact (unCompressLoopCalls_breaks h₂ hnot).bind

variable {unzOpen64 : σ → Path → Option UnzArchive} {src? dst? : Option Path} {s : σ}

theorem unCompressCalls_keeps (hopens : OpensAll ops unzOpen64 src? dst? iFlag s) :
    (unCompressCalls ops unzOpen64 src? dst? iFlag s).Keeps MayHappen [] fun past' _ =>
      LeftOpen (dst?.getD []) past' ∧ (dst? = none → Open (fun _ => False) [] past') := by
  have hnone : ∀ r : ℤ × σ, (pure r : Logged UnzCall Fault (ℤ × σ)).Keeps MayHappen []
      fun past' _ => LeftOpen (dst?.getD []) past' ∧ (dst? = none → Open (fun _ => False) [] past') :=
    fun r => Logged.keeps_pure ⟨.of_open Open.start, fun _ => Open.start⟩
  cases src? with
  | none => exact hnone _
  | some src =>
    cases dst? with
    | none => exact hnone _
    | some dst =>
      unfold unCompressCalls
      dsimp only
      split
      · exact hnone _
      rename_i hsrc
      refine Logged.keeps_bind (Q := fun past' r => past' = [] ∧ (if ops.accessFile s dst then
        createdMultipleDirectory ops dst s else pure (true, s)) = .ok r)
        (Logged.keeps_lift fun r hr => ⟨rfl, hr⟩) ?_
      rintro past' ⟨bSuccess, s₁⟩ ⟨rfl, hmade⟩
      dsimp only
      split
      · exact hnone _
      · rename_i hmk
        obtain rfl : bSuccess = true := Bool.not_eq_false _ ▸ hmk
        exact (readArchiveCalls_keeps (hopens src dst rfl rfl (Bool.not_eq_true _ ▸ hsrc) s₁ hmade)).mono
          fun past' r h => ⟨h, fun heq => by cases heq⟩

theorem unCompressCalls_breaks (hnot : ¬ OpensAll ops unzOpen64 src? dst? iFlag s) :
    (unCompressCalls ops unzOpen64 src? dst? iFlag s).Breaks MayHappen [] := by
  simp only [OpensAll, not_forall] at hnot
  obtain ⟨src, dst, rfl, rfl, hsrc, s₁, hmade, unzFp, hopen, hinfo, hloop⟩ := hnot
  unfold unCompressCalls
  dsimp only
  rw [if_neg (by rw [hsrc]; exact Bool.noConfusion)]
  apply Logged.breaks_of_ok hmade
  rw [if_neg (Bool.noConfusion : ¬ true = false)]
  exact readArchiveCalls_breaks hopen hinfo hloop

/-- The calls of `UnCompress` on its handles: what a call does otherwise does not change. Nothing is used
before it is opened or after it is closed, and nothing is closed twice, exactly when every entry that it
extracts can be opened and so can its file; else the run faults. A run that returns closes all it has
opened. Only the archive can stay open, and only where the destination is the empty path. -/
structure ClosesUnz (ops : FileOps σ) (unzOpen64 : σ → Path → Option UnzArchive) (src dst : Option Path)
    (iFlag : ℤ) (s : σ) : Prop where
  result : (unCompressCalls ops unzOpen64 src dst iFlag s).result =
    unCompress ops (fun s path => (unzOpen64 s path).map UnzArchive.file) src dst iFlag s
  disciplined : Lifetime.Disciplined (unCompressCalls ops unzOpen64 src dst iFlag s).log.reverse ↔
    OpensAll ops unzOpen64 src dst iFlag s
  faults : ¬ OpensAll ops unzOpen64 src dst iFlag s →
    ∃ f, (unCompressCalls ops unzOpen64 src dst iFlag s).result = .error f
  settled : ∀ r, (unCompressCalls ops unzOpen64 src dst iFlag s).result = .ok r → dst ≠ some [] →
    Lifetime.Settled (unCompressCalls ops unzOpen64 src dst iFlag s).log.reverse
  atMost : ∀ r, (unCompressCalls ops unzOpen64 src dst iFlag s).result = .ok r → ∀ x,
    Lifetime.Alive (unCompressCalls ops unzOpen64 src dst iFlag s).log.reverse x → x = .archive

/-- **What `UnCompress` uses and leaves open**, whatever the file system and the archive do. -/
theorem unCompress_closes (ops : FileOps σ) (unzOpen64 : σ → Path → Option UnzArchive)
    (src dst : Option Path) (iFlag : ℤ) (s : σ) : ClosesUnz ops unzOpen64 src dst iFlag s := by
  -- a run that returns has opened all it used
  have hreturns : ∀ r, (unCompressCalls ops unzOpen64 src dst iFlag s).result = .ok r →
      LeftOpen (dst.getD []) (unCompressCalls ops unzOpen64 src dst iFlag s).log ∧
        (dst = none → Open (fun _ => False) [] (unCompressCalls ops unzOpen64 src dst iFlag s).log) := by
    intro r hr
    by_cases hopens : OpensAll ops unzOpen64 src dst iFlag s
    · have hleft := (unCompressCalls_keeps hopens).2 r hr
      rwa [List.nil_append] at hleft
    · obtain ⟨-, f, hf⟩ := unCompressCalls_breaks hopens
      cases hr.symm.trans hf
  have hclosed : ∀ r, (unCompressCalls ops unzOpen64 src dst iFlag s).result = .ok r → dst ≠ some [] →
      Open (fun _ => False) [] (unCompressCalls ops unzOpen64 src dst iFlag s).log := by
    intro r hr hne
    obtain ⟨hleft, hnull⟩ := hreturns r hr
    cases dst with
    | none => exact hnull rfl
    | some dst => exact hleft.named fun heq => hne (congrArg some heq)
  refine ⟨unCompressCalls_result .., ⟨fun hd => ?_, fun hopens => ?_⟩,
    fun hnot => (unCompressCalls_breaks hnot).2,
    fun r hr hne => (hclosed r hr hne).owes.settled, fun r hr x hx => ?_⟩
  · by_contra hnot
    exact (unCompressCalls_breaks hnot).1 (permitted_of_disciplined [] hd)
  · exact disciplined_of_permitted (unCompressCalls_keeps hopens).1 trivial
  · obtain ⟨held, hheld, hopen⟩ := (hreturns r hr).1.most
    have hmem := (hopen.owes.alive_iff x).mp hx
    exact List.mem_singleton.mp ((hheld.map Prod.fst).subset hmem)

end Open

end AppUtil.Zip
