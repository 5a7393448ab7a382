import Mathlib.Data.List.Infix
import AppUtil.Lib.HandleLogs
import AppUtil.Zip.Traversal

/-! # The searches of `TraverseFloder`

A search is told by where its folder stands: the number of the item in the folder above, before the
search of that folder. The search above is the parent, so that one folder is done before the next. -/
namespace AppUtil.Zip
open AppUtil.Lib
set_option autoImplicit false

abbrev FindCall := Lifetime.Event (List ℕ)

/-- Whether there is anything in the folder, if only `.`. -/
def Folder.isDone : Folder → Bool
  | .done => true
  | _ => false

/-! ## The calls -/

section Calls
variable {κ : Type} (sys : System κ)

/-- `TraverseFloder` around its loop. -/
def searchCalls (iHandle : List ℕ) (above : Option (List ℕ)) (strFolderPath : Path) (folder : Folder)
    (vctFileList : List Path) (items : Logged FindCall Fault (List Path)) :
    Logged FindCall Fault (ℤ × List Path) :=
  if sys.findFirst strFolderPath && !folder.isDone then do
    Logged.step (.born iHandle above) (.ok ())
    let vctFileList ← items
    Logged.step (.died iHandle) (.ok (zipOk, vctFileList))
  else pure (zipStateErr, vctFileList)

/-- `traverseItems` with its calls of `_findfirst`, `_findnext` and `_findclose`, from the item `n` on. -/
def traverseItemsCalls : List ℕ → Path → ℕ → Folder → List Path → Logged FindCall Fault (List Path)
  | _, _, _, .done, vctFileList => pure vctFileList
  | iHandle, strFolderPath, n, .file name _ rest, vctFileList => do
    Logged.step (.used iHandle) (.ok ())
    traverseItemsCalls iHandle strFolderPath (n + 1) rest (vctFileList ++ [strFolderPath.child name])
  | iHandle, strFolderPath, n, .subdir name below rest, vctFileList => do
    let strNewPath := strFolderPath.child name
    let (_, vctFileList) ← (if isDots name then pure (zipOk, vctFileList)
      else searchCalls sys (n :: iHandle) (some iHandle) strNewPath below vctFileList
        (traverseItemsCalls (n :: iHandle) strNewPath 0 below vctFileList))
    Logged.step (.used iHandle) (.ok ())
    traverseItemsCalls iHandle strFolderPath (n + 1) rest vctFileList

/-- `traverseFloderInto` with its calls. -/
def traverseFloderCalls (strFolderPath : Path) (folder : Folder) (vctFileList : List Path) :
    Logged FindCall Fault (ℤ × List Path) :=
  searchCalls sys [] none strFolderPath folder vctFileList
    (traverseItemsCalls sys [] strFolderPath 0 folder vctFileList)

variable {sys}

theorem searchCalls_result {iHandle : List ℕ} {above : Option (List ℕ)} {path : Path} {folder : Folder}
    {list : List Path} {items : Logged FindCall Fault (List Path)}
    (h : items.result = .ok (traverseItems sys path folder list)) :
    (searchCalls sys iHandle above path folder list items).result =
      .ok (traverseFloderInto sys path folder list) := by
  unfold searchCalls traverseFloderInto
  cases sys.findFirst path with
  | false => rfl
  | true =>
    cases folder with
    | done => rfl
    | _ =>
      simp only [Folder.isDone, Bool.not_false, Bool.and_self, if_true, Logged.bind_result,
        Logged.step_result, ok_bind, h]
      rfl

theorem traverseItems_subdir (path name : Path) (below rest : Folder) (list : List Path) :
    traverseItems sys path (.subdir name below rest) list =
      traverseItems sys path rest (if isDots name then list
        else (traverseFloderInto sys (path.child name) below list).2) := by
  rw [traverseItems]
  unfold traverseFloderInto
  cases isDots name with
  | true => rfl
  | false =>
    cases sys.findFirst (path.child name) with
    | false => rfl
    | true => cases below <;> rfl

theorem traverseItemsCalls_result (iHandle : List ℕ) (path : Path) (n : ℕ) (folder : Folder)
    (list : List Path) : (traverseItemsCalls sys iHandle path n folder list).result =
      .ok (traverseItems sys path folder list) := by
  induction folder generalizing iHandle path n list with
  | done => rfl
  | file name contents rest ih =>
    unfold traverseItemsCalls traverseItems
    rw [Logged.bind_result, Logged.step_result, ok_bind]
    exact ih ..
  | subdir name below rest ihBelow ihRest =>
    rw [traverseItems_subdir]
    unfold traverseItemsCalls
    rw [Logged.bind_result]
    split
    · rw [Logged.pure_result, ok_bind, Logged.bind_result, Logged.step_result, ok_bind]
      exact ihRest ..
    · rw [searchCalls_result (ihBelow ..), ok_bind, Logged.bind_result, Logged.step_result, ok_bind]
      exact ihRest ..

end Calls

/-! ## What is open -/

section Open
variable {κ : Type} {sys : System κ} {past : List FindCall} {held : List (List ℕ × Option (List ℕ))}
  {iHandle : List ℕ} {p : Option (List ℕ)}

/-- The searches below the item `n` and those after it. -/
def From (n : ℕ) (iHandle x : List ℕ) : Prop := ∃ j, n ≤ j ∧ j :: iHandle <:+ x

theorem From.not_self {n : ℕ} {iHandle : List ℕ} : ¬ From n iHandle iHandle := by
  rintro ⟨j, -, h⟩
  have hlen := h.length_le
  rw [List.length_cons] at hlen
  omega

/-- The searches below an item are not those of a later one. -/
theorem From.later {n : ℕ} {iHandle x : List ℕ} (h : From (n + 1) iHandle x) : ¬ n :: iHandle <:+ x := by
  obtain ⟨j, hj, hx⟩ := h
  intro hn
  have heq := (List.suffix_of_suffix_length_le hx hn (Nat.le_refl _)).eq_of_length rfl
  have hjn := (List.cons.inj heq).1
  omega

theorem From.below {n m : ℕ} {iHandle x : List ℕ} (h : From m (n :: iHandle) x) : From n iHandle x := by
  obtain ⟨j, -, hx⟩ := h
  exact ⟨n, Nat.le_refl n, (List.suffix_cons j _).trans hx⟩

theorem From.of_succ {n : ℕ} {iHandle x : List ℕ} (h : From (n + 1) iHandle x) : From n iHandle x := by
  obtain ⟨j, hj, hx⟩ := h
  exact ⟨j, by omega, hx⟩

/-- A search is done when `TraverseFloder` returns, and so are those below it. -/
theorem searchCalls_keeps {above : Option (List ℕ)} {path : Path} {folder : Folder} {list : List Path}
    {items : Logged FindCall Fault (List Path)} {fresh : List ℕ → Prop} (h : Open fresh held past)
    (hnew : fresh iHandle) (habove : ∀ q, above = some q → q ∈ held.map Prod.fst)
    (hchild : ∀ y, (y, some iHandle) ∉ held)
    (hitems : ∀ past', Open (fun x => fresh x ∧ x ≠ iHandle) ((iHandle, above) :: held) past' →
      items.Keeps MayHappen past' fun past'' _ =>
        Open (fun x => (fresh x ∧ x ≠ iHandle) ∧ ¬ From 0 iHandle x) ((iHandle, above) :: held) past'') :
    (searchCalls sys iHandle above path folder list items).Keeps MayHappen past fun past' _ =>
      Open (fun x => fresh x ∧ ¬ iHandle <:+ x) held past' := by
  unfold searchCalls
  split
  · refine keeps_born h hnew habove (fun y hy => hy) fun past₁ _ _ h₁ => ?_
    refine Logged.keeps_bind (hitems past₁ h₁) fun past₂ l h₂ => ?_
    have hdied := h₂.died hchild
    refine Logged.keeps_step hdied.1 fun _ _ => hdied.2.weaken fun x hx => ⟨⟨hx.1, ?_⟩, ?_⟩
    · rintro rfl
      exact hx.2 List.suffix_rfl
    · rintro ⟨j, -, hj⟩
      exact hx.2 ((List.suffix_cons j _).trans hj)
  · exact Logged.keeps_pure (h.weaken fun x hx => hx.1)

/-- The loop leaves its own search open, and no other one. -/
theorem traverseItemsCalls_keeps {path : Path} {n : ℕ} {folder : Folder} {list : List Path}
    {fresh : List ℕ → Prop} (h : Open fresh ((iHandle, p) :: held) past)
    (hfresh : ∀ x, From n iHandle x → fresh x)
    (habove : ∀ y q, (y, some q) ∈ (iHandle, p) :: held → ¬ iHandle <:+ q) :
    (traverseItemsCalls sys iHandle path n folder list).Keeps MayHappen past fun past' _ =>
      Open (fun x => fresh x ∧ ¬ From n iHandle x) ((iHandle, p) :: held) past' := by
  induction folder generalizing iHandle p held path n list fresh past with
  | done => exact Logged.keeps_pure (h.weaken fun x hx => hx.1)
  | file name contents rest ih =>
    unfold traverseItemsCalls
    refine keeps_used h (by simp) fun past₁ _ _ h₁ => ?_
    refine (ih h₁ (fun x hx => hfresh x hx.of_succ) habove).mono fun past₂ _ h₂ => ?_
    exact h₂.weaken fun x hx => ⟨hx.1, fun hn => hx.2 hn.of_succ⟩
  | subdir name below rest ihBelow ihRest =>
    have hrest : ∀ (past₁ : List FindCall) (r : ℤ × List Path),
        Open (fun x => fresh x ∧ ¬ n :: iHandle <:+ x) ((iHandle, p) :: held) past₁ →
        (Logged.step (.used iHandle) (.ok ()) >>= fun _ =>
          traverseItemsCalls sys iHandle path (n + 1) rest r.2).Keeps MayHappen past₁ fun past' _ =>
            Open (fun x => fresh x ∧ ¬ From n iHandle x) ((iHandle, p) :: held) past' := by
      intro past₁ r h₁
      refine keeps_used h₁ (by simp) fun past₂ _ _ h₂ => ?_
      refine (ihRest h₂ (fun x hx => ⟨hfresh x hx.of_succ, hx.later⟩) habove).mono fun past₃ _ h₃ => ?_
      exact h₃.weaken fun x hx => ⟨⟨hx.1, fun hn => hx.2 ⟨n, Nat.le_refl n, hn⟩⟩, fun hn => hx.2 hn.of_succ⟩
    unfold traverseItemsCalls
    refine Logged.keeps_bind ?_ hrest
    split
    · exact Logged.keeps_pure (h.weaken fun x hx => hx.1)
    · refine searchCalls_keeps h (hfresh _ ⟨n, Nat.le_refl n, List.suffix_rfl⟩) (fun q hq => ?_)
        (fun y hy => ?_) fun past' h' => ?_
      · cases hq
        simp
      · exact habove y _ hy (List.suffix_cons n iHandle)
      · refine ihBelow h' (fun x hx => ⟨hfresh x hx.below, ?_⟩) fun y q hy hq => ?_
        · rintro rfl
          exact From.not_self hx
        · rcases List.mem_cons.mp hy with heq | hmem
          · obtain rfl := Option.some.inj (Prod.mk.inj heq).2
            have hlen := hq.length_le
            rw [List.length_cons] at hlen
            omega
          · exact habove y q hmem ((List.suffix_cons n iHandle).trans hq)

/-- **The searches of `TraverseFloder`**: it returns what it returns otherwise; every search that is
opened is closed once, those of subfolders before the one above, and none is used when it is closed. -/
theorem traverseFloder_closes (sys : System κ) (path : Path) (folder : Folder) (list : List Path) :
    (traverseFloderCalls sys path folder list).result = .ok (traverseFloderInto sys path folder list) ∧
      Lifetime.Settled (traverseFloderCalls sys path folder list).log.reverse := by
  have hkeeps : (traverseFloderCalls sys path folder list).Keeps MayHappen []
      fun past' _ => Open (fun x => True ∧ ¬ [] <:+ x) [] past' := by
    refine searchCalls_keeps (Open.start : Open (fun _ => True) [] []) trivial (fun q hq => by cases hq)
      (fun y hy => by cases hy) fun past' h' => ?_
    refine traverseItemsCalls_keeps h' (fun x hx => ⟨trivial, ?_⟩) fun y q hy => ?_
    · rintro rfl
      exact From.not_self hx
    · cases List.mem_singleton.mp hy
  have hresult : (traverseFloderCalls sys path folder list).result = _ :=
    searchCalls_result (traverseItemsCalls_result [] path 0 folder list)
  exact ⟨hresult, (hkeeps.2 _ hresult).owes.settled⟩

end Open

end AppUtil.Zip
