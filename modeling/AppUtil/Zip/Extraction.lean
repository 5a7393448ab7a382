import AppUtil.Lib.Paths
import AppUtil.Zip.ZipTools

/-! # Where `UnCompress` writes -/
namespace AppUtil.Zip
open AppUtil.Lib
set_option autoImplicit false

/-- Paths as Windows resolves them by their text alone. -/
def windows : Paths.Syntax Char where
  isSep c := c = '\\' || c = '/'
  dot := '.'
  colon := ':'
  isLetter := Char.isAlpha
  colon_not_sep := rfl
  letter_not_sep c h := by
    by_contra hc
    simp only [Bool.not_eq_false, Bool.or_eq_true, decide_eq_true_eq] at hc
    rcases hc with rfl | rfl <;> exact absurd h (by decide)

/-- Everything `UnCompress`'s loop deletes or opens for writing, in an archive with these names, is in
the folder. -/
def LoopInside (dst : Path) (entries : List UnzEntry) : Prop :=
  ∀ es : List UnzEntry, es.map UnzEntry.szFilePath = entries.map UnzEntry.szFilePath →
    ∀ (σ : Type) (ops : FileOps σ) (s : σ) (iFlag : ℤ),
      ∀ p ∈ (unCompressLoop ops dst iFlag es s).1, Paths.Inside windows dst p

theorem resolve_netPathToWinPath (path : Path) :
    Paths.resolve windows (netPathToWinPath path) = Paths.resolve windows path := by
  refine Paths.resolve_map (fun c => ?_) (fun c hc => ?_) path
  · by_cases h : c = '/'
    · subst h
      rfl
    · rw [if_neg h]
  · refine if_neg fun h => ?_
    subst h
    cases hc

theorem inside_outFilePath_iff {dst : Path} {e : UnzEntry} :
    Paths.Inside windows dst (outFilePath dst e) ↔ Paths.Stays windows dst e.szFilePath := by
  rw [Paths.Inside, outFilePath, resolve_netPathToWinPath]
  exact Paths.inside_append_sep_iff rfl

section Loop
variable {σ : Type} {ops : FileOps σ}

theorem exists_of_touched {dst : Path} {iFlag : ℤ} {entries : List UnzEntry} {s : σ} {p : Path}
    (hp : p ∈ (unCompressLoop ops dst iFlag entries s).1) : ∃ e ∈ entries, p = outFilePath dst e := by
  induction entries generalizing s with
  | nil => cases hp
  | cons e rest ih =>
    have later : ∀ s', p ∈ (unCompressLoop ops dst iFlag rest s').1 →
        ∃ e' ∈ e :: rest, p = outFilePath dst e' := by
      intro s' h
      obtain ⟨e', he', heq⟩ := ih h
      exact ⟨e', List.mem_cons_of_mem e he', heq⟩
    have here : ∀ b : Prop, [Decidable b] →
        p ∈ (if b then [outFilePath dst e, outFilePath dst e] else [outFilePath dst e]) →
        ∃ e' ∈ e :: rest, p = outFilePath dst e' := by
      intro b _ h
      refine ⟨e, List.mem_cons_self .., ?_⟩
      split at h <;> simpa using h
    rw [unCompressLoop] at hp
    split at hp
    next => cases hp
    next s₁ _ =>
      dsimp only at hp
      split at hp
      next => exact later s₁ hp
      next =>
        split at hp
        next => exact here _ hp
        next s₂ _ =>
          split at hp
          next => exact here _ hp
          next iRet s₃ _ =>
            split at hp
            next => exact here _ hp
            next =>
              rcases List.mem_append.mp hp with h | h
              · exact here _ h
              · exact later s₃ h

end Loop

/-- Nothing is there, and every call succeeds. -/
def eager : FileOps Unit where
  accessFile _ _ := false
  deleteFile s _ := s
  makeDir s _ := some s
  create s _ := some s
  fwrite s _ _ := (true, s)

/-- Empty entries under the same names are all written there. -/
theorem touched_eager {dst : Path} {iFlag : ℤ} {entries : List UnzEntry} :
    (unCompressLoop eager dst iFlag (entries.map fun e => ⟨e.name, e.beyond, [], false⟩) ()).1 =
      entries.map (outFilePath dst) := by
  induction entries with
  | nil => rfl
  | cons e rest ih => exact congrArg (outFilePath dst e :: ·) ih

/-- **`UnCompress`'s loop stays in its folder** exactly when every name does. -/
theorem unCompressLoop_inside_iff {dst : Path} {entries : List UnzEntry} :
    LoopInside dst entries ↔ ∀ e ∈ entries, Paths.Stays windows dst e.szFilePath := by
  constructor
  · intro h e he
    have hnames : (entries.map fun e => (⟨e.name, e.beyond, [], false⟩ : UnzEntry)).map
        UnzEntry.szFilePath = entries.map UnzEntry.szFilePath := by
      rw [List.map_map]
      rfl
    have htouched : outFilePath dst e ∈ (unCompressLoop eager dst zipFileReplace
        (entries.map fun e => ⟨e.name, e.beyond, [], false⟩) ()).1 := by
      rw [touched_eager]
      exact List.mem_map_of_mem he
    exact inside_outFilePath_iff.mp (h _ hnames Unit eager () zipFileReplace _ htouched)
  · intro h es hes σ ops s iFlag p hp
    obtain ⟨e', he', rfl⟩ := exists_of_touched hp
    have hmem : e'.szFilePath ∈ entries.map UnzEntry.szFilePath := by
      rw [← hes]
      exact List.mem_map_of_mem he'
    obtain ⟨e, he, heq⟩ := List.mem_map.mp hmem
    apply inside_outFilePath_iff.mpr
    rw [← heq]
    exact h e he

end AppUtil.Zip
