import Mathlib.Data.List.Infix
import Mathlib.Tactic.Common

/-! # Searching a file from its end

A pattern is looked for in blocks, the last one first. A block is as long as the pattern more than the
step to the next, so that an occurrence across two of them is in one of the two. The search goes back
`maxBack` at most, and answers with the last occurrence, or with `0`: an occurrence at the very beginning
is as good as none. -/
namespace AppUtil.Lib
set_option autoImplicit false
variable {α : Type} {pattern l : List α}

/-- `pattern` stands in `l` from `i` on. -/
def StandsAt (pattern l : List α) (i : ℕ) : Prop := pattern <+: l.drop i

theorem StandsAt.le_length {i : ℕ} (h : StandsAt pattern l i) (hpos : 0 < pattern.length) :
    i + pattern.length ≤ l.length := by
  have hle := List.IsPrefix.length_le h
  rw [List.length_drop] at hle
  omega

/-- An occurrence that a block holds is one in the file. -/
theorem standsAt_block {pos size j : ℕ} (h : j + pattern.length ≤ size) :
    StandsAt pattern ((l.drop pos).take size) j ↔ StandsAt pattern l (pos + j) := by
  rw [StandsAt, StandsAt, List.drop_take, List.drop_drop, List.prefix_take_iff]
  constructor
  · intro hp
    exact hp.1
  · intro hp
    exact ⟨hp, by omega⟩

theorem standsAt_append_left {a b : List α} (i : ℕ) :
    StandsAt pattern (a ++ b) (a.length + i) ↔ StandsAt pattern b i := by
  rw [StandsAt, StandsAt, ← List.drop_drop, List.drop_left]

/-- What an answer says. -/
structure Searched (pattern l : List α) (maxBack r : ℕ) : Prop where
  found : r ≠ 0 → StandsAt pattern l r ∧ l.length - maxBack ≤ r ∧ ∀ q, r < q → ¬ StandsAt pattern l q
  nowhere : r = 0 → ∀ q, 0 < q → l.length - maxBack ≤ q → ¬ StandsAt pattern l q

theorem Searched.eq_of_last {maxBack r p : ℕ} (h : Searched pattern l maxBack r) (hp : 0 < p)
    (hlow : l.length - maxBack ≤ p) (hstands : StandsAt pattern l p)
    (hlast : ∀ q, p < q → ¬ StandsAt pattern l q) : r = p := by
  by_cases hr : r = 0
  · exact absurd hstands (h.nowhere hr p hp hlow)
  · obtain ⟨hstands', -, hlater⟩ := h.found hr
    have h₁ : ¬ r < p := fun hlt => hlater p hlt hstands
    have h₂ : ¬ p < r := fun hlt => hlast r hlt hstands'
    omega

section Inside
variable {step back back' : ℕ} (hpos : 0 < pattern.length) (hle : back' ≤ l.length) (hstep : back' ≤ back + step)
  (hdone : ∀ q, l.length - back < q → ¬ StandsAt pattern l q)

include hpos hle hstep hdone

/-- An occurrence from the beginning of the block on lies in it. -/
theorem standsAt_in_block {pos size : ℕ} (hp : pos = l.length - back')
    (hsize : size = min (step + pattern.length) (l.length - pos)) {q : ℕ} (hq : pos ≤ q)
    (h : StandsAt pattern l q) :
    q - pos < size - (pattern.length - 1) ∧ StandsAt pattern ((l.drop pos).take size) (q - pos) := by
  have hfits := h.le_length hpos
  have hnotlater : ¬ l.length - back < q := fun hlt => hdone q hlt h
  have hin : q - pos + pattern.length ≤ size := by omega
  refine ⟨by omega, (standsAt_block hin).mpr ?_⟩
  rw [Nat.add_sub_cancel' hq]
  exact h

end Inside

variable [DecidableEq α]

instance (pattern l : List α) (i : ℕ) : Decidable (StandsAt pattern l i) :=
  inferInstanceAs (Decidable (pattern <+: l.drop i))

/-- The last occurrence before `n`. -/
def lastBelow (pattern l : List α) : ℕ → Option ℕ
  | 0 => none
  | i + 1 => if StandsAt pattern l i then some i else lastBelow pattern l i

/-- The block that begins `back` before the end. -/
def searchBlock (pattern l : List α) (step back : ℕ) : ℕ :=
  let pos := l.length - back
  let size := min (step + pattern.length) (l.length - pos)
  match lastBelow pattern ((l.drop pos).take size) (size - (pattern.length - 1)) with
  | some i => pos + i
  | none => 0

/-- The search, when `back` of the end is done. -/
def backSearch (pattern l : List α) (step maxBack : ℕ) : ℕ → ℕ → ℕ
  | 0, _ => 0
  | fuel + 1, back =>
    if back < maxBack then
      let back := if maxBack < back + step then maxBack else back + step
      let found := searchBlock pattern l step back
      if found ≠ 0 then found else backSearch pattern l step maxBack fuel back
    else 0

/-! ## One block -/

theorem lastBelow_eq_some {n i : ℕ} (h : lastBelow pattern l n = some i) :
    i < n ∧ StandsAt pattern l i ∧ ∀ j, i < j → j < n → ¬ StandsAt pattern l j := by
  induction n with
  | zero => cases h
  | succ n ih =>
    rw [lastBelow] at h
    by_cases hn : StandsAt pattern l n
    · rw [if_pos hn] at h
      obtain rfl := Option.some.inj h
      exact ⟨Nat.lt_succ_self n, hn, fun j hj hjn => by omega⟩
    · rw [if_neg hn] at h
      obtain ⟨hlt, hi, hafter⟩ := ih h
      refine ⟨Nat.lt_succ_of_lt hlt, hi, fun j hj hjn => ?_⟩
      by_cases hjn' : j = n
      · rw [hjn']
        exact hn
      · exact hafter j hj (by omega)

theorem lastBelow_eq_none {n : ℕ} (h : lastBelow pattern l n = none) :
    ∀ j, j < n → ¬ StandsAt pattern l j := by
  induction n with
  | zero =>
    intro j hj
    omega
  | succ n ih =>
    rw [lastBelow] at h
    by_cases hn : StandsAt pattern l n
    · rw [if_pos hn] at h
      cases h
    · rw [if_neg hn] at h
      intro j hj
      by_cases hjn : j = n
      · rw [hjn]
        exact hn
      · exact ih h j (by omega)

/-! ## The search -/

section Block
variable {step back back' : ℕ} (hpos : 0 < pattern.length) (hle : back' ≤ l.length) (hstep : back' ≤ back + step)
  (hdone : ∀ q, l.length - back < q → ¬ StandsAt pattern l q)

include hpos hle hstep hdone in
theorem searchBlock_spec {r : ℕ} (hr : searchBlock pattern l step back' = r) :
    (r ≠ 0 → StandsAt pattern l r ∧ l.length - back' ≤ r ∧ ∀ q, r < q → ¬ StandsAt pattern l q) ∧
    (r = 0 → ∀ q, 0 < q → l.length - back' ≤ q → ¬ StandsAt pattern l q) := by
  simp only [searchBlock] at hr
  have hin : ∀ q, l.length - back' ≤ q → StandsAt pattern l q → _ :=
    fun q hq h => standsAt_in_block hpos hle hstep hdone rfl rfl hq h
  generalize hsize : min (step + pattern.length) (l.length - (l.length - back')) = size at hr hin
  generalize l.length - back' = pos at hr hin ⊢
  cases hlast : lastBelow pattern ((l.drop pos).take size) (size - (pattern.length - 1)) with
  | none =>
    rw [hlast] at hr
    refine ⟨fun hne => absurd hr.symm hne, fun _ q _ hq h => ?_⟩
    obtain ⟨hlt, hq'⟩ := hin q hq h
    exact lastBelow_eq_none hlast (q - pos) hlt hq'
  | some i =>
    rw [hlast] at hr
    obtain ⟨hlt, hi, hafter⟩ := lastBelow_eq_some hlast
    have hlater : ∀ q, pos + i < q → ¬ StandsAt pattern l q := by
      intro q hq h
      obtain ⟨hlt', hq'⟩ := hin q (by omega) h
      exact hafter (q - pos) (by omega) hlt' hq'
    subst hr
    refine ⟨fun _ => ⟨(standsAt_block (by omega)).mp hi, Nat.le_add_right pos i, hlater⟩, fun hzero q hq _ => ?_⟩
    have hzero' : pos + i = 0 := hzero
    exact hlater q (by omega)

end Block

theorem searched_from {step maxBack : ℕ} (hpos : 0 < pattern.length) (hstep : 0 < step)
    (hmax : maxBack ≤ l.length) (fuel back : ℕ) (hfuel : maxBack < back + fuel)
    (hle : back ≤ maxBack) (hdone : ∀ q, l.length - back < q → ¬ StandsAt pattern l q)
    (hend : back = maxBack → ∀ q, 0 < q → l.length - maxBack ≤ q → ¬ StandsAt pattern l q) :
    Searched pattern l maxBack (backSearch pattern l step maxBack fuel back) := by
  induction fuel generalizing back with
  | zero => omega
  | succ fuel ih =>
    rw [backSearch]
    by_cases hback : back < maxBack
    · rw [if_pos hback]
      have hnext : ∃ back', back' = (if maxBack < back + step then maxBack else back + step) ∧
          back < back' ∧ back' ≤ maxBack ∧ back' ≤ back + step := by
        refine ⟨_, rfl, ?_⟩
        split <;> omega
      obtain ⟨back', heq, hlt, hle', hstep'⟩ := hnext
      rw [← heq]
      obtain ⟨hfound, hnowhere⟩ := searchBlock_spec hpos (by omega) hstep' hdone rfl
      show Searched pattern l maxBack (if searchBlock pattern l step back' ≠ 0 then _ else _)
      by_cases hr : searchBlock pattern l step back' = 0
      · rw [if_neg (fun h => h hr)]
        refine ih back' (by omega) hle' (fun q hq => hnowhere hr q (by omega) (by omega)) fun hlast => ?_
        rw [← hlast]
        exact hnowhere hr
      · rw [if_pos hr]
        obtain ⟨hstands, hlow, hlater⟩ := hfound hr
        exact ⟨fun _ => ⟨hstands, by omega, hlater⟩, fun h => absurd h hr⟩
    · rw [if_neg hback]
      exact ⟨fun h => absurd rfl h, fun _ => hend (by omega)⟩

/-- The search over the last `cap` of the file. -/
theorem searched_backSearch {step cap : ℕ} (hpos : 0 < pattern.length) (hstep : 0 < step)
    (hcap : pattern.length < cap) :
    Searched pattern l (min cap l.length)
      (backSearch pattern l step (min cap l.length) (min cap l.length + 1) pattern.length) := by
  by_cases hle : pattern.length ≤ min cap l.length
  · refine searched_from hpos hstep (Nat.min_le_right cap l.length) _ _ (by omega) hle ?_ ?_
    · intro q hq h
      have := h.le_length hpos
      omega
    · intro hend q hq _ h
      have := h.le_length hpos
      omega
  · rw [backSearch, if_neg (by omega)]
    refine ⟨fun h => absurd rfl h, fun _ q hq _ h => ?_⟩
    have := h.le_length hpos
    omega

end AppUtil.Lib
