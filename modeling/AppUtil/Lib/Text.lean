import Mathlib.Tactic.Common
import Mathlib.Data.List.Basic
import Mathlib.Data.Nat.Notation

/-! # Searching and cutting texts

The two operations of a string class that a hand-written parser uses, over lists of any symbols:
`find`, the position of the first occurrence of a pattern at or after a position (`none` for
`npos`), and `substr`; and words that are written one behind the other with a separator before
each. -/
namespace AppUtil.Lib.Text
set_option autoImplicit false

variable {α : Type} [DecidableEq α]

/-- The position of the first occurrence of `pat`. -/
def search (pat : List α) : List α → Option ℕ
  | [] => if pat = [] then some 0 else none
  | c :: s => if pat <+: c :: s then some 0 else (search pat s).map (· + 1)

/-- `s.find(pat, pos)`. -/
def find (s pat : List α) (pos : ℕ) : Option ℕ :=
  if pos ≤ s.length then (search pat (s.drop pos)).map (· + pos) else none

/-- `s.substr(pos, n)`. -/
def substr (s : List α) (pos n : ℕ) : List α := (s.drop pos).take n

theorem search_append (pat rest : List α) : search pat (pat ++ rest) = some 0 := by
  cases h : pat ++ rest with
  | nil => simp [search, (List.append_eq_nil_iff.mp h).1]
  | cons c s =>
    have hp : pat <+: c :: s := ⟨rest, h⟩
    simp [search, hp]

theorem search_symbol {c : α} {pre : List α} (hc : c ∉ pre) (rest : List α) :
    search [c] (pre ++ c :: rest) = some pre.length := by
  induction pre with
  | nil => simpa using search_append [c] rest
  | cons a pre ih =>
    obtain ⟨hne, hc⟩ := List.ne_and_not_mem_of_not_mem_cons hc
    have hp : ¬ [c] <+: a :: (pre ++ c :: rest) := by
      intro h
      exact hne (List.cons_prefix_cons.mp h).1
    simp [search, hp, ih hc]

/-- `pat` occurs in `s` at position `n` and nowhere before it. -/
def FirstAt (pat s : List α) (n : ℕ) : Prop := pat <+: s.drop n ∧ ∀ k < n, ¬ pat <+: s.drop k

omit [DecidableEq α] in
theorem firstAt_zero {pat s : List α} : FirstAt pat s 0 ↔ pat <+: s :=
  ⟨And.left, fun h => ⟨h, fun k hk => absurd hk (Nat.not_lt_zero k)⟩⟩

omit [DecidableEq α] in
theorem firstAt_succ {pat s : List α} {c : α} {n : ℕ} :
    FirstAt pat (c :: s) (n + 1) ↔ ¬ pat <+: c :: s ∧ FirstAt pat s n := by
  constructor
  · rintro ⟨hn, hbefore⟩
    exact ⟨hbefore 0 (Nat.succ_pos n), hn, fun k hk => hbefore (k + 1) (Nat.succ_lt_succ hk)⟩
  · rintro ⟨h0, hn, hbefore⟩
    refine ⟨hn, fun k hk => ?_⟩
    cases k with
    | zero => exact h0
    | succ k => exact hbefore k (Nat.lt_of_succ_lt_succ hk)

omit [DecidableEq α] in
/-- What stands before the first occurrence, and what stands behind it. -/
theorem FirstAt.split {pat s : List α} {n : ℕ} (h : FirstAt pat s n) (hp : pat ≠ []) :
    ∃ pre rest, s = pre ++ pat ++ rest ∧ pre.length = n := by
  obtain ⟨rest, hr⟩ := h.1
  refine ⟨s.take n, rest, by rw [List.append_assoc, hr, List.take_append_drop], ?_⟩
  have hpos := List.length_pos_iff.mpr hp
  have hlen := congrArg List.length hr
  simp only [List.length_append, List.length_drop] at hlen
  rw [List.length_take]
  omega

theorem search_eq_some {pat s : List α} {n : ℕ} : search pat s = some n ↔ FirstAt pat s n := by
  induction s generalizing n with
  | nil =>
    unfold search FirstAt
    simp only [List.drop_nil, List.prefix_nil]
    by_cases hp : pat = []
    · simp only [hp, if_true, Option.some.injEq, not_true_eq_false, true_and]
      constructor
      · rintro rfl k hk
        exact Nat.not_lt_zero k hk
      · intro h
        by_contra hn
        exact h 0 (by omega)
    · simp [hp]
  | cons c s ih =>
    unfold search
    by_cases hp : pat <+: c :: s
    · rw [if_pos hp]
      cases n with
      | zero => simp [firstAt_zero, hp]
      | succ n => simp [firstAt_succ, hp]
    · rw [if_neg hp]
      cases n with
      | zero => simp [firstAt_zero, hp]
      | succ n => simp [firstAt_succ, hp, ih]

/-- What stands before the first occurrence of a symbol, and what stands behind it. -/
theorem split_of_search {c : α} {s : List α} {n : ℕ} (h : search [c] s = some n) :
    ∃ pre rest, s = pre ++ c :: rest ∧ c ∉ pre ∧ pre.length = n := by
  induction s generalizing n with
  | nil => simp [search] at h
  | cons a s ih =>
    rw [search] at h
    by_cases hp : [c] <+: a :: s
    · rw [if_pos hp] at h
      obtain rfl := (List.cons_prefix_cons.mp hp).1
      exact ⟨[], s, rfl, List.not_mem_nil, Option.some.inj h⟩
    · rw [if_neg hp] at h
      obtain ⟨m, hm, rfl⟩ := Option.map_eq_some_iff.mp h
      obtain ⟨pre, rest, rfl, hpre, rfl⟩ := ih hm
      have hca : c ≠ a := by
        rintro rfl
        exact hp (List.prefix_append [c] _)
      exact ⟨a :: pre, rest, rfl, List.not_mem_cons_of_ne_of_not_mem hca hpre, rfl⟩

theorem find_zero (s pat : List α) : find s pat 0 = search pat s := by
  simp [find]

/-- The symbol found at or after the end of `pre`. -/
theorem split_of_find {s pre rest : List α} {c : α} {n : ℕ} (hs : s = pre ++ rest)
    (h : find s [c] pre.length = some n) :
    ∃ mid rest', rest = mid ++ c :: rest' ∧ c ∉ mid ∧ n = pre.length + mid.length := by
  subst hs
  simp only [find, List.length_append, Nat.le_add_right, if_true, List.drop_left,
    Option.map_eq_some_iff] at h
  obtain ⟨m, hm, rfl⟩ := h
  obtain ⟨mid, rest', rfl, hmid, rfl⟩ := split_of_search hm
  exact ⟨mid, rest', rfl, hmid, Nat.add_comm _ _⟩

theorem find_of_split {s pat pre rest : List α} {n : ℕ} (hs : s = pre ++ rest)
    (hn : search pat rest = some n) : find s pat pre.length = some (pre.length + n) := by
  subst hs
  simp [find, hn, Nat.add_comm]

omit [DecidableEq α] in
theorem substr_of_split {s : List α} (pre mid rest : List α) (hs : s = pre ++ mid ++ rest) :
    substr s pre.length mid.length = mid := by
  subst hs
  simp [substr]

/-! ## Words behind a separator -/

/-- Each word with `sep` before it. -/
def joined (sep : α) (ws : List (List α)) : List α := ws.flatMap (sep :: ·)

omit [DecidableEq α] in
theorem joined_cons (sep : α) (w : List α) (ws : List (List α)) :
    joined sep (w :: ws) = sep :: (w ++ joined sep ws) := rfl

/-- The first word ends where the next separator stands. -/
theorem takeWhile_joined {sep : α} {w : List α} (hw : sep ∉ w) (ws : List (List α)) :
    (w ++ joined sep ws).takeWhile (· ≠ sep) = w := by
  have hall : ∀ a ∈ w, decide (a ≠ sep) = true := by
    intro a ha
    refine decide_eq_true fun h => hw ?_
    rw [← h]
    exact ha
  have hrest : (joined sep ws).takeWhile (· ≠ sep) = [] := by
    cases ws with
    | nil => rfl
    | cons v vs =>
      rw [joined_cons]
      exact List.takeWhile_cons_of_neg (by simp)
  rw [List.takeWhile_append_of_pos hall, hrest, List.append_nil]

/-- Words without the separator can be read back. -/
theorem joined_inj {sep : α} {ws vs : List (List α)} (hw : ∀ w ∈ ws, sep ∉ w) (hv : ∀ v ∈ vs, sep ∉ v)
    (h : joined sep ws = joined sep vs) : ws = vs := by
  induction ws generalizing vs with
  | nil =>
    cases vs with
    | nil => rfl
    | cons v vs => cases h
  | cons w ws ih =>
    cases vs with
    | nil => cases h
    | cons v vs =>
      rw [joined_cons, joined_cons] at h
      have htail := (List.cons.inj h).2
      have hword : w = v := by
        have hcut := congrArg (List.takeWhile (· ≠ sep)) htail
        rw [takeWhile_joined (hw w (List.mem_cons_self ..)),
          takeWhile_joined (hv v (List.mem_cons_self ..))] at hcut
        exact hcut
      subst hword
      have hrest := List.append_cancel_left htail
      rw [ih (fun u hu => hw u (List.mem_cons_of_mem w hu)) (fun u hu => hv u (List.mem_cons_of_mem w hu))
        hrest]

/-- The same with a first word that has no separator before it. -/
theorem append_joined_inj {sep : α} {w v : List α} {ws vs : List (List α)} (hw : sep ∉ w) (hv : sep ∉ v)
    (hws : ∀ u ∈ ws, sep ∉ u) (hvs : ∀ u ∈ vs, sep ∉ u) (h : w ++ joined sep ws = v ++ joined sep vs) :
    w = v ∧ ws = vs := by
  have hword : w = v := by
    have hcut := congrArg (List.takeWhile (· ≠ sep)) h
    rw [takeWhile_joined hw, takeWhile_joined hv] at hcut
    exact hcut
  subst hword
  exact ⟨rfl, joined_inj hws hvs (List.append_cancel_left h)⟩

end AppUtil.Lib.Text
