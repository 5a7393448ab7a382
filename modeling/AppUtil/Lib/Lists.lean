import Mathlib.Data.List.Basic
import Mathlib.Data.Nat.Notation

/-! # Lists whose entries are replaced in place or added at the end -/
namespace AppUtil.Lib
set_option autoImplicit false
variable {α : Type} {l : List α} {j : ℕ} {a a' : α}

theorem forall_set {P : ℕ → α → Prop} (h : ∀ (k : ℕ) b, k ≠ j → l[k]? = some b → P k b) (ha : P j a') :
    ∀ (k : ℕ) b, (l.set j a')[k]? = some b → P k b := by
  intro k b hk
  by_cases hkj : k = j
  · subst hkj
    rw [List.getElem?_set_self'] at hk
    obtain ⟨-, -, rfl⟩ := Option.map_eq_some_iff.mp hk
    exact ha
  · rw [List.getElem?_set_ne (Ne.symm hkj)] at hk
    exact h k b hkj hk

theorem exists_set {P : α → Prop} (hj : l[j]? = some a) (ha : P a → P a')
    (h : ∃ (k : ℕ) (b : α), l[k]? = some b ∧ P b) :
    ∃ (k : ℕ) (b : α), (l.set j a')[k]? = some b ∧ P b := by
  obtain ⟨k, b, hk, hb⟩ := h
  by_cases hkj : k = j
  · subst hkj
    obtain rfl : a = b := Option.some.inj (hj.symm.trans hk)
    refine ⟨k, a', ?_, ha hb⟩
    rw [List.getElem?_set_self', hj]
    rfl
  · refine ⟨k, b, ?_, hb⟩
    rw [List.getElem?_set_ne (Ne.symm hkj)]
    exact hk

theorem getElem?_set_of_some (hj : l[j]? = some a) : (l.set j a')[j]? = some a' := by
  rw [List.getElem?_set_self', hj]
  rfl

theorem getElem?_concat_cases {k : ℕ} {b : α} (h : (l ++ [a])[k]? = some b) :
    l[k]? = some b ∨ k = l.length ∧ b = a := by
  rw [List.getElem?_append] at h
  by_cases hk : k < l.length
  · rw [if_pos hk] at h
    exact .inl h
  · rw [if_neg hk, List.getElem?_singleton] at h
    by_cases h0 : k - l.length = 0
    · rw [if_pos h0] at h
      exact .inr ⟨by omega, (Option.some.inj h).symm⟩
    · rw [if_neg h0] at h
      cases h

theorem getElem?_concat_of_some {b : α} (hj : l[j]? = some b) : (l ++ [a])[j]? = some b := by
  obtain ⟨hlt, -⟩ := List.getElem?_eq_some_iff.mp hj
  rw [List.getElem?_append_left hlt]
  exact hj

/-! ## Counting -/

theorem countP_set_of_some (p : α → Bool) (hj : l[j]? = some a) (a' : α) :
    (l.set j a').countP p + (if p a then 1 else 0) = l.countP p + (if p a' then 1 else 0) := by
  induction l generalizing j with
  | nil => cases hj
  | cons b l ih =>
    cases j with
    | zero =>
      obtain rfl : b = a := Option.some.inj hj
      rw [List.set_cons_zero, List.countP_cons, List.countP_cons]
      omega
    | succ j =>
      have h := ih (j := j) hj
      rw [List.set_cons_succ, List.countP_cons, List.countP_cons]
      omega

theorem one_le_countP (p : α → Bool) (hj : l[j]? = some a) (ha : p a) : 1 ≤ l.countP p :=
  List.countP_pos_iff.mpr ⟨a, List.mem_of_getElem? hj, ha⟩

theorem two_le_countP (p : α → Bool) {k : ℕ} {b : α} (hj : l[j]? = some a) (hk : l[k]? = some b)
    (hjk : j ≠ k) (ha : p a) (hb : p b) : 2 ≤ l.countP p := by
  induction l generalizing j k with
  | nil => cases hj
  | cons c l ih =>
    rw [List.countP_cons]
    cases j with
    | zero =>
      obtain rfl : c = a := Option.some.inj hj
      cases k with
      | zero => exact absurd rfl hjk
      | succ k =>
        have h := one_le_countP (l := l) (j := k) p hk hb
        rw [if_pos ha]
        omega
    | succ j =>
      cases k with
      | zero =>
        obtain rfl : c = b := Option.some.inj hk
        have h := one_le_countP (l := l) (j := j) p hj ha
        rw [if_pos hb]
        omega
      | succ k =>
        have h := ih (j := j) (k := k) hj hk (fun h => hjk (congrArg _ h))
        omega

/-! ## At most one for each -/

section AtMostOne
variable {β : Type} {f : α → List β} {g : α → β} {xs ys : List α}

theorem length_flatMap_le (hf : ∀ x, (f x).length ≤ 1) (xs : List α) :
    (xs.flatMap f).length ≤ xs.length := by
  induction xs with
  | nil => exact Nat.le_refl 0
  | cons x xs ih =>
    rw [List.flatMap_cons, List.length_append, List.length_cons]
    have := hf x
    omega

/-- Where each gives at most one, a list that has one for each has left nobody out. -/
theorem flatMap_eq_map (hsub : List.Sublist xs ys) (hf : ∀ x, (f x).length ≤ 1)
    (h : xs.flatMap f = ys.map g) : xs = ys ∧ ∀ x ∈ ys, f x = [g x] := by
  have hlen := length_flatMap_le hf xs
  rw [h, List.length_map] at hlen
  obtain rfl : xs = ys := hsub.eq_of_length_le hlen
  refine ⟨rfl, ?_⟩
  clear hsub hlen
  induction xs with
  | nil => exact fun x hx => absurd hx List.not_mem_nil
  | cons a xs ih =>
    rw [List.flatMap_cons, List.map_cons] at h
    have hone := hf a
    cases hfa : f a with
    | nil =>
      -- one is missing
      have hle := length_flatMap_le hf xs
      rw [hfa, List.nil_append] at h
      rw [h, List.length_cons, List.length_map] at hle
      exact absurd hle (Nat.not_succ_le_self _)
    | cons b bs =>
      rw [hfa, List.length_cons] at hone
      obtain rfl : bs = [] := List.eq_nil_of_length_eq_zero (by omega)
      rw [hfa, List.singleton_append] at h
      obtain ⟨rfl, hrest⟩ := List.cons.inj h
      intro x hx
      rcases List.mem_cons.mp hx with rfl | hx
      · exact hfa
      · exact ih hrest x hx

end AtMostOne

end AppUtil.Lib
