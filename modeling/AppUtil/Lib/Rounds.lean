import AppUtil.Lib.Logged
import Mathlib.Data.List.Range
import Mathlib.Data.Nat.Notation

/-! # Loops without a bound

`loop round e fuel k` is a loop that does the rounds `k`, `k + 1`, ... and ends with the first one that
answers `true`; `e` is what it ends in when it would need more rounds than `fuel`. -/
namespace AppUtil.Lib.Logged
set_option autoImplicit false

variable {ι ε : Type}

def loop (round : ℕ → Logged ι ε Bool) (e : ε) : ℕ → ℕ → Logged ι ε Unit
  | 0, _ => lift (.error e)
  | fuel + 1, k => do
    let done ← round k
    if done then pure () else loop round e fuel (k + 1)

/-- The loop that starts with the round `k` gets through with the round `n`. -/
def EndsAt (round : ℕ → Logged ι ε Bool) (k n : ℕ) : Prop :=
  k ≤ n ∧ (round n).result = .ok true ∧ ∀ i, k ≤ i → i < n → (round i).result = .ok false

variable {round : ℕ → Logged ι ε Bool} {e : ε} {fuel k n : ℕ}

theorem EndsAt.here (h : (round k).result = .ok true) : EndsAt round k k :=
  ⟨Nat.le_refl k, h, fun _ hi hlt => absurd hlt (Nat.not_lt.mpr hi)⟩

/-- One round less. -/
theorem endsAt_succ (h : (round k).result = .ok false) : EndsAt round (k + 1) n ↔ EndsAt round k n := by
  constructor
  · rintro ⟨hle, hn, hbefore⟩
    refine ⟨by omega, hn, fun i hi hlt => ?_⟩
    rcases Nat.eq_or_lt_of_le hi with rfl | hk
    · exact h
    · exact hbefore i hk hlt
  · rintro ⟨hle, hn, hbefore⟩
    have hne : k ≠ n := by
      rintro rfl
      rw [h] at hn
      cases hn
    exact ⟨by omega, hn, fun i hi hlt => hbefore i (by omega) hlt⟩

theorem loop_ok_iff :
    (loop round e fuel k).result = .ok () ↔ ∃ n, n < k + fuel ∧ EndsAt round k n := by
  induction fuel generalizing k with
  | zero =>
    constructor
    · intro h
      cases h
    · rintro ⟨n, hlt, hle, -⟩
      omega
  | succ fuel ih =>
    unfold loop
    rw [bind_result]
    cases hk : (round k).result with
    | error f =>
      constructor
      · intro h
        cases h
      · rintro ⟨n, -, hle, hn, hbefore⟩
        rcases Nat.eq_or_lt_of_le hle with rfl | hlt
        · rw [hk] at hn
          cases hn
        · have hfalse := hbefore k (Nat.le_refl k) hlt
          rw [hk] at hfalse
          cases hfalse
    | ok done =>
      cases done with
      | true => exact ⟨fun _ => ⟨k, by omega, .here hk⟩, fun _ => rfl⟩
      | false =>
        refine Iff.trans (show _ ↔ (loop round e fuel (k + 1)).result = .ok () from Iff.rfl) (ih.trans ?_)
        constructor
        · rintro ⟨n, hlt, hn⟩
          exact ⟨n, by omega, (endsAt_succ hk).mp hn⟩
        · rintro ⟨n, hlt, hn⟩
          exact ⟨n, by omega, (endsAt_succ hk).mpr hn⟩

/-- With fuel enough the loop gets through when one of its rounds ends it. -/
theorem exists_loop_ok_iff :
    (∃ fuel, (loop round e fuel k).result = .ok ()) ↔ ∃ n, EndsAt round k n := by
  constructor
  · rintro ⟨fuel, h⟩
    obtain ⟨n, -, hn⟩ := loop_ok_iff.mp h
    exact ⟨n, hn⟩
  · rintro ⟨n, hn⟩
    exact ⟨n + 1, loop_ok_iff.mpr ⟨n, by omega, hn⟩⟩

/-- The log of a loop that gets through. -/
theorem loop_log (hn : EndsAt round k n) (hfuel : n < k + fuel) :
    (loop round e fuel k).log = (List.range' k (n + 1 - k)).flatMap fun i => (round i).log := by
  induction fuel generalizing k with
  | zero =>
    have := hn.1
    omega
  | succ fuel ih =>
    obtain ⟨m, hm⟩ : ∃ m, n + 1 - k = m + 1 := ⟨n - k, by have := hn.1; omega⟩
    rw [hm, List.range'_succ, List.flatMap_cons]
    unfold loop
    rcases Nat.eq_or_lt_of_le hn.1 with rfl | hlt
    · obtain rfl : m = 0 := by omega
      rw [bind_log_of_ok hn.2.1]
      rfl
    · have hk := hn.2.2 k (Nat.le_refl k) hlt
      have hrest := ih ((endsAt_succ hk).mpr hn) (by omega)
      rw [show n + 1 - (k + 1) = m by omega] at hrest
      rw [bind_log_of_ok hk, ← hrest]
      rfl

theorem only_loop {P : ι → Prop} (h : ∀ k, Only P (round k)) (fuel k : ℕ) :
    Only P (loop round e fuel k) := by
  induction fuel generalizing k with
  | zero => exact only_lift _
  | succ fuel ih =>
    unfold loop
    refine only_bind (h k) fun done => ?_
    cases done with
    | true => exact only_pure ()
    | false => exact ih (k + 1)

end AppUtil.Lib.Logged
