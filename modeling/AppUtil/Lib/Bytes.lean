import Mathlib.Data.List.Basic
import Mathlib.Data.Nat.Digits.Defs
import Mathlib.Tactic.Common

/-! # Numbers in a file

A number of a fixed width, its lowest byte first; readers that take bytes off what is left of the file; and
bytes that are written over others. -/
namespace AppUtil.Lib
set_option autoImplicit false

/-- The `n` low bytes of `x`. -/
def lowBytes : ℕ → ℕ → List UInt8
  | 0, _ => []
  | n + 1, x => UInt8.ofNat x :: lowBytes n (x / 256)

def ofBytes (bs : List UInt8) : ℕ := Nat.ofDigits 256 (bs.map UInt8.toNat)

@[simp] theorem length_lowBytes (n x : ℕ) : (lowBytes n x).length = n := by
  induction n generalizing x with
  | zero => rfl
  | succ n ih => rw [lowBytes, List.length_cons, ih]

theorem ofBytes_cons (b : UInt8) (bs : List UInt8) : ofBytes (b :: bs) = b.toNat + 256 * ofBytes bs := rfl

theorem ofBytes_lowBytes {n x : ℕ} (h : x < 256 ^ n) : ofBytes (lowBytes n x) = x := by
  induction n generalizing x with
  | zero =>
    have hx : x = 0 := by omega
    rw [hx]
    rfl
  | succ n ih =>
    have hdiv : x / 256 < 256 ^ n := by
      rw [Nat.pow_succ] at h
      omega
    rw [lowBytes, ofBytes_cons, ih hdiv, UInt8.toNat_ofNat']
    exact Nat.mod_add_div x 256

theorem ofBytes_replicate_max (n : ℕ) : ofBytes (List.replicate n 255) = 256 ^ n - 1 := by
  induction n with
  | zero => rfl
  | succ n ih =>
    have hpos : 0 < 256 ^ n := Nat.pow_pos (by decide)
    have hb : (255 : UInt8).toNat = 255 := rfl
    rw [List.replicate_succ, ofBytes_cons, ih, hb, Nat.pow_succ]
    omega

theorem ofBytes_lt (bs : List UInt8) : ofBytes bs < 256 ^ bs.length := by
  induction bs with
  | nil => exact Nat.one_pos
  | cons b bs ih =>
    have hb := b.toNat_lt
    rw [ofBytes_cons, List.length_cons, Nat.pow_succ]
    omega

/-! ## Readers -/

/-- A reader takes bytes off what is left of the file. -/
abbrev Reader := StateT (List UInt8) Option

namespace Reader
variable {α β : Type}

/-- `n` bytes, unless fewer are left. -/
def bytes (n : ℕ) : Reader (List UInt8) := fun rest =>
  if n ≤ rest.length then some (rest.take n, rest.drop n) else none

def skip (n : ℕ) : Reader Unit := fun rest => some ((), rest.drop n)

theorem run_bind_of_some {m : Reader α} {a : α} {s s' : List UInt8} (h : m.run s = some (a, s'))
    (k : α → Reader β) : (m >>= k).run s = (k a).run s' := by
  rw [StateT.run_bind, h]
  rfl

theorem run_bytes {n : ℕ} {bs : List UInt8} (h : bs.length = n) (rest : List UInt8) :
    (bytes n).run (bs ++ rest) = some (bs, rest) := by
  have hle : n ≤ (bs ++ rest).length := by
    rw [List.length_append, h]
    exact Nat.le_add_right n rest.length
  show (if n ≤ (bs ++ rest).length then some ((bs ++ rest).take n, (bs ++ rest).drop n) else none) = _
  rw [if_pos hle, ← h, List.take_left, List.drop_left]

theorem run_skip {n : ℕ} {bs : List UInt8} (h : bs.length = n) (rest : List UInt8) :
    (skip n).run (bs ++ rest) = some ((), rest) := by
  show some ((), (bs ++ rest).drop n) = _
  rw [← h, List.drop_left]

/-- What it reads has the property. -/
def Gives (m : Reader α) (P : α → Prop) : Prop := ∀ s a s', m.run s = some (a, s') → P a

theorem gives_pure {P : α → Prop} {a : α} (h : P a) : Gives (pure a) P := by
  intro s a' s' hrun
  obtain ⟨rfl, rfl⟩ := Prod.mk.inj (Option.some.inj hrun)
  exact h

theorem gives_any (m : Reader α) : Gives m fun _ => True := fun _ _ _ _ => trivial

theorem Gives.bind {m : Reader α} {k : α → Reader β} {P : α → Prop} {Q : β → Prop} (hm : Gives m P)
    (hk : ∀ a, P a → Gives (k a) Q) : Gives (m >>= k) Q := by
  intro s b s' h
  rw [StateT.run_bind] at h
  obtain ⟨⟨a, s₁⟩, hrun, hrest⟩ := Option.bind_eq_some_iff.mp h
  exact hk a (hm s a s₁ hrun) s₁ b s' hrest

theorem gives_bytes (n : ℕ) : Gives (bytes n) fun bs => bs.length = n := by
  intro s bs s' h
  by_cases hle : n ≤ s.length
  · have hrun : (bytes n).run s = some (s.take n, s.drop n) := if_pos hle
    rw [hrun] at h
    obtain ⟨rfl, -⟩ := Prod.mk.inj (Option.some.inj h)
    exact List.length_take_of_le hle
  · have hnone : (bytes n).run s = none := if_neg hle
    rw [hnone] at h
    cases h

end Reader

/-! ## Writing over -/

section Patch
variable {α : Type}

/-- `new` written over `l`, from `off` on. -/
def patch (off : ℕ) (new l : List α) : List α := l.take off ++ new ++ l.drop (off + new.length)

theorem patch_end (l new : List α) : patch l.length new l = l ++ new := by
  rw [patch, List.take_length, List.drop_of_length_le (Nat.le_add_right l.length new.length), List.append_nil]

theorem patch_over {off : ℕ} {old new : List α} (l rest : List α) (hoff : off = l.length)
    (h : new.length = old.length) : patch off new (l ++ (old ++ rest)) = l ++ (new ++ rest) := by
  subst hoff
  have hdrop : (l ++ (old ++ rest)).drop (l.length + new.length) = rest := by
    rw [← List.drop_drop, List.drop_left, h, List.drop_left]
  rw [patch, List.take_left, hdrop, List.append_assoc]

end Patch

end AppUtil.Lib
