import Mathlib.Tactic.Common
import Mathlib.Data.Nat.Notation
import Mathlib.Logic.Function.Basic

/-! # A heap of objects with explicit deletion

Addresses are handed out in order and never again. A cell is live until it is deleted; using or
deleting a dead address is a fault. The two fields `fresh` and `once` are carried by every heap,
so no sequence of operations can delete an address twice. -/
namespace AppUtil.Lib
set_option autoImplicit false

/-- What goes wrong when a pointer is misused. -/
inductive Fault where
  | nullPointer
  | useAfterFree
  | doubleFree
  deriving DecidableEq, Repr

structure Heap (α : Type) where
  next : ℕ
  cell : ℕ → Option α
  frees : ℕ → ℕ
  fresh : ∀ a, next ≤ a → cell a = none ∧ frees a = 0
  once : ∀ a, a < next → frees a = if (cell a).isSome then 0 else 1

namespace Heap
variable {α : Type}

def empty : Heap α where
  next := 0
  cell := fun _ => none
  frees := fun _ => 0
  fresh := fun _ _ => ⟨rfl, rfl⟩
  once := fun _ h => absurd h (Nat.not_lt_zero _)

theorem lt_next {h : Heap α} {a : ℕ} {v : α} (hv : h.cell a = some v) : a < h.next := by
  by_contra hn
  have := (h.fresh a (Nat.le_of_not_lt hn)).1
  rw [hv] at this
  cases this

/-- `new`: the object is put at the next address. -/
def alloc (h : Heap α) (v : α) : Heap α where
  next := h.next + 1
  cell := fun a => if a = h.next then some v else h.cell a
  frees := h.frees
  fresh := by
    intro a ha
    have hne : a ≠ h.next := by omega
    simpa [hne] using h.fresh a (by omega)
  once := by
    intro a ha
    by_cases e : a = h.next
    · simpa [e] using (h.fresh h.next (Nat.le_refl _)).2
    · simpa [e] using h.once a (by omega)

/-- Change the object at `a` in place; nothing happens at a dead address. -/
def modify (h : Heap α) (a : ℕ) (f : α → α) : Heap α where
  next := h.next
  cell := fun b => if b = a then (h.cell b).map f else h.cell b
  frees := h.frees
  fresh := by
    intro b hb
    have := h.fresh b hb
    by_cases e : b = a <;> simp [e, this] at this ⊢
    · simpa [e] using this
  once := by
    intro b hb
    have := h.once b hb
    by_cases e : b = a
    · subst e; simpa using this
    · simpa [e] using this

/-- Take the object at `a` out of the heap; nothing happens at a dead address. -/
def remove (h : Heap α) (a : ℕ) : Heap α where
  next := h.next
  cell := fun b => if b = a then none else h.cell b
  frees := fun b => if b = a ∧ (h.cell b).isSome then h.frees b + 1 else h.frees b
  fresh := by
    intro b hb
    have := h.fresh b hb
    simp [this]
  once := by
    intro b hb
    have := h.once b hb
    by_cases e : b = a
    · subst e
      cases hc : h.cell b <;> simp [hc] at this ⊢ <;> exact this
    · simpa [e] using this

/-- Reading through a pointer. -/
def deref (h : Heap α) (a : ℕ) : Except Fault α :=
  match h.cell a with
  | some v => .ok v
  | none => .error .useAfterFree

/-- `delete`. -/
def free (h : Heap α) (a : ℕ) : Except Fault (Heap α) :=
  match h.cell a with
  | some _ => .ok (h.remove a)
  | none => .error .doubleFree

@[simp] theorem modify_next (h : Heap α) (a : ℕ) (f : α → α) : (h.modify a f).next = h.next := rfl

theorem alloc_cell (h : Heap α) (v : α) (a : ℕ) :
    (h.alloc v).cell a = if a = h.next then some v else h.cell a := rfl

@[simp] theorem alloc_cell_next (h : Heap α) (v : α) : (h.alloc v).cell h.next = some v := by
  simp [alloc_cell]

theorem alloc_cell_of_live {h : Heap α} {a : ℕ} {w : α} (v : α) (ha : h.cell a = some w) :
    (h.alloc v).cell a = some w := by
  have : a ≠ h.next := Nat.ne_of_lt (lt_next ha)
  simpa [alloc_cell, this] using ha

theorem modify_cell (h : Heap α) (a b : ℕ) (f : α → α) :
    (h.modify a f).cell b = if b = a then (h.cell b).map f else h.cell b := rfl

theorem remove_cell (h : Heap α) (a b : ℕ) :
    (h.remove a).cell b = if b = a then none else h.cell b := rfl

theorem deref_eq_ok {h : Heap α} {a : ℕ} {v : α} : h.deref a = .ok v ↔ h.cell a = some v := by
  unfold deref
  cases hc : h.cell a <;> simp

theorem deref_ok {h : Heap α} {a : ℕ} {v : α} (hv : h.cell a = some v) : h.deref a = .ok v :=
  deref_eq_ok.mpr hv

theorem free_ok {h : Heap α} {a : ℕ} {v : α} (hv : h.cell a = some v) :
    h.free a = .ok (h.remove a) := by
  simp [free, hv]

theorem free_eq_ok {h h' : Heap α} {a : ℕ} (hf : h.free a = .ok h') :
    (∃ v, h.cell a = some v) ∧ h' = h.remove a := by
  unfold free at hf
  cases hc : h.cell a with
  | none => rw [hc] at hf; cases hf
  | some v => rw [hc] at hf; exact ⟨⟨v, rfl⟩, (Except.ok.inj hf).symm⟩

/-- An address that was handed out and is dead has been deleted exactly once. -/
theorem frees_eq_one {h : Heap α} {a : ℕ} (ha : a < h.next) (hc : h.cell a = none) :
    h.frees a = 1 := by
  simpa [hc] using h.once a ha

/-! ## The cells as a partial map -/

theorem update_eq_some {c : ℕ → Option α} {i j : ℕ} {v w : α} :
    Function.update c i (some v) j = some w ↔ j = i ∧ w = v ∨ j ≠ i ∧ c j = some w := by
  by_cases hji : j = i
  · subst hji
    rw [Function.update_self, Option.some.injEq]
    exact ⟨fun h => Or.inl ⟨rfl, h.symm⟩, fun h => h.elim (fun h => h.2.symm) fun h => absurd rfl h.1⟩
  · rw [Function.update_of_ne hji]
    exact ⟨fun h => Or.inr ⟨hji, h⟩, fun h => h.elim (fun h => absurd h.1 hji) And.right⟩

theorem exists_update {c : ℕ → Option α} {i : ℕ} {v v' : α} {P : α → Prop} (hi : c i = some v)
    (hP : P v → P v') (h : ∃ j w, c j = some w ∧ P w) :
    ∃ j w, Function.update c i (some v') j = some w ∧ P w := by
  obtain ⟨j, w, hw, hPw⟩ := h
  by_cases hji : j = i
  · subst hji
    obtain rfl := Option.some.inj (hi.symm.trans hw)
    exact ⟨j, v', Function.update_self .., hP hPw⟩
  · exact ⟨j, w, by rw [Function.update_of_ne hji, hw], hPw⟩

theorem modify_eq_update {h : Heap α} {a : ℕ} {v : α} (f : α → α) (hv : h.cell a = some v) :
    (h.modify a f).cell = Function.update h.cell a (some (f v)) := by
  funext b
  rw [modify_cell, Function.update_apply]
  by_cases hba : b = a
  · rw [if_pos hba, if_pos hba, hba, hv]
    rfl
  · rw [if_neg hba, if_neg hba]

end Heap
end AppUtil.Lib
