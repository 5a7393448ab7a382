import Mathlib.Tactic.Common
import Mathlib.Data.Nat.Notation

/-! # Programs that give up at a failed call

A program works on an outside world through calls that can fail, and gives up (`none`) at the
first failure that it does not handle. Which calls fail is up to an oracle: `fails n` is whether the
`n`-th call fails, counted over a whole run. A call that fails changes nothing.

`Ends P p Q E`: from a world in `P` the program `p` ends with a result and a world in `Q`, or gives
up in a world in `E`. There is one rule for each way to build a program. -/
namespace AppUtil.Lib
set_option autoImplicit false

/-- The world and the number of calls made so far. -/
structure Trace (σ : Type) where
  world : σ
  calls : ℕ

def Trace.map {σ τ : Type} (v : σ → τ) (t : Trace σ) : Trace τ := ⟨v t.world, t.calls⟩

def Attempt (σ α : Type) := (ℕ → Bool) → Trace σ → Option α × Trace σ

namespace Attempt
variable {σ α β : Type}

protected def pure (a : α) : Attempt σ α := fun _ t => (some a, t)

protected def bind (p : Attempt σ α) (f : α → Attempt σ β) : Attempt σ β := fun fails t =>
  match p fails t with
  | (some a, t) => f a fails t
  | (none, t) => (none, t)

instance : Monad (Attempt σ) where
  pure := Attempt.pure
  bind := Attempt.bind

theorem bind_run (p : Attempt σ α) (f : α → Attempt σ β) (fails : ℕ → Bool) (t : Trace σ) :
    (p >>= f) fails t = match p fails t with
      | (some a, t) => f a fails t
      | (none, t) => (none, t) := rfl

/-- Give up. -/
def giveUp : Attempt σ α := fun _ t => (none, t)

/-- A call. Besides the oracle its own answer can be a failure. -/
def call (f : σ → Option (α × σ)) : Attempt σ α := fun fails t =>
  if fails t.calls then
    (none, { t with calls := t.calls + 1 })
  else
    match f t.world with
    | some (a, w) => (some a, ⟨w, t.calls + 1⟩)
    | none => (none, { t with calls := t.calls + 1 })

/-- A call that reads. -/
def ask (f : σ → Option α) : Attempt σ α := call fun w => (f w).map fun a => (a, w)

/-- A call that writes and always answers. -/
def tell (f : σ → σ) : Attempt σ Unit := call fun w => some ((), f w)

/-- A change that is not up to a call. -/
def change (f : σ → σ) : Attempt σ Unit := fun _ t => (some (), { t with world := f t.world })

/-- Go on if the condition holds. -/
def require (c : σ → Bool) : Attempt σ Unit := fun _ t => (if c t.world then some () else none, t)

/-- Handle the failure. -/
def handled (p : Attempt σ α) : Attempt σ (Option α) := fun fails t =>
  match p fails t with
  | (r, t) => (some r, t)

/-! ## What a program ends in -/

def Ends (P : σ → Prop) (p : Attempt σ α) (Q : α → σ → Prop) (E : σ → Prop) : Prop :=
  ∀ fails t, P t.world →
    (∀ a, (p fails t).1 = some a → Q a (p fails t).2.world) ∧
    ((p fails t).1 = none → E (p fails t).2.world)

variable {P : σ → Prop} {Q : α → σ → Prop} {R : β → σ → Prop} {E : σ → Prop}

theorem Ends.pure {a : α} (h : ∀ w, P w → Q a w) : Ends P (pure a) Q E := by
  intro fails t hp
  refine ⟨fun b hb => ?_, fun hn => ?_⟩
  · cases hb
    exact h _ hp
  · cases hn

theorem Ends.bind {p : Attempt σ α} {f : α → Attempt σ β} (hp : Ends P p Q E)
    (hf : ∀ a, Ends (Q a) (f a) R E) : Ends P (p >>= f) R E := by
  intro fails t ht
  obtain ⟨hok, hno⟩ := hp fails t ht
  rw [bind_run]
  cases hx : p fails t with
  | mk r t' =>
    rw [hx] at hok hno
    cases r with
    | some a => exact hf a fails t' (hok a rfl)
    | none => exact ⟨fun b hb => (by cases hb), fun _ => hno rfl⟩

theorem Ends.giveUp (h : ∀ w, P w → E w) : Ends P (giveUp : Attempt σ α) Q E := by
  intro fails t hp
  exact ⟨fun a ha => (by cases ha), fun _ => h _ hp⟩

theorem Ends.call {f : σ → Option (α × σ)} (hok : ∀ w a w', P w → f w = some (a, w') → Q a w')
    (hno : ∀ w, P w → E w) : Ends P (call f) Q E := by
  intro fails t hp
  unfold Attempt.call
  by_cases hfail : fails t.calls = true
  · rw [if_pos hfail]
    exact ⟨fun a ha => (by cases ha), fun _ => hno _ hp⟩
  · rw [if_neg hfail]
    cases hx : f t.world with
    | none => exact ⟨fun a ha => (by cases ha), fun _ => hno _ hp⟩
    | some r =>
      refine ⟨fun a ha => ?_, fun hn => (by cases hn)⟩
      cases ha
      exact hok _ _ _ hp hx

theorem Ends.ask {f : σ → Option α} (hok : ∀ w a, P w → f w = some a → Q a w)
    (hno : ∀ w, P w → E w) : Ends P (ask f) Q E := by
  refine Ends.call (fun w a w' hp hx => ?_) hno
  obtain ⟨b, hb, heq⟩ := Option.map_eq_some_iff.mp hx
  cases heq
  exact hok w _ hp hb

theorem Ends.tell {f : σ → σ} {R : Unit → σ → Prop} (hok : ∀ w, P w → R () (f w))
    (hno : ∀ w, P w → E w) : Ends P (tell f) R E := by
  refine Ends.call (fun w a w' hp hx => ?_) hno
  cases hx
  exact hok w hp

theorem Ends.change {f : σ → σ} {R : Unit → σ → Prop} (h : ∀ w, P w → R () (f w)) :
    Ends P (change f) R E := by
  intro fails t hp
  exact ⟨fun _ _ => h _ hp, fun hn => (by cases hn)⟩

theorem Ends.require {c : σ → Bool} {R : Unit → σ → Prop} (hok : ∀ w, P w → c w = true → R () w)
    (hno : ∀ w, P w → c w = false → E w) : Ends P (require c) R E := by
  intro fails t hp
  unfold Attempt.require
  cases hc : c t.world with
  | true => exact ⟨fun _ _ => hok _ hp hc, fun hn => (by cases hn)⟩
  | false => exact ⟨fun _ ha => (by cases ha), fun _ => hno _ hp hc⟩

theorem Ends.handled {p : Attempt σ α} {S : Option α → σ → Prop}
    (hp : Ends P p (fun a w => S (some a) w) fun w => S none w) : Ends P (handled p) S E := by
  intro fails t ht
  obtain ⟨hok, hno⟩ := hp fails t ht
  unfold Attempt.handled
  cases hx : p fails t with
  | mk r t' =>
    rw [hx] at hok hno
    refine ⟨fun r' hr => ?_, fun hn => (by cases hn)⟩
    cases hr
    cases r with
    | some a => exact hok a rfl
    | none => exact hno rfl

theorem Ends.mono {P' : σ → Prop} {Q' : α → σ → Prop} {E' : σ → Prop} {p : Attempt σ α}
    (h : Ends P p Q E) (hP : ∀ w, P' w → P w) (hQ : ∀ a w, Q a w → Q' a w)
    (hE : ∀ w, E w → E' w) : Ends P' p Q' E' := by
  intro fails t ht
  obtain ⟨hok, hno⟩ := h fails t (hP _ ht)
  exact ⟨fun a ha => hQ a _ (hok a ha), fun hn => hE _ (hno hn)⟩

/-! ## Two programs with the same calls

`Refines v p q`: whatever fails, `p` gives the result of `q`, with as many calls, in a world that
`v` takes to the world of `q`. -/

variable {τ : Type} {v : σ → τ}

def Refines (v : σ → τ) (p : Attempt σ α) (q : Attempt τ α) : Prop :=
  ∀ fails t, q fails (Trace.map v t) = ((p fails t).1, Trace.map v (p fails t).2)

theorem Refines.pure (a : α) : Refines v (pure a) (pure a) := fun _ _ => rfl

theorem Refines.giveUp : Refines v (giveUp : Attempt σ α) giveUp := fun _ _ => rfl

theorem Refines.bind {p : Attempt σ α} {q : Attempt τ α} {f : α → Attempt σ β} {g : α → Attempt τ β}
    (hp : Refines v p q) (hf : ∀ a, Refines v (f a) (g a)) : Refines v (p >>= f) (q >>= g) := by
  intro fails t
  rw [bind_run, bind_run, hp fails t]
  cases hx : p fails t with
  | mk r t' =>
    cases r with
    | some a => exact hf a fails t'
    | none => rfl

/-- What only the lower level does. -/
theorem Refines.silent {p : Attempt σ Unit} {f : Attempt σ β} {q : Attempt τ β}
    (hp : ∀ fails t, (p fails t).1 = some () ∧ Trace.map v (p fails t).2 = Trace.map v t)
    (hf : Refines v f q) : Refines v (p >>= fun _ => f) q := by
  intro fails t
  obtain ⟨hr, ht⟩ := hp fails t
  rw [bind_run, ← ht]
  cases hx : p fails t with
  | mk r t' =>
    rw [hx] at hr
    obtain rfl : r = some () := hr
    exact hf fails t'

theorem Refines.call {f : σ → Option (α × σ)} {g : τ → Option (α × τ)}
    (h : ∀ w, g (v w) = (f w).map fun r => (r.1, v r.2)) : Refines v (call f) (call g) := by
  intro fails t
  unfold Attempt.call
  by_cases hfail : fails t.calls = true
  · rw [if_pos hfail, if_pos (by exact hfail)]
    rfl
  · rw [if_neg hfail, if_neg (by exact hfail)]
    have hg : g (Trace.map v t).world = (f t.world).map fun r => (r.1, v r.2) := h t.world
    rw [hg]
    cases f t.world with
    | none => rfl
    | some r => rfl

theorem Refines.require {c : σ → Bool} {d : τ → Bool} (h : ∀ w, d (v w) = c w) :
    Refines v (require c) (require d) := by
  intro fails t
  have hd : d (Trace.map v t).world = c t.world := h t.world
  unfold Attempt.require
  rw [hd]

theorem Refines.handled {p : Attempt σ α} {q : Attempt τ α} (hp : Refines v p q) :
    Refines v (handled p) (handled q) := by
  intro fails t
  unfold Attempt.handled
  rw [hp fails t]

end Attempt
end AppUtil.Lib
