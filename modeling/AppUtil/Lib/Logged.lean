import Mathlib.Tactic.Common
import Mathlib.Data.List.Basic

/-! # Programs that can fail, with a log

A program leaves a list of entries, the oldest first, and ends with a result or an error; what it has
logged before an error stays. Without its log it is an ordinary program that can fail. -/
namespace AppUtil.Lib
set_option autoImplicit false

variable {ι ε α β : Type}

structure Logged (ι ε α : Type) where
  log : List ι
  result : Except ε α

namespace Logged

protected def pure (a : α) : Logged ι ε α := ⟨[], .ok a⟩

protected def bind (x : Logged ι ε α) (f : α → Logged ι ε β) : Logged ι ε β :=
  match x.result with
  | .error e => ⟨x.log, .error e⟩
  | .ok a => ⟨x.log ++ (f a).log, (f a).result⟩

instance instMonad : Monad (Logged ι ε) where
  pure := Logged.pure
  bind := Logged.bind

/-- A step with its entry. -/
def step (entry : ι) (x : Except ε α) : Logged ι ε α := ⟨[entry], x⟩

/-- A program without entries. -/
def lift (x : Except ε α) : Logged ι ε α := ⟨[], x⟩

/-- Each entry rewritten. -/
def mapLog {ι' : Type} (g : ι → ι') (x : Logged ι ε α) : Logged ι' ε α := ⟨x.log.map g, x.result⟩

@[simp] theorem lift_result (x : Except ε α) : (lift x : Logged ι ε α).result = x := rfl

@[simp] theorem lift_log (x : Except ε α) : (lift x : Logged ι ε α).log = [] := rfl

@[simp] theorem mapLog_result {ι' : Type} (g : ι → ι') (x : Logged ι ε α) :
    (x.mapLog g).result = x.result := rfl

@[simp] theorem mapLog_log {ι' : Type} (g : ι → ι') (x : Logged ι ε α) :
    (x.mapLog g).log = x.log.map g := rfl

@[simp] theorem pure_result (a : α) : (pure a : Logged ι ε α).result = .ok a := rfl

@[simp] theorem pure_log (a : α) : (pure a : Logged ι ε α).log = [] := rfl

@[simp] theorem step_result (entry : ι) (x : Except ε α) : (step entry x).result = x := rfl

@[simp] theorem step_log (entry : ι) (x : Except ε α) : (step entry x).log = [entry] := rfl

@[simp] theorem bind_result (x : Logged ι ε α) (f : α → Logged ι ε β) :
    (x >>= f).result = x.result >>= fun a => (f a).result := by
  obtain ⟨log, _ | a⟩ := x <;> rfl

theorem bind_log_of_ok {x : Logged ι ε α} {f : α → Logged ι ε β} {a : α} (h : x.result = .ok a) :
    (x >>= f).log = x.log ++ (f a).log := by
  obtain ⟨log, r⟩ := x
  obtain rfl : r = .ok a := h
  rfl

theorem bind_of_ok {x : Logged ι ε α} {f : α → Logged ι ε β} {a : α} (h : x.result = .ok a) :
    (x >>= f) = ⟨x.log ++ (f a).log, (f a).result⟩ := by
  obtain ⟨log, r⟩ := x
  obtain rfl : r = .ok a := h
  rfl

/-- A result that is computed from a step's adds nothing to the log. -/
theorem step_bind_pure_log (entry : ι) (x : Except ε α) (g : α → β) :
    (step entry x >>= fun a => pure (g a)).log = [entry] := by
  cases x <;> rfl

theorem mem_bind_log {x : Logged ι ε α} {f : α → Logged ι ε β} {entry : ι} :
    entry ∈ (x >>= f).log ↔ entry ∈ x.log ∨ ∃ a, x.result = .ok a ∧ entry ∈ (f a).log := by
  obtain ⟨log, e | a⟩ := x
  · constructor
    · exact .inl
    · rintro (h | ⟨a, h, -⟩)
      · exact h
      · cases h
  · show entry ∈ log ++ (f a).log ↔ _
    rw [List.mem_append]
    constructor
    · rintro (h | h)
      · exact .inl h
      · exact .inr ⟨a, rfl, h⟩
    · rintro (h | ⟨b, hb, h⟩)
      · exact .inl h
      · cases hb
        exact .inr h

@[simp] theorem lift_mapLog {ι' : Type} (g : ι → ι') (x : Except ε α) :
    (lift x : Logged ι ε α).mapLog g = lift x := rfl

@[simp] theorem bind_mapLog {ι' : Type} (g : ι → ι') (x : Logged ι ε α) (f : α → Logged ι ε β) :
    (x >>= f).mapLog g = x.mapLog g >>= fun a => (f a).mapLog g := by
  obtain ⟨log, e | a⟩ := x
  · rfl
  · show mapLog g ⟨log ++ (f a).log, (f a).result⟩ = ⟨log.map g ++ (f a).log.map g, (f a).result⟩
    rw [mapLog, List.map_append]

/-! ## What is logged at all -/

/-- Every entry of the program satisfies `P`. -/
def Only (P : ι → Prop) (x : Logged ι ε α) : Prop := ∀ entry ∈ x.log, P entry

section Only
variable {P : ι → Prop} {x : Logged ι ε α} {f : α → Logged ι ε β}

theorem only_pure (a : α) : Only P (pure a : Logged ι ε α) := fun _ h => nomatch h

theorem only_lift (x : Except ε α) : Only P (lift x : Logged ι ε α) := fun _ h => nomatch h

theorem only_step {entry : ι} {x : Except ε α} (h : P entry) : Only P (step entry x) := by
  intro e he
  rw [List.mem_singleton.mp he]
  exact h

theorem only_bind (hx : Only P x) (hf : ∀ a, Only P (f a)) : Only P (x >>= f) := by
  intro entry h
  rcases mem_bind_log.mp h with h | ⟨a, -, h⟩
  · exact hx entry h
  · exact hf a entry h

end Only

end Logged

/-! ## What may be logged when -/

/-- Each entry was permitted by the entries before it: those in `past`, and those of the log. -/
def Permitted (may : List ι → ι → Prop) : List ι → List ι → Prop
  | _, [] => True
  | past, entry :: log => may past entry ∧ Permitted may (past ++ [entry]) log

section Permitted
variable {may : List ι → ι → Prop} {past log later : List ι}

theorem permitted_append :
    Permitted may past (log ++ later) ↔ Permitted may past log ∧ Permitted may (past ++ log) later := by
  induction log generalizing past with
  | nil =>
    rw [List.nil_append, List.append_nil]
    exact ⟨fun h => ⟨trivial, h⟩, And.right⟩
  | cons entry log ih =>
    rw [List.cons_append, Permitted, Permitted, ih, List.append_assoc, List.singleton_append, and_assoc]

theorem Permitted.before (h : Permitted may past (log ++ later)) : Permitted may past log :=
  (permitted_append.mp h).1

/-- What every permitted entry preserves holds after the log. -/
theorem Permitted.preserves {I : List ι → Prop}
    (hstep : ∀ past entry, I past → may past entry → I (past ++ [entry]))
    (h : Permitted may past log) (hpast : I past) : I (past ++ log) := by
  induction log generalizing past with
  | nil =>
    rw [List.append_nil]
    exact hpast
  | cons entry log ih =>
    have hlog := ih h.2 (hstep past entry hpast h.1)
    rw [List.append_assoc, List.singleton_append] at hlog
    exact hlog

end Permitted

namespace Logged

/-- After `past` the program logs what it may, and where it ends with a result `Q` holds. -/
def Keeps (may : List ι → ι → Prop) (past : List ι) (Q : List ι → α → Prop) (x : Logged ι ε α) : Prop :=
  Permitted may past x.log ∧ ∀ a, x.result = .ok a → Q (past ++ x.log) a

section Keeps
variable {may : List ι → ι → Prop} {past : List ι} {Q : List ι → α → Prop} {R : List ι → β → Prop}

theorem keeps_pure {a : α} (h : Q past a) : Keeps may past Q (pure a : Logged ι ε α) := by
  refine ⟨trivial, fun b hb => ?_⟩
  cases hb
  rw [pure_log, List.append_nil]
  exact h

theorem keeps_lift {x : Except ε α} (h : ∀ a, x = .ok a → Q past a) :
    Keeps may past Q (lift x : Logged ι ε α) := by
  refine ⟨trivial, fun a ha => ?_⟩
  rw [lift_log, List.append_nil]
  exact h a ha

theorem keeps_step {entry : ι} {x : Except ε α} (hmay : may past entry)
    (h : ∀ a, x = .ok a → Q (past ++ [entry]) a) : Keeps may past Q (step entry x) :=
  ⟨⟨hmay, trivial⟩, h⟩

theorem keeps_bind {x : Logged ι ε α} {f : α → Logged ι ε β} (hx : Keeps may past Q x)
    (hf : ∀ past' a, Q past' a → Keeps may past' R (f a)) : Keeps may past R (x >>= f) := by
  obtain ⟨log, e | a⟩ := x
  · refine ⟨hx.1, fun b hb => ?_⟩
    cases hb
  · have ha := hf (past ++ log) a (hx.2 a rfl)
    refine ⟨permitted_append.mpr ⟨hx.1, ha.1⟩, fun b hb => ?_⟩
    have hb' := ha.2 b hb
    rw [List.append_assoc] at hb'
    exact hb'

/-- The result may be added to what holds behind the program. -/
theorem keeps_result {x : Logged ι ε α} (h : Keeps may past Q x) :
    Keeps may past (fun past' a => x.result = .ok a ∧ Q past' a) x :=
  ⟨h.1, fun a ha => ⟨ha, h.2 a ha⟩⟩

/-- After `past` the program logs what it may not, and it ends with an error. -/
def Breaks (may : List ι → ι → Prop) (past : List ι) (x : Logged ι ε α) : Prop :=
  ¬ Permitted may past x.log ∧ ∃ e, x.result = .error e

theorem Breaks.bind {x : Logged ι ε α} {f : α → Logged ι ε β} (h : Breaks may past x) :
    Breaks may past (x >>= f) := by
  obtain ⟨log, r⟩ := x
  obtain ⟨hlog, e, rfl⟩ := h
  exact ⟨hlog, e, rfl⟩

theorem breaks_of_ok {x : Logged ι ε α} {f : α → Logged ι ε β} {a : α} (hx : x.result = .ok a)
    (h : Breaks may (past ++ x.log) (f a)) : Breaks may past (x >>= f) := by
  rw [bind_of_ok hx]
  exact ⟨fun hlog => h.1 (permitted_append.mp hlog).2, h.2⟩

theorem breaks_step {entry : ι} {x : Except ε α} {f : α → Logged ι ε β} (h : ¬ may past entry)
    (hr : ∃ e, (step entry x >>= f).result = .error e) : Breaks may past (step entry x >>= f) := by
  refine ⟨fun hlog => h ?_, hr⟩
  cases x <;> exact hlog.1

theorem Keeps.mono {Q' : List ι → α → Prop} {x : Logged ι ε α} (h : Keeps may past Q x)
    (himp : ∀ past' a, Q past' a → Q' past' a) : Keeps may past Q' x :=
  ⟨h.1, fun a ha => himp _ a (h.2 a ha)⟩

end Keeps

end Logged

end AppUtil.Lib
