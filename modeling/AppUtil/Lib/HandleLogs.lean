import AppUtil.Lib.Lifetime
import AppUtil.Lib.Logged

/-! # Programs that open and close handles

A program that logs its opens, uses and closes, the oldest first. With `Open fresh held` before a call, one
rule for each kind of call says what is open behind it; a program is gone through from its first call to its
last. -/
namespace AppUtil.Lib
open Lifetime
set_option autoImplicit false

variable {α ε β γ : Type} {past : List (Event α)} {held : List (α × Option α)}

/-- What may be logged after a log that is written oldest first. -/
def MayHappen (past : List (Event α)) (e : Event α) : Prop := Allowed past.reverse e

/-- Nothing of the kinds in `fresh` has been opened, and `held` is what is open. -/
structure Open (fresh : α → Prop) (held : List (α × Option α)) (past : List (Event α)) : Prop where
  owes : Owes past.reverse held
  unborn : ∀ x, fresh x → ¬ Born past.reverse x

theorem disciplined_of_permitted {log : List (Event α)} (h : Permitted MayHappen past log)
    (hpast : Disciplined past.reverse) : Disciplined (past ++ log).reverse := by
  refine Permitted.preserves (I := fun l => Disciplined l.reverse) (fun l e hl he => ?_) h hpast
  rw [List.reverse_append]
  exact ⟨he, hl⟩

variable (past) in
theorem permitted_of_disciplined {log : List (Event α)} (h : Disciplined (past ++ log).reverse) :
    Permitted MayHappen past log := by
  induction log generalizing past with
  | nil => trivial
  | cons e log ih =>
    rw [← List.singleton_append, ← List.append_assoc] at h
    refine ⟨?_, ih _ h⟩
    rw [List.reverse_append, List.reverse_append] at h
    exact h.allowed

namespace Open
variable {fresh F : α → Prop} {x : α} {p : Option α}

theorem start : Open fresh [] ([] : List (Event α)) := ⟨.nil, fun x _ h => by
  obtain ⟨p, hp⟩ := h
  cases hp⟩

theorem weaken (h : Open fresh held past) (hf : ∀ x, F x → fresh x) : Open F held past :=
  ⟨h.owes, fun x hx => h.unborn x (hf x hx)⟩

theorem perm {held' : List (α × Option α)} (h : Open fresh held past) (hp : held.Perm held') :
    Open fresh held' past :=
  ⟨h.owes.perm hp, h.unborn⟩

theorem born (h : Open fresh held past) (hx : fresh x) (hp : ∀ q, p = some q → q ∈ held.map Prod.fst)
    (hf : ∀ y, F y → fresh y ∧ y ≠ x) :
    MayHappen past (.born x p) ∧ Open F ((x, p) :: held) (past ++ [.born x p]) := by
  have howes := h.owes.born (h.unborn x hx) hp
  refine ⟨howes.disciplined.1, ?_, fun y hy hb => ?_⟩
  · rw [List.reverse_append]
    exact howes
  · rw [List.reverse_append] at hb
    obtain ⟨q, hq⟩ := hb
    rcases List.mem_cons.mp hq with heq | hq
    · exact (hf y hy).2 (Event.born.inj heq).1
    · exact h.unborn y (hf y hy).1 ⟨q, hq⟩

theorem used (h : Open fresh held past) (hx : x ∈ held.map Prod.fst) :
    MayHappen past (.used x) ∧ Open fresh held (past ++ [.used x]) := by
  have howes := h.owes.used hx
  refine ⟨howes.disciplined.1, ?_, fun y hy hb => ?_⟩
  · rw [List.reverse_append]
    exact howes
  · rw [List.reverse_append] at hb
    obtain ⟨q, hq⟩ := hb
    exact h.unborn y hy ⟨q, born_of_cons_used hq⟩

theorem died (h : Open fresh ((x, p) :: held) past) (hc : ∀ y, (y, some x) ∉ held) :
    MayHappen past (.died x) ∧ Open fresh held (past ++ [.died x]) := by
  have howes := h.owes.died hc
  refine ⟨howes.disciplined.1, ?_, fun y hy hb => ?_⟩
  · rw [List.reverse_append]
    exact howes
  · rw [List.reverse_append] at hb
    obtain ⟨q, hq⟩ := hb
    exact h.unborn y hy ⟨q, born_of_cons_died hq⟩

end Open

/-- What has not been opened may not be used. -/
theorem Open.not_used {fresh : α → Prop} {x : α} (h : Open fresh held past) (hx : fresh x) :
    ¬ MayHappen past (.used x) := fun hmay => h.unborn x hx hmay.1

/-! ## Steps of such a program -/

section Steps
variable {fresh F : α → Prop} {x : α} {p : Option α} {r : Except ε β} {f : β → Logged (Event α) ε γ}
  {R : List (Event α) → γ → Prop}

theorem keeps_born (h : Open fresh held past) (hx : fresh x) (hp : ∀ q, p = some q → q ∈ held.map Prod.fst)
    (hf : ∀ y, F y → fresh y ∧ y ≠ x)
    (hrest : ∀ past' b, r = .ok b → Open F ((x, p) :: held) past' → (f b).Keeps MayHappen past' R) :
    (Logged.step (.born x p) r >>= f).Keeps MayHappen past R := by
  obtain ⟨hmay, hopen⟩ := h.born hx hp hf
  exact Logged.keeps_bind (Q := fun past' b => r = .ok b ∧ Open F ((x, p) :: held) past')
    (Logged.keeps_step hmay fun b hb => ⟨hb, hopen⟩) fun past' b hb => hrest past' b hb.1 hb.2

theorem keeps_used (h : Open fresh held past) (hx : x ∈ held.map Prod.fst)
    (hrest : ∀ past' b, r = .ok b → Open fresh held past' → (f b).Keeps MayHappen past' R) :
    (Logged.step (.used x) r >>= f).Keeps MayHappen past R := by
  obtain ⟨hmay, hopen⟩ := h.used hx
  exact Logged.keeps_bind (Q := fun past' b => r = .ok b ∧ Open fresh held past')
    (Logged.keeps_step hmay fun b hb => ⟨hb, hopen⟩) fun past' b hb => hrest past' b hb.1 hb.2

theorem keeps_died (h : Open fresh ((x, p) :: held) past) (hc : ∀ y, (y, some x) ∉ held)
    (hrest : ∀ past' b, r = .ok b → Open fresh held past' → (f b).Keeps MayHappen past' R) :
    (Logged.step (.died x) r >>= f).Keeps MayHappen past R := by
  obtain ⟨hmay, hopen⟩ := h.died hc
  exact Logged.keeps_bind (Q := fun past' b => r = .ok b ∧ Open fresh held past')
    (Logged.keeps_step hmay fun b hb => ⟨hb, hopen⟩) fun past' b hb => hrest past' b hb.1 hb.2

end Steps

end AppUtil.Lib
