import Mathlib.Tactic.Common
import Mathlib.Data.List.Basic
import Mathlib.Data.List.Perm.Basic
import Mathlib.Data.Nat.Notation

/-! # Lifetimes of objects that own other objects

A log records the births, uses and deaths of objects, newest first. An object may be born from a
parent. In a disciplined log a child is born while its parent is alive, nothing dead is used or
dies again, and an object dies only after all of its children. -/
namespace AppUtil.Lib.Lifetime
set_option autoImplicit false

inductive Event (α : Type) where
  | born (x : α) (parent : Option α)
  | used (x : α)
  | died (x : α)
  deriving DecidableEq, Repr

variable {α : Type}

def Born (past : List (Event α)) (x : α) : Prop := ∃ p, Event.born x p ∈ past

def Alive (past : List (Event α)) (x : α) : Prop := Born past x ∧ Event.died x ∉ past

/-- What may happen after `past`. -/
def Allowed (past : List (Event α)) : Event α → Prop
  | .born x p => ¬ Born past x ∧ ∀ q, p = some q → Alive past q
  | .used x => Alive past x
  | .died x => Alive past x ∧ ∀ y, Event.born y (some x) ∈ past → Event.died y ∈ past

/-- Every event of the log was allowed when it happened. -/
def Disciplined : List (Event α) → Prop
  | [] => True
  | e :: past => Allowed past e ∧ Disciplined past

theorem Disciplined.suffix {post past : List (Event α)} (h : Disciplined (post ++ past)) :
    Disciplined past := by
  induction post with
  | nil => exact h
  | cons e post ih => exact ih h.2

theorem Disciplined.allowed {post past : List (Event α)} {e : Event α}
    (h : Disciplined (post ++ e :: past)) : Allowed past e :=
  h.suffix.1

/-- All children of an object are born and dead before it dies. -/
theorem Disciplined.children_first {post past : List (Event α)} {x y : α}
    (h : Disciplined (post ++ .died x :: past))
    (hy : Event.born y (some x) ∈ post ++ .died x :: past) :
    Event.born y (some x) ∈ past ∧ Event.died y ∈ past := by
  have hpast : Event.born y (some x) ∈ past := by
    rcases List.mem_append.mp hy with hpost | hrest
    · -- a birth after the death would need the parent alive
      obtain ⟨late, early, rfl⟩ := List.append_of_mem hpost
      rw [List.append_assoc] at h
      have ha : Allowed (early ++ .died x :: past) (.born y (some x)) := h.allowed
      exact absurd (List.mem_append_right early (List.mem_cons_self ..)) (ha.2 x rfl).2
    · simpa using hrest
  exact ⟨hpast, h.allowed.2 y hpast⟩

theorem Disciplined.born_unique {log : List (Event α)} (h : Disciplined log) {x : α}
    {p q : Option α} (hp : Event.born x p ∈ log) (hq : Event.born x q ∈ log) : p = q := by
  induction log with
  | nil => cases hp
  | cons e log ih =>
    rcases List.mem_cons.mp hp with rfl | hp' <;> rcases List.mem_cons.mp hq with heq | hq'
    · exact (Event.born.inj heq).2.symm
    · exact absurd ⟨q, hq'⟩ h.1.1
    · subst heq
      exact absurd ⟨p, hp'⟩ h.1.1
    · exact ih h.2 hp' hq'

theorem Disciplined.born_of_died {log : List (Event α)} (h : Disciplined log) {x : α}
    (hx : Event.died x ∈ log) : Born log x := by
  obtain ⟨post, past, rfl⟩ := List.append_of_mem hx
  obtain ⟨p, hp⟩ := h.allowed.1.1
  exact ⟨p, List.mem_append_right post (List.mem_cons_of_mem _ hp)⟩

/-- Nothing is used or dies after its parent's death. -/
theorem Disciplined.parent_alive {post past : List (Event α)} {e : Event α} {x y : α}
    (h : Disciplined (post ++ e :: past)) (he : e = .used y ∨ e = .died y)
    (hy : Event.born y (some x) ∈ past) : Event.died x ∉ past := by
  intro hx
  obtain ⟨late, early, rfl⟩ := List.append_of_mem hx
  have hd : Event.died y ∈ early := (h.suffix.2.children_first hy).2
  have halive : Alive (late ++ .died x :: early) y := by
    have ha := h.allowed
    rcases he with rfl | rfl
    · exact ha
    · exact ha.1
  exact halive.2 (List.mem_append_right late (List.mem_cons_of_mem _ hd))

/-- The order that discipline imposes: children die before their parent, and nothing is born from
a dead parent, nor used nor ended after the death of its parent. -/
structure Ordered (log : List (Event α)) : Prop where
  childrenFirst : ∀ post past x y, log = post ++ .died x :: past → Event.born y (some x) ∈ log →
    Event.born y (some x) ∈ past ∧ Event.died y ∈ past
  bornAlive : ∀ post past x y, log = post ++ .born y (some x) :: past → Event.died x ∉ past
  usedAlive : ∀ post past e x y, log = post ++ e :: past → e = .used y ∨ e = .died y →
    Event.died y ∉ past ∧ (Event.born y (some x) ∈ past → Event.died x ∉ past)

theorem Disciplined.ordered {log : List (Event α)} (h : Disciplined log) : Ordered log := by
  constructor
  · rintro post past x y rfl hy
    exact h.children_first hy
  · rintro post past x y rfl
    exact (h.allowed.2 x rfl).2
  · rintro post past e x y rfl he
    refine ⟨?_, fun hy => h.parent_alive he hy⟩
    have ha := h.allowed
    rcases he with rfl | rfl
    · exact ha.2
    · exact ha.1.2

/-! ## How one event changes who is alive -/

theorem alive_cons_of_not_died {past : List (Event α)} {e : Event α} {x : α}
    (h : Alive past x) (he : e ≠ .died x) : Alive (e :: past) x := by
  refine ⟨?_, ?_⟩
  · obtain ⟨p, hp⟩ := h.1
    exact ⟨p, List.mem_cons_of_mem e hp⟩
  · intro hx
    rcases List.mem_cons.mp hx with heq | hmem
    · exact he heq.symm
    · exact h.2 hmem

theorem Alive.cons_born {past : List (Event α)} {x y : α} {p : Option α} (h : Alive past x) :
    Alive (.born y p :: past) x :=
  alive_cons_of_not_died h (by simp)

theorem Alive.cons_used {past : List (Event α)} {x y : α} (h : Alive past x) :
    Alive (.used y :: past) x :=
  alive_cons_of_not_died h (by simp)

theorem Alive.cons_died {past : List (Event α)} {x y : α} (h : Alive past x) (hxy : x ≠ y) :
    Alive (.died y :: past) x :=
  alive_cons_of_not_died h fun heq => hxy (Event.died.inj heq).symm

theorem born_of_cons_used {past : List (Event α)} {x y : α} {p : Option α}
    (h : Event.born x p ∈ .used y :: past) : Event.born x p ∈ past :=
  (List.mem_cons.mp h).resolve_left (by simp)

theorem born_of_cons_died {past : List (Event α)} {x y : α} {p : Option α}
    (h : Event.born x p ∈ .died y :: past) : Event.born x p ∈ past :=
  (List.mem_cons.mp h).resolve_left (by simp)

theorem alive_of_born {past : List (Event α)} {x : α} {p : Option α}
    (h : Event.died x ∉ past) : Alive (.born x p :: past) x :=
  ⟨⟨p, List.mem_cons_self ..⟩, fun hx => h (by simpa using hx)⟩

/-! ## Uses in between -/

section Uses
variable {past uses : List (Event α)} {x : α}

/-- These are uses of objects that are alive. -/
def UsesOnly (past uses : List (Event α)) : Prop := ∀ e ∈ uses, ∃ x, e = .used x ∧ Alive past x

theorem UsesOnly.born_iff (h : UsesOnly past uses) : Born (uses ++ past) x ↔ Born past x := by
  unfold Born
  refine exists_congr fun p => ?_
  rw [List.mem_append, or_iff_right]
  intro hmem
  obtain ⟨y, hy, -⟩ := h _ hmem
  cases hy

theorem UsesOnly.died_iff (h : UsesOnly past uses) : Event.died x ∈ uses ++ past ↔ Event.died x ∈ past := by
  rw [List.mem_append, or_iff_right]
  intro hmem
  obtain ⟨y, hy, -⟩ := h _ hmem
  cases hy

theorem UsesOnly.alive_iff (h : UsesOnly past uses) : Alive (uses ++ past) x ↔ Alive past x := by
  unfold Alive
  rw [h.born_iff, h.died_iff]

theorem Disciplined.append_uses (hd : Disciplined past) (h : UsesOnly past uses) :
    Disciplined (uses ++ past) := by
  induction uses with
  | nil => exact hd
  | cons e uses ih =>
    have hrest : UsesOnly past uses := fun e' he' => h e' (List.mem_cons_of_mem e he')
    obtain ⟨x, rfl, hx⟩ := h e (List.mem_cons_self ..)
    exact ⟨hrest.alive_iff.mpr hx, ih hrest⟩

theorem Disciplined.born_of_used {log : List (Event α)} (h : Disciplined log)
    (hx : Event.used x ∈ log) : Born log x := by
  obtain ⟨post, past, rfl⟩ := List.append_of_mem hx
  obtain ⟨p, hp⟩ := h.allowed.1
  exact ⟨p, List.mem_append_right post (List.mem_cons_of_mem _ hp)⟩

/-- The discipline was kept to the end: every object that was born has died, and it has died once. -/
structure Settled (log : List (Event α)) : Prop where
  disciplined : Disciplined log
  allDied : ∀ x, Born log x → Event.died x ∈ log

end Uses

/-! ## Deaths happen once -/

section Once
variable {β : Type} {f : β → Event α} {x : α} {log : List β}

theorem Disciplined.died_unique {c₁ c₂ : β} (h : Disciplined (log.map f)) (h₁ : c₁ ∈ log) (h₂ : c₂ ∈ log)
    (hd₁ : f c₁ = .died x) (hd₂ : f c₂ = .died x) : c₁ = c₂ := by
  induction log with
  | nil => cases h₁
  | cons c log ih =>
    obtain ⟨hallowed, hpast⟩ := h
    -- the first of them is the last death there is
    have hno : f c = .died x → ∀ b ∈ log, f b ≠ .died x := by
      intro hc b hb hdb
      rw [hc] at hallowed
      exact hallowed.1.2 (hdb ▸ List.mem_map_of_mem hb)
    rcases List.mem_cons.mp h₁ with rfl | hmem₁ <;> rcases List.mem_cons.mp h₂ with rfl | hmem₂
    · rfl
    · exact absurd hd₂ (hno hd₁ c₂ hmem₂)
    · exact absurd hd₁ (hno hd₂ c₁ hmem₁)
    · exact ih hpast hmem₁ hmem₂

theorem Disciplined.countP_died {p : β → Bool} {c : β} (h : Disciplined (log.map f))
    (hp : ∀ b, p b = true → f b = .died x) (hc : c ∈ log) (hpc : p c = true) : log.countP p = 1 := by
  induction log with
  | nil => cases hc
  | cons b log ih =>
    by_cases hb : p b = true
    · have hnone : ∀ a ∈ log, ¬ p a = true := by
        intro a ha hpa
        have hallowed := h.1
        rw [hp b hb] at hallowed
        exact hallowed.1.2 (hp a hpa ▸ List.mem_map_of_mem ha)
      rw [List.countP_cons_of_pos hb, List.countP_eq_zero.mpr hnone]
    · have hmem : c ∈ log := by
        refine (List.mem_cons.mp hc).resolve_left ?_
        rintro rfl
        exact hb hpc
      rw [List.countP_cons_of_neg hb, ih h.2 hmem]

end Once

/-! ## What is alive at the end -/

section Owes
variable {α : Type} {log : List (Event α)} {held held' : List (α × Option α)} {x : α} {p : Option α}

/-- The log is disciplined, and `held` is what is alive after it, each object with its parent. -/
structure Owes (log : List (Event α)) (held : List (α × Option α)) : Prop where
  disciplined : Disciplined log
  names : (held.map Prod.fst).Nodup
  mem_iff : ∀ x p, (x, p) ∈ held ↔ Event.born x p ∈ log ∧ Event.died x ∉ log

theorem Owes.nil : Owes ([] : List (Event α)) [] :=
  ⟨trivial, List.nodup_nil, fun x p => by simp⟩

theorem Owes.perm (h : Owes log held) (hp : held.Perm held') : Owes log held' :=
  ⟨h.disciplined, (hp.map Prod.fst).nodup_iff.mp h.names, fun x p => (hp.mem_iff.symm).trans (h.mem_iff x p)⟩

theorem Owes.alive (h : Owes log held) (hx : (x, p) ∈ held) : Alive log x :=
  ⟨⟨p, ((h.mem_iff x p).mp hx).1⟩, ((h.mem_iff x p).mp hx).2⟩

theorem Owes.alive_iff (h : Owes log held) (x : α) : Alive log x ↔ x ∈ held.map Prod.fst := by
  constructor
  · rintro ⟨⟨p, hb⟩, hd⟩
    exact List.mem_map_of_mem ((h.mem_iff x p).mpr ⟨hb, hd⟩)
  · intro hx
    obtain ⟨⟨y, p⟩, hy, rfl⟩ := List.mem_map.mp hx
    exact h.alive hy

theorem Owes.born (h : Owes log held) (hx : ¬ Born log x)
    (hp : ∀ q, p = some q → q ∈ held.map Prod.fst) : Owes (.born x p :: log) ((x, p) :: held) := by
  have hnew : x ∉ held.map Prod.fst := fun hmem => hx ((h.alive_iff x).mpr hmem).1
  have hdead : Event.died x ∉ log := fun hd => hx (h.disciplined.born_of_died hd)
  refine ⟨⟨⟨hx, fun q hq => (h.alive_iff q).mpr (hp q hq)⟩, h.disciplined⟩, ?_, fun y q => ?_⟩
  · rw [List.map_cons, List.nodup_cons]
    exact ⟨hnew, h.names⟩
  · rw [List.mem_cons, h.mem_iff y q]
    constructor
    · rintro (heq | ⟨hb, hd⟩)
      · cases heq
        exact ⟨List.mem_cons_self .., fun hd => hdead (by simpa using hd)⟩
      · exact ⟨List.mem_cons_of_mem _ hb, fun hmem => hd (by simpa using hmem)⟩
    · rintro ⟨hb, hd⟩
      rcases List.mem_cons.mp hb with heq | hmem
      · cases heq
        exact .inl rfl
      · exact .inr ⟨hmem, fun hdy => hd (List.mem_cons_of_mem _ hdy)⟩

theorem Owes.used (h : Owes log held) (hx : x ∈ held.map Prod.fst) : Owes (.used x :: log) held :=
  ⟨⟨(h.alive_iff x).mpr hx, h.disciplined⟩, h.names, fun y q => by simp [h.mem_iff y q]⟩

theorem Disciplined.parent_ne (h : Disciplined log) (hx : Event.born x p ∈ log) : p ≠ some x := by
  rintro rfl
  obtain ⟨post, past, rfl⟩ := List.append_of_mem hx
  exact h.allowed.1 (h.allowed.2 x rfl).1

theorem Owes.died (h : Owes log ((x, p) :: held)) (hc : ∀ y, (y, some x) ∉ held) :
    Owes (.died x :: log) held := by
  have hnot : x ∉ held.map Prod.fst := (List.nodup_cons.mp h.names).1
  have hx := (h.mem_iff x p).mp (List.mem_cons_self ..)
  refine ⟨⟨⟨⟨⟨p, hx.1⟩, hx.2⟩, fun y hy => ?_⟩, h.disciplined⟩, (List.nodup_cons.mp h.names).2, fun y q => ?_⟩
  · by_contra hd
    rcases List.mem_cons.mp ((h.mem_iff y (some x)).mpr ⟨hy, hd⟩) with heq | hmem
    · exact h.disciplined.parent_ne hx.1 (Prod.mk.inj heq).2.symm
    · exact hc y hmem
  · constructor
    · intro hy
      have hne : y ≠ x := by
        rintro rfl
        exact hnot (List.mem_map_of_mem hy)
      obtain ⟨hb, hd⟩ := (h.mem_iff y q).mp (List.mem_cons_of_mem _ hy)
      refine ⟨List.mem_cons_of_mem _ hb, fun hmem => ?_⟩
      rcases List.mem_cons.mp hmem with heq | hmem
      · exact hne (Event.died.inj heq)
      · exact hd hmem
    · rintro ⟨hb, hd⟩
      have hb : Event.born y q ∈ log := born_of_cons_died hb
      have hd' : Event.died y ∉ log := fun hmem => hd (List.mem_cons_of_mem _ hmem)
      rcases List.mem_cons.mp ((h.mem_iff y q).mpr ⟨hb, hd'⟩) with heq | hmem
      · cases heq
        exact absurd (List.mem_cons_self ..) hd
      · exact hmem

/-- With nothing left alive every object that was born has died. -/
theorem Owes.settled (h : Owes log []) : Settled log := by
  refine ⟨h.disciplined, fun x hx => ?_⟩
  by_contra hd
  have := (h.alive_iff x).mp ⟨hx, hd⟩
  cases this

end Owes

end AppUtil.Lib.Lifetime
