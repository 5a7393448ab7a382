import Mathlib.Logic.Basic

/-! # Runs of a system whose steps can fail

`exec s l` is the step labelled `l` taken in state `s`; it ends in a new state or in a fault.

* `Holds exec P s ls`: the run over `ls` never faults and `P` holds in every state it reaches.
* `Throughout exec P s ls`: `P` holds in every state that the run over `ls` reaches, up to a fault.
* `Meets exec G s ls`: every step the run takes meets the condition `G` in the state it is taken.
* `Simulates exec next R O s a ls`: the run over `ls` never faults and stays in the relation `R`
  with the abstract system `next`; `O` is what each step shows.
-/
namespace AppUtil.Lib
set_option autoImplicit false

section Runs
variable {σ α ℓ ε : Type} (exec : σ → ℓ → Except ε σ)

/-- No step of the run faults and `P` holds in every state it reaches, the first one included. -/
def Holds (P : σ → Prop) : σ → List ℓ → Prop
  | s, [] => P s
  | s, l :: ls => P s ∧ ∃ s', exec s l = .ok s' ∧ Holds P s' ls

/-- `P` holds in every state the run reaches. A fault is the end of the run. -/
def Throughout (P : σ → Prop) : σ → List ℓ → Prop
  | s, [] => P s
  | s, l :: ls => P s ∧ ∀ s', exec s l = .ok s' → Throughout P s' ls

/-- Every step the run takes meets `G` in the state in which it is taken. -/
def Meets (G : σ → ℓ → Prop) : σ → List ℓ → Prop
  | _, [] => True
  | s, l :: ls => G s l ∧ ∀ s', exec s l = .ok s' → Meets G s' ls

/-- The states that some run over labels in `L` reaches from `s`. -/
inductive Reaches (L : ℓ → Prop) (s : σ) : σ → Prop
  | start : Reaches L s s
  | next {t u : σ} (l : ℓ) (h : Reaches L s t) (hl : L l) (hx : exec t l = .ok u) : Reaches L s u

/-- The step `l` is taken again and again until the state is in `P`. -/
inductive Until (l : ℓ) (P : σ → Prop) : σ → σ → Prop
  | stop {s : σ} (h : P s) : Until l P s s
  | step {s t u : σ} (h : ¬ P s) (hx : exec s l = .ok t) (ht : Until l P t u) : Until l P s u

variable {exec}

/-- On a given run the condition can be tested. -/
def decideMeets {G : σ → ℓ → Prop} [∀ s l, Decidable (G s l)] :
    (s : σ) → (ls : List ℓ) → Decidable (Meets exec G s ls)
  | _, [] => isTrue trivial
  | s, l :: ls =>
    if hg : G s l then
      match hx : exec s l with
      | .error _ => isTrue ⟨hg, fun _ h => nomatch hx.symm.trans h⟩
      | .ok s' =>
        match decideMeets s' ls with
        | isTrue h => isTrue ⟨hg, fun _ ht => Except.ok.inj (hx.symm.trans ht) ▸ h⟩
        | isFalse h => isFalse fun hm => h (hm.2 s' hx)
    else isFalse fun hm => hg hm.1

instance {G : σ → ℓ → Prop} [∀ s l, Decidable (G s l)] (s : σ) (ls : List ℓ) :
    Decidable (Meets exec G s ls) := decideMeets s ls

/-- What can be tested where a run ends can be tested of the run. -/
def decideOk {P : σ → Prop} [∀ s, Decidable (P s)] : (x : Except ε σ) → Decidable (∃ s, x = .ok s ∧ P s)
  | .error _ => isFalse fun ⟨_, h, _⟩ => nomatch h
  | .ok s => if h : P s then isTrue ⟨s, rfl, h⟩ else isFalse fun ⟨_, ht, hp⟩ => h (Except.ok.inj ht ▸ hp)

instance instDecidableOk {P : σ → Prop} [∀ s, Decidable (P s)] (x : Except ε σ) :
    Decidable (∃ s, x = .ok s ∧ P s) := decideOk x

theorem Holds.head {P : σ → Prop} {s : σ} {ls : List ℓ} (h : Holds exec P s ls) : P s := by
  cases ls with
  | nil => exact h
  | cons l ls => exact h.1

theorem Holds.mono {P Q : σ → Prop} (hPQ : ∀ s, P s → Q s) {s : σ} {ls : List ℓ}
    (h : Holds exec P s ls) : Holds exec Q s ls := by
  induction ls generalizing s with
  | nil => exact hPQ s h
  | cons l ls ih =>
    obtain ⟨hp, s', hx, hs'⟩ := h
    exact ⟨hPQ s hp, s', hx, ih hs'⟩

theorem Holds.run_ok {P : σ → Prop} {s : σ} {ls : List ℓ} (h : Holds exec P s ls) :
    ∃ t, ls.foldlM exec s = .ok t ∧ P t := by
  induction ls generalizing s with
  | nil => exact ⟨s, rfl, h⟩
  | cons l ls ih =>
    obtain ⟨-, s', hx, hs'⟩ := h
    obtain ⟨t, ht, hp⟩ := ih hs'
    refine ⟨t, ?_, hp⟩
    rw [List.foldlM_cons, hx]
    exact ht

theorem Meets.and {G H : σ → ℓ → Prop} {s : σ} {ls : List ℓ} (hG : Meets exec G s ls)
    (hH : Meets exec H s ls) : Meets exec (fun s l => G s l ∧ H s l) s ls := by
  induction ls generalizing s with
  | nil => trivial
  | cons l ls ih => exact ⟨⟨hG.1, hH.1⟩, fun t ht => ih (hG.2 t ht) (hH.2 t ht)⟩

/-- A condition on steps can be replaced by an equivalent one. -/
theorem Meets.congr {G H : σ → ℓ → Prop} (hGH : ∀ s l, G s l ↔ H s l) {s : σ} {ls : List ℓ} :
    Meets exec G s ls ↔ Meets exec H s ls := by
  induction ls generalizing s with
  | nil => exact Iff.rfl
  | cons l ls ih => exact and_congr (hGH s l) (forall₂_congr fun t _ => ih)

/-- What holds of every step from a state in `P` holds of the steps of a run that keeps `P`. -/
theorem Holds.meets {P : σ → Prop} {G : σ → ℓ → Prop} (hG : ∀ s l, P s → G s l) {s : σ} {ls : List ℓ}
    (h : Holds exec P s ls) : Meets exec G s ls := by
  induction ls generalizing s with
  | nil => trivial
  | cons l ls ih =>
    obtain ⟨hp, s', hx, hs'⟩ := h
    refine ⟨hG s l hp, fun t ht => ?_⟩
    obtain rfl : s' = t := Except.ok.inj (hx.symm.trans ht)
    exact ih hs'

theorem Holds.not_of_error {P : σ → Prop} {s : σ} {ls : List ℓ} {e : ε}
    (hx : ls.foldlM exec s = .error e) : ¬ Holds exec P s ls := by
  intro h
  obtain ⟨t, ht, -⟩ := h.run_ok
  rw [hx] at ht
  cases ht

/-- A predicate that every step keeps, without a fault, holds along every run. -/
theorem Holds.of_step {P : σ → Prop} {L : ℓ → Prop}
    (hstep : ∀ s l, L l → P s → ∃ s', exec s l = .ok s' ∧ P s')
    {s : σ} (hs : P s) {ls : List ℓ} (hL : ∀ l ∈ ls, L l) : Holds exec P s ls := by
  induction ls generalizing s with
  | nil => exact hs
  | cons l ls ih =>
    obtain ⟨s', hx, hs'⟩ := hstep s l (hL l (List.mem_cons_self ..)) hs
    exact ⟨hs, s', hx, ih hs' fun k hk => hL k (List.mem_cons_of_mem l hk)⟩

/-- A predicate that every step that meets `G` keeps, without a fault, holds along every run whose
steps meet `G`. -/
theorem Holds.of_meets {P : σ → Prop} {G : σ → ℓ → Prop} {L : ℓ → Prop}
    (hstep : ∀ s l, L l → P s → G s l → ∃ s', exec s l = .ok s' ∧ P s')
    {s : σ} (hs : P s) {ls : List ℓ} (hL : ∀ l ∈ ls, L l) (hG : Meets exec G s ls) :
    Holds exec P s ls := by
  induction ls generalizing s with
  | nil => exact hs
  | cons l ls ih =>
    obtain ⟨s', hx, hs'⟩ := hstep s l (hL l (List.mem_cons_self ..)) hs hG.1
    exact ⟨hs, s', hx, ih hs' (fun k hk => hL k (List.mem_cons_of_mem l hk)) (hG.2 s' hx)⟩

/-- A predicate that every step that meets `G` keeps holds where such a run ends. -/
theorem Meets.inv {P : σ → Prop} {G : σ → ℓ → Prop}
    (hstep : ∀ s l s', P s → G s l → exec s l = .ok s' → P s') {s t : σ} {ls : List ℓ} (hs : P s)
    (hG : Meets exec G s ls) (hx : ls.foldlM exec s = .ok t) : P t := by
  induction ls generalizing s with
  | nil =>
    obtain rfl : s = t := Except.ok.inj hx
    exact hs
  | cons l ls ih =>
    rw [List.foldlM_cons] at hx
    cases hl : exec s l with
    | error e =>
      rw [hl] at hx
      cases hx
    | ok s' =>
      rw [hl] at hx
      exact ih (hstep s l s' hs hG.1 hl) (hG.2 s' hl) hx

/-- A predicate that every successful step keeps holds in every state a run reaches. -/
theorem Reaches.inv {P : σ → Prop} {L : ℓ → Prop}
    (hstep : ∀ s l s', L l → P s → exec s l = .ok s' → P s')
    {s t : σ} (h : Reaches exec L s t) (hs : P s) : P t := by
  induction h with
  | start => exact hs
  | next l _ hl hx ih => exact hstep _ l _ hl ih hx

theorem Until.unique {l : ℓ} {P : σ → Prop} {s t u : σ} (ht : Until exec l P s t)
    (hu : Until exec l P s u) : t = u := by
  induction ht with
  | stop h =>
    cases hu with
    | stop => rfl
    | step hn => exact absurd h hn
  | step h hx _ ih =>
    cases hu with
    | stop hp => exact absurd hp h
    | step _ hx' hu =>
      obtain rfl := Except.ok.inj (hx.symm.trans hx')
      exact ih hu

/-- **When a property of runs has an exact condition.** `I` is kept by every successful step.
If a step taken under `I` and `P` keeps `P`, without a fault, exactly when it meets `G`, then a
run keeps `P` throughout exactly when each of its steps meets `G`. -/
theorem holds_iff_meets {I P : σ → Prop} {G : σ → ℓ → Prop} {L : ℓ → Prop}
    (hinv : ∀ s l s', L l → I s → exec s l = .ok s' → I s')
    (hfwd : ∀ s l, L l → I s → P s → G s l → ∃ s', exec s l = .ok s' ∧ P s')
    (hback : ∀ s l s', L l → I s → P s → exec s l = .ok s' → P s' → G s l)
    {s : σ} (hI : I s) (hP : P s) {ls : List ℓ} (hL : ∀ l ∈ ls, L l) :
    Holds exec P s ls ↔ Meets exec G s ls := by
  induction ls generalizing s with
  | nil => exact ⟨fun _ => trivial, fun _ => hP⟩
  | cons l ls ih =>
    have hl : L l := hL l (List.mem_cons_self ..)
    have hls : ∀ k ∈ ls, L k := fun k hk => hL k (List.mem_cons_of_mem l hk)
    constructor
    · rintro ⟨-, s', hx, hs'⟩
      refine ⟨hback s l s' hl hI hP hx hs'.head, fun t ht => ?_⟩
      obtain rfl : s' = t := Except.ok.inj (hx.symm.trans ht)
      exact (ih (hinv s l s' hl hI hx) hs'.head hls).mp hs'
    · rintro ⟨hg, hrest⟩
      obtain ⟨s', hx, hP'⟩ := hfwd s l hl hI hP hg
      exact ⟨hP, s', hx, (ih (hinv s l s' hl hI hx) hP' hls).mpr (hrest s' hx)⟩

theorem Throughout.head {P : σ → Prop} {s : σ} {ls : List ℓ} (h : Throughout exec P s ls) : P s := by
  cases ls with
  | nil => exact h
  | cons l ls => exact h.1

/-- **Exact conditions of runs that may fault.** `I` is kept by every successful step. Under `I`, a
step that meets `G` keeps `Q`, which has `P`, and a step that does not leads out of `P`. Then a run
keeps `P` as far as it comes exactly when each of its steps meets `G`. -/
theorem throughout_iff_meets {I P Q : σ → Prop} {G : σ → ℓ → Prop}
    (hinv : ∀ s l s', I s → exec s l = .ok s' → I s') (hP : ∀ s, I s → Q s → P s)
    (hfwd : ∀ s l s', I s → Q s → G s l → exec s l = .ok s' → Q s')
    (hback : ∀ s l, I s → Q s → (∀ s', exec s l = .ok s' → P s') → G s l)
    {s : σ} (hI : I s) (hQ : Q s) {ls : List ℓ} : Throughout exec P s ls ↔ Meets exec G s ls := by
  induction ls generalizing s with
  | nil => exact ⟨fun _ => trivial, fun _ => hP s hI hQ⟩
  | cons l ls ih =>
    constructor
    · rintro ⟨-, hrest⟩
      have hg := hback s l hI hQ fun s' hx => (hrest s' hx).head
      exact ⟨hg, fun t ht => (ih (hinv s l t hI ht) (hfwd s l t hI hQ hg ht)).mp (hrest t ht)⟩
    · rintro ⟨hg, hrest⟩
      exact ⟨hP s hI hQ, fun t ht =>
        (ih (hinv s l t hI ht) (hfwd s l t hI hQ hg ht)).mpr (hrest t ht)⟩

variable (exec)

/-- The run over `ls` never faults, each of its states is related by `R` to the state of the
abstract system `next` after the same labels, and each of its steps satisfies `O`. -/
def Simulates (next : α → ℓ → α) (R : σ → α → Prop) (O : σ → ℓ → σ → Prop) : σ → α → List ℓ → Prop
  | s, a, [] => R s a
  | s, a, l :: ls => R s a ∧ ∃ s', exec s l = .ok s' ∧ O s l s' ∧
      Simulates next R O s' (next a l) ls

variable {exec}

/-- Forward simulation: the step diagram gives the diagram of whole runs. -/
theorem Simulates.of_step {next : α → ℓ → α} {R : σ → α → Prop} {O : σ → ℓ → σ → Prop} {L : ℓ → Prop}
    (hstep : ∀ s a l, L l → R s a → ∃ s', exec s l = .ok s' ∧ O s l s' ∧ R s' (next a l))
    {s : σ} {a : α} (hs : R s a) {ls : List ℓ} (hL : ∀ l ∈ ls, L l) :
    Simulates exec next R O s a ls := by
  induction ls generalizing s a with
  | nil => exact hs
  | cons l ls ih =>
    obtain ⟨s', hx, ho, hs'⟩ := hstep s a l (hL l (List.mem_cons_self ..)) hs
    exact ⟨hs, s', hx, ho, ih hs' fun k hk => hL k (List.mem_cons_of_mem l hk)⟩

theorem Simulates.mono {next : α → ℓ → α} {R R' : σ → α → Prop} {O O' : σ → ℓ → σ → Prop}
    (hR : ∀ s a, R s a → R' s a) (hO : ∀ s l s', O s l s' → O' s l s')
    {s : σ} {a : α} {ls : List ℓ} (h : Simulates exec next R O s a ls) :
    Simulates exec next R' O' s a ls := by
  induction ls generalizing s a with
  | nil => exact hR s a h
  | cons l ls ih =>
    obtain ⟨hr, s', hx, ho, hs'⟩ := h
    exact ⟨hR s a hr, s', hx, hO s l s' ho, ih hs'⟩

end Runs

/-! ## Sequences of fallible steps -/

section Sequences
variable {α β σ ε : Type}

@[simp] theorem ok_bind (a : α) (f : α → Except ε β) : (Except.ok a >>= f) = f a := rfl

@[simp] theorem pure_eq_ok (a : α) : (pure a : Except ε α) = .ok a := rfl

theorem map_eq_ok {f : α → β} {x : Except ε α} {b : β} :
    x.map f = .ok b ↔ ∃ a, x = .ok a ∧ f a = b := by
  cases x with
  | error e =>
    constructor
    · intro h
      cases h
    · rintro ⟨a, h, -⟩
      cases h
  | ok a =>
    constructor
    · intro h
      exact ⟨a, rfl, Except.ok.inj h⟩
    · rintro ⟨a', h, rfl⟩
      cases h
      rfl

theorem bind_eq_ok {x : Except ε α} {f : α → Except ε β} {b : β} :
    (x >>= f) = .ok b ↔ ∃ a, x = .ok a ∧ f a = .ok b := by
  cases x with
  | error e =>
    constructor
    · intro h
      cases h
    · rintro ⟨a, h, -⟩
      cases h
  | ok a =>
    constructor
    · intro h
      exact ⟨a, rfl, h⟩
    · rintro ⟨a', h, hf⟩
      cases h
      exact hf

/-- What every successful pass of a loop body keeps, the loop keeps. -/
theorem foldlM_inv {f : σ → α → Except ε σ} {P : σ → Prop} {l : List α}
    (hf : ∀ s a s', a ∈ l → P s → f s a = .ok s' → P s') {s t : σ} (hs : P s)
    (h : l.foldlM f s = .ok t) : P t := by
  induction l generalizing s with
  | nil =>
    obtain rfl : s = t := Except.ok.inj h
    exact hs
  | cons a l ih =>
    rw [List.foldlM_cons] at h
    obtain ⟨s', hx, h⟩ := bind_eq_ok.mp h
    exact ih (fun s b t hb => hf s b t (List.mem_cons_of_mem a hb))
      (hf s a s' (List.mem_cons_self ..) hs hx) h

end Sequences

end AppUtil.Lib
