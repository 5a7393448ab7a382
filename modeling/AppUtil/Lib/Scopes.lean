import AppUtil.Lib.Attempts
import AppUtil.Lib.Lifetime
import Mathlib.Data.List.Nodup

/-! # Programs that hold objects in local pointers

A program asks an outside world for objects, keeps them in local pointers that start as NULL, and
releases at its end every local that is not NULL. The log records what happens to the objects; NULL
is never born, so a use of NULL breaks the discipline like a use after the release.

`Within base kin S`: the log is disciplined, and what is alive is what `base` says the world holds and
one object in each of the locals `S`. -/
namespace AppUtil.Lib
open Lifetime Attempt
set_option autoImplicit false

/-- A pointer, NULL or the name of an object. -/
abbrev Ptr := Option ℕ

/-- The world, the log of the objects, the names given so far and the locals of the running function. -/
structure Scope (ι σ : Type) where
  world : σ
  log : List (Event Ptr)
  next : ℕ
  frame : ι → Ptr

namespace Scope
variable {ι σ α β : Type}

/-! ## Steps of a function -/

/-- The object that is pointed to is used. -/
def touch (x : Scope ι σ → Ptr) : Attempt (Scope ι σ) Unit :=
  change fun s => { s with log := .used (x s) :: s.log }

/-- The next object. -/
def fresh (s : Scope ι σ) : Ptr := some s.next

/-- A new object. -/
def bear (p : Option Ptr) (s : Scope ι σ) : Scope ι σ :=
  { s with log := .born s.fresh p :: s.log, next := s.next + 1 }

def check (c : σ → Bool) : Attempt (Scope ι σ) Unit := require fun s => c s.world

/-- A call that only concerns the world. -/
def act (f : σ → Option (α × σ)) : Attempt (Scope ι σ) α :=
  call fun s => (f s.world).map fun r => (r.1, { s with world := r.2 })

/-- A call that gives the world a new object to hold. -/
def adopt (p : σ → Option Ptr) (put : Ptr → σ → σ) : Attempt (Scope ι σ) Unit :=
  call fun s => some ((), { s.bear (p s.world) with world := put s.fresh s.world })

/-- The world ends the object `x` and forgets it. -/
def disown (x : σ → Ptr) (put : σ → σ) : Attempt (Scope ι σ) Unit :=
  change fun s => { s with world := put s.world, log := .died (x s.world) :: s.log }

section Locals
variable [DecidableEq ι]

def assign (l : ι) (x : Ptr) (s : Scope ι σ) : Scope ι σ :=
  { s with frame := fun k => if k = l then x else s.frame k }

/-- A call that stores a new object in a local and answers `f`. -/
def acquire (kin : ι → σ → Option Ptr) (l : ι) (f : σ → Option α) : Attempt (Scope ι σ) α :=
  call fun s => (f s.world).map fun a => (a, (s.bear (kin l s.world)).assign l s.fresh)

/-- `if (NULL != p) { p->Release(); p = NULL; }` -/
def release (l : ι) (s : Scope ι σ) : Scope ι σ :=
  if s.frame l = none then s else { s.assign l none with log := .died (s.frame l) :: s.log }

/-- A function body with locals of its own, and the releases after it. -/
def inScope (ls : List ι) (p : Attempt (Scope ι σ) α) : Attempt (Scope ι σ) α := fun fails t =>
  match p fails ⟨{ t.world with frame := fun _ => none }, t.calls⟩ with
  | (r, t') => (r, ⟨{ ls.foldl (fun s l => s.release l) t'.world with frame := t.world.frame }, t'.calls⟩)

end Locals

/-! ## What a function holds -/

variable {base : σ → List (Ptr × Option Ptr)} {kin : ι → σ → Option Ptr} {S : List ι}
  {s : Scope ι σ} {l : ι} {ls : List ι}

/-- The objects in the locals `S`. -/
def locals (kin : ι → σ → Option Ptr) (S : List ι) (s : Scope ι σ) : List (Ptr × Option Ptr) :=
  S.map fun l => (s.frame l, kin l s.world)

structure Within (base : σ → List (Ptr × Option Ptr)) (kin : ι → σ → Option Ptr) (S : List ι)
    (s : Scope ι σ) : Prop where
  owes : Owes s.log (locals kin S s ++ base s.world)
  named : ∀ x, Born s.log x → ∃ n, x = some n ∧ n < s.next
  clear : ∀ l, l ∉ S → s.frame l = none
  rooted : ∀ x q, (x, some q) ∈ locals kin S s ++ base s.world → q ∈ (base s.world).map Prod.fst

theorem Within.fresh_unborn (h : Within base kin S s) : ¬ Born s.log s.fresh := by
  intro hb
  obtain ⟨n, hn, hlt⟩ := h.named _ hb
  cases hn
  exact Nat.lt_irrefl _ hlt

theorem Within.held (h : Within base kin S s) {x : Ptr} {p : Option Ptr}
    (hx : (x, p) ∈ locals kin S s ++ base s.world) : ∃ n, x = some n :=
  (h.named x (h.owes.alive hx).1).imp fun _ hn => hn.1

theorem Within.used (h : Within base kin S s) {x : Ptr}
    (hx : x ∈ (locals kin S s ++ base s.world).map Prod.fst) :
    Within base kin S { s with log := .used x :: s.log } := by
  refine ⟨h.owes.used hx, fun y hy => ?_, h.clear, h.rooted⟩
  obtain ⟨p, hp⟩ := hy
  exact h.named y ⟨p, born_of_cons_used hp⟩

theorem Within.reworld (h : Within base kin S s) {w : σ} (hbase : base w = base s.world)
    (hkin : ∀ l, kin l w = kin l s.world) : Within base kin S { s with world := w } := by
  have hheld : locals kin S { s with world := w } ++ base w = locals kin S s ++ base s.world := by
    rw [hbase]
    exact congrArg (· ++ base s.world) (List.map_congr_left fun k _ => Prod.ext rfl (hkin k))
  refine ⟨?_, h.named, h.clear, fun x q hq => ?_⟩
  · rw [hheld]
    exact h.owes
  · rw [hheld] at hq
    rw [hbase]
    exact h.rooted x q hq

theorem named_cons_born {log : List (Event Ptr)} {n : ℕ} {p : Option Ptr}
    (h : ∀ x, Born log x → ∃ k, x = some k ∧ k < n) (x : Ptr) (hx : Born (.born (some n) p :: log) x) :
    ∃ k, x = some k ∧ k < n + 1 := by
  obtain ⟨q, hq⟩ := hx
  rcases List.mem_cons.mp hq with heq | hmem
  · cases heq
    exact ⟨n, rfl, Nat.lt_succ_self n⟩
  · obtain ⟨k, hk, hlt⟩ := h x ⟨q, hmem⟩
    exact ⟨k, hk, Nat.lt_succ_of_lt hlt⟩

/-- The locals that are held are distinct. -/
theorem Within.nodup (h : Within base kin S s) : S.Nodup := by
  have hn := h.owes.names
  rw [List.map_append] at hn
  have hS := (List.nodup_append.mp hn).1
  rw [locals, List.map_map] at hS
  exact List.Nodup.of_map _ hS

section Locals
variable [DecidableEq ι]

theorem locals_assign (hl : l ∉ S) (x : Ptr) : locals kin S (s.assign l x) = locals kin S s := by
  refine List.map_congr_left fun k hk => ?_
  have hne : k ≠ l := fun heq => hl (heq ▸ hk)
  exact Prod.ext (if_neg hne) rfl

theorem Within.bear (h : Within base kin S s) (hl : l ∉ S)
    (hroot : ∀ q, kin l s.world = some q → q ∈ (base s.world).map Prod.fst) :
    Within base kin (l :: S) ((s.bear (kin l s.world)).assign l s.fresh) := by
  have hheld : locals kin (l :: S) ((s.bear (kin l s.world)).assign l s.fresh) =
      (s.fresh, kin l s.world) :: locals kin S s := by
    refine congrArg₂ List.cons (Prod.ext (if_pos rfl) rfl) ?_
    exact locals_assign (s := s.bear (kin l s.world)) hl s.fresh
  refine ⟨?_, named_cons_born h.named, fun k hk => ?_, fun x q hx => ?_⟩
  · rw [hheld]
    refine h.owes.born h.fresh_unborn fun q hq => ?_
    rw [List.map_append]
    exact List.mem_append_right _ (hroot q hq)
  · rw [List.mem_cons, not_or] at hk
    exact (if_neg hk.1).trans (h.clear k hk.2)
  · rw [hheld] at hx
    rcases List.mem_cons.mp hx with heq | hmem
    · exact hroot q (Prod.mk.inj heq).2.symm
    · exact h.rooted x q hmem

theorem Within.release (h : Within base kin S s) (l : ι) :
    Within base kin (S.erase l) (s.release l) := by
  by_cases hl : l ∈ S
  · have hperm : (locals kin S s ++ base s.world).Perm
        ((s.frame l, kin l s.world) :: (locals kin (S.erase l) s ++ base s.world)) := by
      exact ((List.perm_cons_erase hl).map _).append_right _
    have howes := h.owes.perm hperm
    obtain ⟨n, hn⟩ := h.held (hperm.mem_iff.mpr (List.mem_cons_self ..))
    have hset : s.frame l ≠ none := by
      rw [hn]
      exact Option.some_ne_none n
    -- nothing that is held belongs to what is in a local
    have hchild : ∀ y, (y, some (s.frame l)) ∉ locals kin (S.erase l) s ++ base s.world := by
      intro y hy
      have hb := h.rooted y _ (hperm.mem_iff.mpr (List.mem_cons_of_mem _ hy))
      refine (List.nodup_cons.mp howes.names).1 ?_
      rw [List.map_append]
      exact List.mem_append_right _ hb
    have hno : l ∉ S.erase l := fun hmem => (h.nodup.mem_erase_iff.mp hmem).1 rfl
    unfold Scope.release
    rw [if_neg hset]
    refine ⟨?_, fun x hx => ?_, fun k hk => ?_, fun x q hx => ?_⟩
    · have hdied := howes.died hchild
      rw [← locals_assign hno none] at hdied
      exact hdied
    · obtain ⟨p, hp⟩ := hx
      exact h.named x ⟨p, born_of_cons_died hp⟩
    · by_cases hkl : k = l
      · exact if_pos hkl
      · exact (if_neg hkl).trans (h.clear k fun hmem => hk (h.nodup.mem_erase_iff.mpr ⟨hkl, hmem⟩))
    · refine h.rooted x q (hperm.mem_iff.mpr (List.mem_cons_of_mem _ ?_))
      rw [← locals_assign hno none]
      exact hx
  · rw [List.erase_of_not_mem hl, Scope.release, if_pos (h.clear l hl)]
    exact h

theorem Within.releaseAll (h : Within base kin S s) (hls : S ⊆ ls) :
    Within base kin [] (ls.foldl (fun s l => s.release l) s) := by
  induction ls generalizing S s with
  | nil =>
    obtain rfl := List.subset_nil.mp hls
    exact h
  | cons l ls ih =>
    refine ih (h.release l) fun k hk => ?_
    obtain ⟨hne, hmem⟩ := h.nodup.mem_erase_iff.mp hk
    exact (List.mem_cons.mp (hls hmem)).resolve_left hne

theorem releaseAll_world (ls : List ι) (s : Scope ι σ) :
    (ls.foldl (fun s l => s.release l) s).world = s.world := by
  induction ls generalizing s with
  | nil => rfl
  | cons l ls ih =>
    rw [List.foldl_cons, ih, Scope.release]
    split <;> rfl

end Locals

/-! ## Rules -/

/-- The locals `S` are held, in a world that satisfies `C`. -/
def Holding (base : σ → List (Ptr × Option Ptr)) (kin : ι → σ → Option Ptr) (C : σ → Prop) (S : List ι)
    (s : Scope ι σ) : Prop := Within base kin S s ∧ C s.world

variable {C : σ → Prop}

theorem touch_ends {x : Scope ι σ → Ptr}
    (hx : ∀ s, Holding base kin C S s → x s ∈ (locals kin S s ++ base s.world).map Prod.fst)
    {E : Scope ι σ → Prop} :
    Ends (Holding base kin C S) (touch x) (fun _ => Holding base kin C S) E := by
  exact Ends.change fun s hs => ⟨hs.1.used (hx s hs), hs.2⟩

theorem touch_local_ends (hl : l ∈ S) {E : Scope ι σ → Prop} :
    Ends (Holding base kin C S) (touch fun s => s.frame l) (fun _ => Holding base kin C S) E := by
  refine touch_ends fun s _ => ?_
  rw [List.map_append]
  refine List.mem_append_left _ ?_
  exact List.mem_map_of_mem (f := Prod.fst) (List.mem_map_of_mem hl)

theorem act_ends {f : σ → Option (α × σ)} (hf : ∀ w a w', C w → f w = some (a, w') →
    base w' = base w ∧ (∀ l, kin l w' = kin l w) ∧ C w') :
    Ends (Holding base kin C S) (act f) (fun _ => Holding base kin C S) (Holding base kin C S) := by
  refine Ends.call (fun s a s' hs hx => ?_) fun _ hs => hs
  obtain ⟨⟨b, w'⟩, hw, heq⟩ := Option.map_eq_some_iff.mp hx
  obtain ⟨hbase, hkin, hC⟩ := hf _ _ _ hs.2 hw
  cases heq
  exact ⟨hs.1.reworld hbase hkin, hC⟩

theorem adopt_ends {N : σ → Prop} {p : σ → Option Ptr} {put : Ptr → σ → σ}
    (hp : ∀ w, C w → ∀ q, p w = some q → q ∈ (base w).map Prod.fst)
    (hput : ∀ w n, C w → (base (put (some n) w)).Perm ((some n, p w) :: base w) ∧
      (∀ l ∈ S, kin l (put (some n) w) = kin l w) ∧ N (put (some n) w)) :
    Ends (Holding base kin C S) (adopt p put) (fun _ => Holding base kin N S)
      (Holding base kin C S) := by
  refine Ends.call (fun s a s' hs hx => ?_) fun _ hs => hs
  cases hx
  obtain ⟨hw, hC⟩ := hs
  obtain ⟨hbase, hkin, hN⟩ := hput s.world s.next hC
  have hlocals : locals kin S { s.bear (p s.world) with world := put s.fresh s.world } =
      locals kin S s := List.map_congr_left fun k hk => Prod.ext rfl (hkin k hk)
  have hperm : (locals kin S s ++ base (put s.fresh s.world)).Perm
      ((s.fresh, p s.world) :: (locals kin S s ++ base s.world)) :=
    (hbase.append_left _).trans List.perm_middle
  refine ⟨⟨?_, named_cons_born hw.named, hw.clear, fun x q hq => ?_⟩, hN⟩
  · rw [hlocals]
    refine (hw.owes.born hw.fresh_unborn fun q hq => ?_).perm hperm.symm
    rw [List.map_append]
    exact List.mem_append_right _ (hp _ hC q hq)
  · rw [hlocals] at hq
    have hmem : q ∈ (base s.world).map Prod.fst := by
      rcases List.mem_cons.mp (hperm.mem_iff.mp hq) with heq | hmem
      · exact hp _ hC q (Prod.mk.inj heq).2.symm
      · exact hw.rooted x q hmem
    exact (hbase.map Prod.fst).mem_iff.mpr (List.mem_cons_of_mem _ hmem)

theorem disown_ends {N : σ → Prop} {x : σ → Ptr} {put : σ → σ} {E : Scope ι σ → Prop}
    (hput : ∀ w, C w → ∃ p, (base w).Perm ((x w, p) :: base (put w)) ∧
      (∀ y, (y, some (x w)) ∉ base (put w)) ∧ N (put w)) :
    Ends (Holding base kin C []) (disown x put) (fun _ => Holding base kin N []) E := by
  refine Ends.change fun s hs => ?_
  obtain ⟨hw, hC⟩ := hs
  obtain ⟨p, hbase, hchild, hN⟩ := hput s.world hC
  refine ⟨⟨(hw.owes.perm hbase).died hchild, fun y hy => ?_, hw.clear, fun y q hq => ?_⟩, hN⟩
  · exact hy.elim fun q hq => hw.named y ⟨q, born_of_cons_died hq⟩
  · have hmem := hw.rooted y q (hbase.mem_iff.mpr (List.mem_cons_of_mem _ hq))
    rcases List.mem_cons.mp ((hbase.map Prod.fst).mem_iff.mp hmem) with heq | hmem
    · obtain rfl : q = x s.world := heq
      exact absurd hq (hchild y)
    · exact hmem

section Locals
variable [DecidableEq ι]

theorem acquire_ends {f : σ → Option α} (hl : l ∉ S)
    (hroot : ∀ w, C w → ∀ q, kin l w = some q → q ∈ (base w).map Prod.fst) :
    Ends (Holding base kin C S) (acquire kin l f) (fun _ => Holding base kin C (l :: S))
      (Holding base kin C S) := by
  refine Ends.call (fun s a s' hs hx => ?_) fun _ hs => hs
  obtain ⟨b, -, heq⟩ := Option.map_eq_some_iff.mp hx
  cases heq
  exact ⟨hs.1.bear hl (hroot _ hs.2), hs.2⟩

/-- A function that only holds what it releases at its end leaves nothing behind, whatever it gives
up at. -/
theorem inScope_ends {p : Attempt (Scope ι σ) α} {D : α → σ → Prop} {E : σ → Prop}
    (hp : Ends (Holding base kin C []) p (fun a s => ∃ S ⊆ ls, Holding base kin (D a) S s)
      fun s => ∃ S ⊆ ls, Holding base kin E S s) :
    Ends (Holding base kin C []) (inScope ls p) (fun a => Holding base kin (D a) [])
      (Holding base kin E []) := by
  intro fails t ht
  have hframe : t.world.frame = fun _ => none := by
    funext k
    exact ht.1.clear k (List.not_mem_nil)
  have hstart : (⟨{ t.world with frame := fun _ => none }, t.calls⟩ : Trace (Scope ι σ)) = t := by
    rw [← hframe]
  have hend : ∀ {C' : σ → Prop} {s : Scope ι σ}, (∃ S ⊆ ls, Holding base kin C' S s) →
      Holding base kin C' [] { ls.foldl (fun s l => s.release l) s with frame := t.world.frame } := by
    intro C' s hs
    obtain ⟨S, hS, hw, hC⟩ := hs
    have hall := hw.releaseAll hS
    refine ⟨⟨hall.owes, hall.named, fun k _ => congrFun hframe k, hall.rooted⟩, ?_⟩
    exact (congrArg C' (releaseAll_world ls s)).mpr hC
  obtain ⟨hok, hno⟩ := hp fails t ht
  unfold inScope
  rw [hstart]
  cases hx : p fails t with
  | mk r t' =>
    rw [hx] at hok hno
    exact ⟨fun a ha => hend (hok a ha), fun hn => hend (hno hn)⟩

end Locals

/-! ## What the world sees -/

variable {τ : Type} {v : σ → τ}

theorem touch_refines {x : Scope ι σ → Ptr} {p : Attempt (Scope ι σ) α} {q : Attempt τ α}
    (hp : Refines (fun s => v s.world) p q) :
    Refines (fun s => v s.world) (touch x >>= fun _ => p) q :=
  Refines.silent (fun _ _ => ⟨rfl, rfl⟩) hp

theorem check_refines {c : σ → Bool} {d : τ → Bool} (h : ∀ w, d (v w) = c w) :
    Refines (fun s : Scope ι σ => v s.world) (check c) (require d) :=
  Refines.require fun s => h s.world

theorem act_refines {f : σ → Option (α × σ)} {g : τ → Option (α × τ)}
    (h : ∀ w, g (v w) = (f w).map fun r => (r.1, v r.2)) :
    Refines (fun s : Scope ι σ => v s.world) (act f) (call g) := by
  refine Refines.call fun s => ?_
  rw [h s.world, Option.map_map]
  rfl

theorem adopt_refines {p : σ → Option Ptr} {put : Ptr → σ → σ} {g : τ → τ}
    (h : ∀ n w, g (v w) = v (put (some n) w)) :
    Refines (fun s : Scope ι σ => v s.world) (adopt p put) (tell g) := by
  refine Refines.call fun s => ?_
  exact congrArg (fun w => some ((), w)) (h s.next s.world)

variable [DecidableEq ι]

theorem acquire_refines {f : σ → Option α} {g : τ → Option α} (h : ∀ w, g (v w) = f w) :
    Refines (fun s => v s.world) (acquire kin l f) (ask g) := by
  refine Refines.call fun s => ?_
  rw [h s.world, Option.map_map]
  rfl

theorem inScope_refines {p : Attempt (Scope ι σ) α} {q : Attempt τ α}
    (hp : Refines (fun s => v s.world) p q) : Refines (fun s => v s.world) (inScope ls p) q := by
  intro fails t
  have h := hp fails ⟨{ t.world with frame := fun _ => none }, t.calls⟩
  refine Eq.trans h (Prod.ext rfl ?_)
  exact congrArg (Trace.mk · _) (congrArg v (releaseAll_world ls _).symm)

end Scope
end AppUtil.Lib
