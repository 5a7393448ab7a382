import Mathlib.Algebra.Order.Archimedean.Basic
import Mathlib.Data.Int.Interval
import Mathlib.Data.Int.ConditionallyCompleteOrder
import AppUtil.Lib.Seats
import AppUtil.Pool.Steps

/-! # The slot table

Every living worker sits on a slot that bears its thread id, its `iIndex` is that slot, and the
flags of a slot tell where its worker is. -/
namespace AppUtil.Pool
open AppUtil.Lib
set_option autoImplicit false

/-! ## Where a thread is, and what that says about a slot -/

/-- The worker of slot `i` can be there. -/
def WorkPc.At (i : ℤ) : WorkPc → Prop
  | .lookup k => 0 ≤ k ∧ k ≤ i
  | .loop k | .poll k | .taken k _ | .job k _ | .inJob k _ | .release k _ | .unbusy k | .closing k
  | .leaving k => k = i
  | .gone => True

/-- Between the dequeue of a packet and the end of its job. -/
def WorkPc.OnJob : WorkPc → Prop
  | .taken _ _ | .job _ _ | .inJob _ _ | .release _ _ | .unbusy _ => True
  | _ => False

def WorkPc.Leaving : WorkPc → Prop
  | .closing _ | .leaving _ => True
  | _ => False

/-- No packet was dequeued yet and no exit was asked for. -/
def WorkPc.Young : WorkPc → Prop
  | .lookup _ | .loop _ | .poll _ => True
  | _ => False

/-- `iIndex`, once `GetIndexByThreadId` has returned it. -/
def WorkPc.iIndex : WorkPc → Option ℤ
  | .lookup _ | .gone => none
  | .loop i | .poll i | .taken i _ | .job i _ | .inJob i _ | .release i _ | .unbusy i | .closing i
  | .leaving i => some i

theorem WorkPc.At.iIndex {pc : WorkPc} {i k : ℤ} (h : pc.At i) (hk : pc.iIndex = some k) : k = i := by
  cases pc with
  | lookup _ | gone => cases hk
  | loop _ | poll _ | taken _ _ | job _ _ | inJob _ _ | release _ _ | unbusy _ | closing _
  | leaving _ =>
    obtain rfl := Option.some.inj hk
    exact h

def Worker.Live (w : Worker) : Prop := w.pc ≠ .gone

instance (w : Worker) : Decidable w.Live := inferInstanceAs (Decidable (_ ≠ _))

def Worker.view (w : Worker) : Option (ℤ × ℕ) := if w.Live then some (w.iSlot, w.iThreadId) else none

theorem Worker.view_of_live {w : Worker} (h : w.Live) : w.view = some (w.iSlot, w.iThreadId) :=
  if_pos h

theorem Worker.view_eq_some {w : Worker} {i : ℤ} {t : ℕ} :
    w.view = some (i, t) ↔ w.Live ∧ w.iSlot = i ∧ w.iThreadId = t := by
  by_cases h : w.Live <;> simp [view, h]

def MangerPc.InRange (iInitialNum iMaxNum : ℤ) : MangerPc → Prop
  | .status i t b => 0 ≤ i ∧ 0 ≤ b ∧ b ≤ t
  | .counting i t b => 0 ≤ i ∧ i < iMaxNum ∧ 0 ≤ b ∧ b ≤ t
  | .adding i => 0 ≤ i
  | .storing i _ => 0 ≤ i ∧ i < iMaxNum
  | .deleting i => i < iMaxNum
  | .marking i => iInitialNum ≤ i ∧ i < iMaxNum
  | .check | .wait | .gone => True

def MainPc.InRange (iInitialNum iMaxNum : ℤ) : MainPc → Prop
  | .starting i => 0 ≤ i ∧ i ≤ iInitialNum
  | .storing i _ => 0 ≤ i ∧ i < iInitialNum
  | .stopping i => 0 ≤ i ∧ i ≤ iMaxNum
  | .marking i | .waiting i => 0 ≤ i ∧ i < iMaxNum
  | _ => True

/-- The manager has counted no busy worker, and decides for nothing but a look for too many. -/
def MangerPc.Quiet : MangerPc → Prop
  | .check | .wait | .deleting _ => True
  | .status _ _ b | .counting _ _ b => b = 0
  | .adding _ | .storing _ _ | .marking _ | .gone => False

/-! ## The table and the workers -/

structure Staffed (iMaxNum : ℤ) (table : ℤ → ThreadInfo) (workers : List Worker) : Prop where
  seated : Seated (Finset.Ico 0 iMaxNum) (fun i => (table i).iThreadId) Worker.view workers
  place : ∀ (j : ℕ) w, workers[j]? = some w → w.pc.At w.iSlot
  busy : ∀ i, (table i).bIsBuy = true →
    ∃ (j : ℕ) (w : Worker), workers[j]? = some w ∧ w.iSlot = i ∧ w.pc.OnJob
  marked : ∀ (j : ℕ) w, workers[j]? = some w → w.pc.Leaving → (table w.iSlot).bIsExit = true

theorem update_id (table : ℤ → ThreadInfo) (i : ℤ) (t : ℕ) :
    (fun k => (Function.update table i { table i with iThreadId := t } k).iThreadId) =
      Function.update (fun k => (table k).iThreadId) i t := by
  funext k
  by_cases hk : k = i
  · subst hk
    simp
  · simp [Function.update_of_ne hk]

theorem update_id_flags (table : ℤ → ThreadInfo) (i : ℤ) (t : ℕ) (k : ℤ) :
    (Function.update table i { table i with iThreadId := t } k).bIsBuy = (table k).bIsBuy ∧
      (Function.update table i { table i with iThreadId := t } k).bIsExit = (table k).bIsExit := by
  by_cases hk : k = i
  · subst hk
    simp
  · simp [Function.update_of_ne hk]

namespace Staffed

variable {iMaxNum : ℤ} {table : ℤ → ThreadInfo} {workers : List Worker} {j : ℕ} {w : Worker}
  {pc : WorkPc}

theorem sits (h : Staffed iMaxNum table workers) (hj : workers[j]? = some w) (hw : w.Live) :
    0 ≤ w.iSlot ∧ w.iSlot < iMaxNum ∧ (table w.iSlot).iThreadId = w.iThreadId ∧
      w.iThreadId ≠ 0 := by
  obtain ⟨hi, hname, ht⟩ := h.seated.sits j w hj _ _ (Worker.view_of_live hw)
  obtain ⟨h0, hmax⟩ := Finset.mem_Ico.mp hi
  exact ⟨h0, hmax, hname, ht⟩

theorem slot_unique (h : Staffed iMaxNum table workers) (hj : workers[j]? = some w) (hw : w.Live)
    {i : ℤ} (hi : 0 ≤ i ∧ i < iMaxNum) (ht : (table i).iThreadId = w.iThreadId) : i = w.iSlot :=
  h.seated.seat_unique hj (Worker.view_of_live hw) (Finset.mem_Ico.mpr hi) ht

theorem goto (h : Staffed iMaxNum table workers) (hj : workers[j]? = some w) (hw : w.Live)
    (hpc : pc ≠ .gone) (hat : pc.At w.iSlot)
    (hbusy : w.pc.OnJob → pc.OnJob ∨ (table w.iSlot).bIsBuy = false)
    (hexit : pc.Leaving → (table w.iSlot).bIsExit = true) :
    Staffed iMaxNum table (workers.set j { w with pc := pc }) := by
  constructor
  · refine h.seated.keep hj ?_
    rw [Worker.view_of_live hw, Worker.view_of_live (show Worker.Live { w with pc := pc } from hpc)]
  · exact forall_set (fun k v _ hk => h.place k v hk) hat
  · intro i hi
    obtain ⟨k, v, hk, hv, hjob⟩ := h.busy i hi
    by_cases hkj : k = j
    · subst hkj
      obtain rfl : w = v := Option.some.inj (hj.symm.trans hk)
      refine ⟨k, _, getElem?_set_of_some hj, hv, (hbusy hjob).resolve_right ?_⟩
      rw [hv, hi]
      nofun
    · refine ⟨k, v, ?_, hv, hjob⟩
      rw [List.getElem?_set_ne (Ne.symm hkj)]
      exact hk
  · exact forall_set (fun k v _ hk => h.marked k v hk) hexit

/-- The handle or the flags of a slot are written. -/
theorem flags (h : Staffed iMaxNum table workers) {i : ℤ} {t : ThreadInfo}
    (ht : t.iThreadId = (table i).iThreadId)
    (hbusy : t.bIsBuy = true → (table i).bIsBuy = true ∨
      ∃ (j : ℕ) (w : Worker), workers[j]? = some w ∧ w.iSlot = i ∧ w.pc.OnJob)
    (hexit : (table i).bIsExit = true → t.bIsExit = true) :
    Staffed iMaxNum (Function.update table i t) workers := by
  constructor
  · refine h.seated.congr fun k _ => ?_
    by_cases hk : k = i
    · subst hk
      rw [Function.update_self]
      exact ht
    · rw [Function.update_of_ne hk]
  · exact h.place
  · intro k hk
    by_cases hki : k = i
    · subst hki
      rw [Function.update_self] at hk
      exact (hbusy hk).elim (h.busy k) id
    · rw [Function.update_of_ne hki] at hk
      exact h.busy k hk
  · intro k v hk hl
    by_cases hki : v.iSlot = i
    · rw [hki, Function.update_self]
      exact hexit (hki ▸ h.marked k v hk hl)
    · rw [Function.update_of_ne hki]
      exact h.marked k v hk hl

theorem leave (h : Staffed iMaxNum table workers) (hj : workers[j]? = some w) (hw : w.Live)
    (hjob : ¬ w.pc.OnJob) :
    Staffed iMaxNum (Function.update table w.iSlot { table w.iSlot with iThreadId := 0 })
      (workers.set j { w with pc := .gone }) := by
  constructor
  · rw [update_id]
    exact h.seated.leave hj (Worker.view_of_live hw) (if_neg fun hl => hl rfl)
  · exact forall_set (fun k v _ hk => h.place k v hk) trivial
  · intro i hi
    rw [(update_id_flags table _ 0 i).1] at hi
    exact exists_set hj (fun hold => absurd hold.2 hjob) (h.busy i hi)
  · refine forall_set (fun k v _ hk hl => ?_) (fun hl => hl.elim)
    rw [(update_id_flags table _ 0 v.iSlot).2]
    exact h.marked k v hk hl

theorem enter (h : Staffed iMaxNum table workers) {i : ℤ} (hi : 0 ≤ i ∧ i < iMaxNum)
    (hfree : (table i).iThreadId = 0) {t : ℕ} (ht : t ≠ 0)
    (hnew : ∀ v ∈ workers, v.pc ≠ .gone → v.iThreadId ≠ t) :
    Staffed iMaxNum (Function.update table i { table i with iThreadId := t })
      (workers ++ [⟨t, i, .lookup 0⟩]) := by
  constructor
  · rw [update_id]
    refine h.seated.enter (Finset.mem_Ico.mpr hi) hfree ht ?_ (Worker.view_of_live (w := ⟨t, i, _⟩) nofun)
    intro v hv k hview
    obtain ⟨hl, -, hvt⟩ := Worker.view_eq_some.mp hview
    exact hnew v hv hl hvt
  · intro k v hk
    rcases getElem?_concat_cases hk with hk | ⟨-, rfl⟩
    · exact h.place k v hk
    · exact ⟨le_refl 0, hi.1⟩
  · intro k hk
    rw [(update_id_flags table i t k).1] at hk
    obtain ⟨l, v, hl, hv⟩ := h.busy k hk
    exact ⟨l, v, getElem?_concat_of_some hl, hv⟩
  · intro k v hk hl
    rw [(update_id_flags table i t v.iSlot).2]
    rcases getElem?_concat_cases hk with hk | ⟨-, rfl⟩
    · exact h.marked k v hk hl
    · exact hl.elim

end Staffed

end AppUtil.Pool
