import Mathlib.Data.Set.Finite.Basic
import AppUtil.Pool.Steps

/-! # Which slot a thread looks at

`Within`: the indices that a thread holds lie in the table, as far as it does not test them before it
uses them. Such a thread does not fault while the table is there. -/
namespace AppUtil.Pool
open AppUtil.Lib
set_option autoImplicit false

def WorkPc.Within (iMaxNum : ℤ) : WorkPc → Prop
  | .lookup i => 0 ≤ i
  | .loop i | .poll i | .taken i _ | .job i _ | .inJob i _ | .release i _ | .unbusy i | .closing i
  | .leaving i => 0 ≤ i ∧ i < iMaxNum
  | .gone => True

def MangerPc.Within (iInitialNum iMaxNum : ℤ) : MangerPc → Prop
  | .status i _ _ | .adding i => 0 ≤ i
  | .counting i _ _ | .storing i _ | .marking i => 0 ≤ i ∧ i < iMaxNum
  | .deleting i => 0 ≤ iInitialNum ∧ i < iMaxNum
  | .check | .wait | .gone => True

def MainPc.Within (iMaxNum : ℤ) : MainPc → Prop
  | .starting i | .stopping i => 0 ≤ i
  | .storing i _ | .marking i | .waiting i => 0 ≤ i ∧ i < iMaxNum
  | .running | .setExit | .setEvent | .join | .drain | .close | .free | .done => True

namespace ThreadPool
variable {s : ThreadPool}

theorem exists_canBegin (s : ThreadPool) : ∃ iThreadId, s.CanBegin iThreadId := by
  obtain ⟨t, ht⟩ := Infinite.exists_notMem_finset (insert 0 (s.workers.map Worker.iThreadId).toFinset)
  rw [Finset.mem_insert, not_or] at ht
  refine ⟨t, ht.1, fun w hw _ hid => ht.2 ?_⟩
  rw [List.mem_toFinset, ← hid]
  exact List.mem_map_of_mem hw

theorem workThread_within (hf : s.freed = false) {j : ℕ} {w : Worker} (hw : w.pc.Within s.iMaxNum) :
    ∃ s', s.workThread j w = .ok s' := by
  cases hpc : w.pc with
  | lookup i =>
    rw [hpc] at hw
    rw [workThread, hpc]
    by_cases hi : i < s.iMaxNum
    · simp only [if_pos hi, slot_of_valid ⟨hf, hw, hi⟩]
      exact ⟨_, rfl⟩
    · exact ⟨_, if_neg hi⟩
  | loop i | taken i k | unbusy i | closing i | leaving i =>
    rw [hpc] at hw
    rw [workThread, hpc]
    simp only [slot_of_valid ⟨hf, hw⟩]
    exact ⟨_, rfl⟩
  | poll i =>
    rw [workThread, hpc]
    cases h : s.getQueued with
    | none => exact ⟨_, rfl⟩
    | some p => exact ⟨_, rfl⟩
  | job i k =>
    rw [workThread, hpc]
    cases h : k.pWork with
    | none => simp only [h]; exact ⟨_, rfl⟩
    | some p => simp only [h]; exact ⟨_, rfl⟩
  | inJob i k | release i k | gone =>
    rw [workThread, hpc]
    exact ⟨_, rfl⟩

theorem mangerThread_within (hf : s.freed = false) (hm : s.manger.Within s.iInitialNum s.iMaxNum)
    (iThreadId : ℕ) : ∃ s', s.mangerThread iThreadId = .ok s' := by
  cases hpc : s.manger with
  | check | gone =>
    simp only [mangerThread, hpc]
    exact ⟨_, rfl⟩
  | wait =>
    simp only [mangerThread, hpc]
    by_cases h : s.hMangerExitEvent
    · exact ⟨_, if_pos h⟩
    · exact ⟨_, if_neg h⟩
  | status i t b =>
    rw [hpc] at hm
    simp only [mangerThread, hpc]
    by_cases hi : i < s.iMaxNum
    · simp only [if_pos hi, slot_of_valid ⟨hf, hm, hi⟩]
      by_cases h : (s.pstWorkThdInfo i).iThreadId > 0
      · exact ⟨_, if_pos h⟩
      · exact ⟨_, if_neg h⟩
    · rw [if_neg hi]
      cases getThreadPoolStatus t b <;> exact ⟨_, rfl⟩
  | counting i t b =>
    rw [hpc] at hm
    simp only [mangerThread, hpc, slot_of_valid ⟨hf, hm⟩]
    exact ⟨_, rfl⟩
  | adding i =>
    rw [hpc] at hm
    simp only [mangerThread, hpc]
    by_cases hi : i < s.iMaxNum
    · simp only [if_pos hi, slot_of_valid ⟨hf, hm, hi⟩]
      by_cases h : (s.pstWorkThdInfo i).iThreadId = 0
      · by_cases hid : s.CanBegin iThreadId
        · exact ⟨_, (if_pos h).trans (if_pos hid)⟩
        · exact ⟨_, (if_pos h).trans (if_neg hid)⟩
      · exact ⟨_, if_neg h⟩
    · exact ⟨_, if_neg hi⟩
  | storing i h =>
    rw [hpc] at hm
    simp only [mangerThread, hpc, slot_of_valid ⟨hf, hm⟩]
    exact ⟨_, rfl⟩
  | deleting i =>
    rw [hpc] at hm
    simp only [mangerThread, hpc]
    by_cases hi : i ≥ s.iInitialNum
    · simp only [if_pos hi, slot_of_valid ⟨hf, hm.1.trans hi, hm.2⟩]
      exact ⟨_, rfl⟩
    · exact ⟨_, if_neg hi⟩
  | marking i =>
    rw [hpc] at hm
    simp only [mangerThread, hpc, slot_of_valid ⟨hf, hm⟩]
    exact ⟨_, rfl⟩

theorem mainThread_within (hf : s.freed = false) (hdims : s.iInitialNum ≤ s.iMaxNum)
    (hm : s.main.Within s.iMaxNum) (iThreadId : ℕ) : ∃ s', s.mainThread iThreadId = .ok s' := by
  cases hpc : s.main with
  | starting i =>
    rw [hpc] at hm
    simp only [mainThread, hpc]
    by_cases hi : i < s.iInitialNum
    · simp only [if_pos hi, slot_of_valid ⟨hf, hm, lt_of_lt_of_le hi hdims⟩]
      by_cases hid : s.CanBegin iThreadId
      · exact ⟨_, if_pos hid⟩
      · exact ⟨_, if_neg hid⟩
    · exact ⟨_, if_neg hi⟩
  | storing i h =>
    rw [hpc] at hm
    simp only [mainThread, hpc, slot_of_valid ⟨hf, hm⟩]
    exact ⟨_, rfl⟩
  | stopping i =>
    rw [hpc] at hm
    simp only [mainThread, hpc]
    by_cases hi : i < s.iMaxNum
    · simp only [if_pos hi, slot_of_valid ⟨hf, hm, hi⟩]
      exact ⟨_, rfl⟩
    · exact ⟨_, if_neg hi⟩
  | marking i | waiting i =>
    rw [hpc] at hm
    simp only [mainThread, hpc, slot_of_valid ⟨hf, hm⟩]
    exact ⟨_, rfl⟩
  | join =>
    simp only [mainThread, hpc]
    by_cases h : s.manger = .gone
    · exact ⟨_, if_pos h⟩
    · exact ⟨_, if_neg h⟩
  | drain =>
    simp only [mainThread, hpc]
    cases s.getQueued <;> exact ⟨_, rfl⟩
  | running | setExit | setEvent | close | free | done =>
    simp only [mainThread, hpc]
    exact ⟨_, rfl⟩

/-- No access before the table is freed is a fault. -/
theorem exec_within (hf : s.freed = false) (hdims : s.iInitialNum ≤ s.iMaxNum)
    (hwork : ∀ w ∈ s.workers, w.pc.Within s.iMaxNum)
    (hmanger : s.manger.Within s.iInitialNum s.iMaxNum) (hmain : s.main.Within s.iMaxNum) (l : Label) :
    ∃ s', s.exec l = .ok s' := by
  cases l with
  | inputWork k | fini => exact ⟨_, rfl⟩
  | main t => exact mainThread_within hf hdims hmain t
  | manger t => exact mangerThread_within hf hmanger t
  | worker j =>
    rw [ThreadPool.exec]
    cases hj : s.workers[j]? with
    | none => exact ⟨_, rfl⟩
    | some w => exact workThread_within hf (hwork w (List.mem_of_getElem? hj))

end ThreadPool
end AppUtil.Pool
