import AppUtil.Pool.Invariant

/-! # The pool between `Init` and `Fini` -/
namespace AppUtil.Pool
open AppUtil.Lib
set_option autoImplicit false

namespace ThreadPool

/-- The slot bears the worker's thread id. -/
def Owns (s : ThreadPool) (w : Worker) (i : ℤ) : Prop :=
  (0 ≤ i ∧ i < s.iMaxNum) ∧ (s.pstWorkThdInfo i).iThreadId = w.iThreadId

def liveNum (s : ThreadPool) : ℕ := s.workers.countP fun w => w.Live

/-- The slots, ids, flags and counters while the pool serves. -/
structure SlotTable (s : ThreadPool) : Prop where
  owns : ∀ (j : ℕ) w, s.workers[j]? = some w → w.Live → ∃! i, s.Owns w i
  alone : ∀ (j k : ℕ) w v i, s.workers[j]? = some w → s.workers[k]? = some v → w.Live → v.Live →
    s.Owns w i → s.Owns v i → j = k
  index : ∀ (j : ℕ) w i, s.workers[j]? = some w → w.pc.iIndex = some i → s.Owns w i
  /-- The loop of `GetIndexByThreadId` has the worker's slot still before it. -/
  lookup : ∀ (j : ℕ) w k, s.workers[j]? = some w → w.pc = .lookup k → ∃ i, k ≤ i ∧ s.Owns w i
  least : s.iInitialNum ≤ s.liveNum
  most : s.liveNum ≤ s.iMaxNum
  unmarked : ∀ i, i < s.iInitialNum → (s.pstWorkThdInfo i).bIsExit = false
  busy : ∀ i, (s.pstWorkThdInfo i).bIsBuy = true →
    ∃ (j : ℕ) (w : Worker), s.workers[j]? = some w ∧ w.Live ∧ s.Owns w i ∧ w.pc.OnJob
  counts : ∀ i iTotalNum iBusyNum, s.manger = .status i iTotalNum iBusyNum → iBusyNum ≤ iTotalNum

section
variable {s s' : ThreadPool} {l : Label} {j : ℕ} {w : Worker}

theorem owns_slot (hs : s.Inv) (hj : s.workers[j]? = some w) (hw : w.Live) : s.Owns w w.iSlot := by
  obtain ⟨h0, hmax, hid, -⟩ := hs.staffed.sits hj hw
  exact ⟨⟨h0, hmax⟩, hid⟩

theorem liveNum_eq : s.liveNum = s.workers.countP fun w => w.view.isSome := by
  refine List.countP_congr fun w _ => ?_
  by_cases hw : w.Live <;> simp [hw, Worker.view]

theorem liveNum_le (hs : s.Inv) : s.liveNum ≤ s.iMaxNum := by
  have h := hs.staffed.seated.countP_le
  rw [← liveNum_eq, Int.card_Ico] at h
  have := hs.dims
  omega

theorem le_liveNum (hs : s.Inv) (hv : Serving s.iInitialNum s.pstWorkThdInfo) :
    s.iInitialNum ≤ s.liveNum := by
  have hsub : Finset.Ico 0 s.iInitialNum ⊆ Finset.Ico 0 s.iMaxNum :=
    Finset.Ico_subset_Ico_right hs.dims.2
  have h := hs.staffed.seated.le_countP hsub fun i hi =>
    hv.filled i (Finset.mem_Ico.mp hi).1 (Finset.mem_Ico.mp hi).2
  rw [← liveNum_eq, Int.card_Ico] at h
  omega

theorem Inv.slotTable (hs : s.Inv) (hm : s.main = .running) : s.SlotTable := by
  have hv := hs.phase
  rw [Phase, hm] at hv
  constructor
  · intro j w hj hw
    exact ⟨w.iSlot, owns_slot hs hj hw, fun i hi => hs.staffed.slot_unique hj hw hi.1 hi.2⟩
  · intro j k w v i hj hk hw hv hwi hvi
    have hid : w.iThreadId = v.iThreadId := hwi.2.symm.trans hvi.2
    refine hs.staffed.seated.distinct j k w v w.iSlot v.iSlot w.iThreadId hj hk
      (Worker.view_of_live hw) ?_
    rw [hid]
    exact Worker.view_of_live hv
  · intro j w i hj hi
    obtain rfl := (hs.staffed.place j w hj).iIndex hi
    refine owns_slot hs hj fun hpc => ?_
    rw [hpc] at hi
    cases hi
  · intro j w k hj hpc
    have hat := hs.staffed.place j w hj
    rw [hpc] at hat
    exact ⟨w.iSlot, hat.2, owns_slot hs hj (live_of hpc (by simp))⟩
  · exact le_liveNum hs hv
  · exact liveNum_le hs
  · exact hv.unmarked
  · intro i hi
    obtain ⟨j, w, hj, rfl, hjob⟩ := hs.staffed.busy i hi
    have hw : w.Live := by
      intro hpc
      rw [hpc] at hjob
      exact hjob
    exact ⟨j, w, hj, hw, owns_slot hs hj hw, hjob⟩
  · intro i t b hpc
    have hr := hs.manger
    rw [hpc] at hr
    exact hr.2.2

/-- `Fini` has not been called. -/
def BeforeFini (s : ThreadPool) : Prop :=
  match s.main with
  | .starting _ | .storing _ _ | .running => True
  | _ => False

theorem BeforeFini.exec (h : s.BeforeFini) (hl : l ≠ .fini) (hx : s.exec l = .ok s') :
    s'.BeforeFini := by
  have hsame : s'.main = s.main → s'.BeforeFini := by
    intro hm
    rw [BeforeFini, hm]
    exact h
  cases exec_cases hx with
  | post | refuse | nobody => exact h
  | fini | ignore => exact absurd rfl hl
  | main t s' hstep =>
    rw [BeforeFini] at h
    cases hstep with
    | start | started | store => trivial
    | rest => exact h
    | taken i hpc | free i hpc | stopped i hpc | mark i hpc | waited i hpc | sleep i hpc
    | setExit hpc | setEvent hpc | joined hpc | drain k q hpc | drained hpc | close hpc
    | release hpc =>
      rw [hpc] at h
      exact h.elim
  | manger t s' hstep => exact hsame hstep.frame.2.2.1
  | worker j w s' hj hstep => exact hsame hstep.frame.2.2.2.1

theorem BeforeFini.not_freed (h : s.BeforeFini) (hs : s.Inv) : s.freed = false := by
  refine Bool.eq_false_iff.mpr fun hf => ?_
  rw [BeforeFini, hs.freed hf] at h
  exact h

end

/-- **The slot table invariant.** -/
theorem slotTable_holds {iInitialNum iMaxNum : ℤ} (h : 0 ≤ iInitialNum ∧ iInitialNum ≤ iMaxNum)
    {ls : List Label} (hls : Label.fini ∉ ls)
    (hinput : Meets exec AfterInit (start iInitialNum iMaxNum) ls) :
    Holds exec (fun s => s.main = .running → s.SlotTable) (start iInitialNum iMaxNum) ls := by
  have hrun : Holds exec (fun s => s.Inv ∧ s.BeforeFini) (start iInitialNum iMaxNum) ls := by
    refine Holds.of_meets (L := (· ≠ .fini)) ?_ ⟨start_inv h, trivial⟩ ?_ hinput
    · rintro s l hl ⟨hs, hb⟩ hg
      obtain ⟨s', hx⟩ := hs.exec_ok (hb.not_freed hs) l
      exact ⟨s', hx, hs.exec hg hx, hb.exec hl hx⟩
    · rintro l hl rfl
      exact hls hl
  exact hrun.mono fun s hs hm => hs.1.slotTable hm

theorem slotTable_holds_sample :
    Holds exec (fun s => s.main = .running → s.SlotTable) (start 1 2)
      [.main 11, .main 0, .main 0, .worker 0, .worker 0, .inputWork ⟨some 1, some 2⟩, .worker 0] :=
  slotTable_holds (by decide) (by decide) (by decide)

end ThreadPool

end AppUtil.Pool
