import AppUtil.Pool.ThreadPool

/-! # What one step of a thread can do -/
namespace AppUtil.Pool
open AppUtil.Lib
set_option autoImplicit false

namespace ThreadPool

theorem getQueued_eq_some {s : ThreadPool} {k : Work} {q : List Work} :
    s.getQueued = some (k, q) ↔ s.hWorkIocp = true ∧ s.queue = k :: q := by
  cases hp : s.hWorkIocp <;> cases hq : s.queue <;> simp [getQueued, hp, hq]

theorem getQueued_eq_none {s : ThreadPool} :
    s.getQueued = none ↔ (s.hWorkIocp = true → s.queue = []) := by
  cases hp : s.hWorkIocp <;> cases hq : s.queue <;> simp [getQueued, hp, hq]

/-- The steps of the worker `w`, which is number `j`. -/
inductive WorkStep (s : ThreadPool) (j : ℕ) (w : Worker) : ThreadPool → Prop
  | miss (i : ℤ) (hpc : w.pc = .lookup i) (hv : s.Valid i)
      (h : (s.pstWorkThdInfo i).iThreadId ≠ w.iThreadId) :
      WorkStep s j w (s.goto j w (.lookup (i + 1)))
  | found (i : ℤ) (hpc : w.pc = .lookup i) (hv : s.Valid i)
      (h : (s.pstWorkThdInfo i).iThreadId = w.iThreadId) : WorkStep s j w (s.goto j w (.loop i))
  | lost (i : ℤ) (hpc : w.pc = .lookup i) (h : s.iMaxNum ≤ i) : WorkStep s j w (s.goto j w .gone)
  | stay (i : ℤ) (hpc : w.pc = .loop i) (hv : s.Valid i)
      (h : (s.pstWorkThdInfo i).bIsExit = false) : WorkStep s j w (s.goto j w (.poll i))
  | retire (i : ℤ) (hpc : w.pc = .loop i) (hv : s.Valid i)
      (h : (s.pstWorkThdInfo i).bIsExit = true) : WorkStep s j w (s.goto j w (.closing i))
  | take (i : ℤ) (k : Work) (q : List Work) (hpc : w.pc = .poll i)
      (h : s.hWorkIocp = true ∧ s.queue = k :: q) :
      WorkStep s j w ({ s with queue := q }.goto j w (.taken i k))
  | timeout (i : ℤ) (hpc : w.pc = .poll i) (h : s.hWorkIocp = true → s.queue = []) :
      WorkStep s j w (s.goto j w (.loop i))
  | setBusy (i : ℤ) (k : Work) (hpc : w.pc = .taken i k) (hv : s.Valid i) :
      WorkStep s j w
        ((s.setSlot i { s.pstWorkThdInfo i with bIsBuy := true }).goto j w (.job i k))
  | call (i : ℤ) (k : Work) (hpc : w.pc = .job i k) (h : k.pWork ≠ none) :
      WorkStep s j w ((s.record (.processJob k)).goto j w (.inJob i k))
  | skip (i : ℤ) (k : Work) (hpc : w.pc = .job i k) (h : k.pWork = none) :
      WorkStep s j w (s.goto j w (.release i k))
  | back (i : ℤ) (k : Work) (hpc : w.pc = .inJob i k) :
      WorkStep s j w ((s.record (.returned k)).goto j w (.release i k))
  | release (i : ℤ) (k : Work) (hpc : w.pc = .release i k) :
      WorkStep s j w ((s.deleteData k (.deleted k)).goto j w (.unbusy i))
  | clearBusy (i : ℤ) (hpc : w.pc = .unbusy i) (hv : s.Valid i) :
      WorkStep s j w ((s.setSlot i { s.pstWorkThdInfo i with bIsBuy := false }).goto j w (.loop i))
  | close (i : ℤ) (hpc : w.pc = .closing i) (hv : s.Valid i) :
      WorkStep s j w
        ((s.setSlot i { s.pstWorkThdInfo i with hHandle := none }).goto j w (.leaving i))
  | leave (i : ℤ) (hpc : w.pc = .leaving i) (hv : s.Valid i) :
      WorkStep s j w ((s.setSlot i { s.pstWorkThdInfo i with iThreadId := 0 }).goto j w .gone)
  | rest (hpc : w.pc = .gone) : WorkStep s j w s

theorem workThread_cases {s s' : ThreadPool} {j : ℕ} {w : Worker}
    (hx : s.workThread j w = .ok s') : WorkStep s j w s' := by
  cases hpc : w.pc with
  | lookup i =>
    rw [workThread, hpc] at hx
    by_cases hi : i < s.iMaxNum
    · simp only [if_pos hi, slot_bind] at hx
      obtain ⟨hv, hx⟩ := hx
      cases hx
      by_cases h : (s.pstWorkThdInfo i).iThreadId = w.iThreadId
      · rw [if_pos h]
        exact .found i hpc hv h
      · rw [if_neg h]
        exact .miss i hpc hv h
    · simp only [if_neg hi] at hx
      cases hx
      exact .lost i hpc (by omega)
  | loop i =>
    simp only [workThread, hpc, slot_bind] at hx
    obtain ⟨hv, hx⟩ := hx
    cases hx
    cases h : (s.pstWorkThdInfo i).bIsExit with
    | false => exact .stay i hpc hv h
    | true => exact .retire i hpc hv h
  | poll i =>
    simp only [workThread, hpc] at hx
    cases h : s.getQueued with
    | none =>
      rw [h] at hx
      cases hx
      exact .timeout i hpc (getQueued_eq_none.mp h)
    | some p =>
      rw [h] at hx
      cases hx
      exact .take i p.1 p.2 hpc (getQueued_eq_some.mp h)
  | taken i k =>
    simp only [workThread, hpc, slot_bind] at hx
    obtain ⟨hv, hx⟩ := hx
    cases hx
    exact .setBusy i k hpc hv
  | job i k =>
    simp only [workThread, hpc] at hx
    cases h : k.pWork with
    | none =>
      rw [h] at hx
      cases hx
      exact .skip i k hpc h
    | some p =>
      rw [h] at hx
      cases hx
      exact .call i k hpc (by rw [h]; nofun)
  | inJob i k =>
    simp only [workThread, hpc] at hx
    cases hx
    exact .back i k hpc
  | release i k =>
    simp only [workThread, hpc] at hx
    cases hx
    exact .release i k hpc
  | unbusy i =>
    simp only [workThread, hpc, slot_bind] at hx
    obtain ⟨hv, hx⟩ := hx
    cases hx
    exact .clearBusy i hpc hv
  | closing i =>
    simp only [workThread, hpc, slot_bind] at hx
    obtain ⟨hv, hx⟩ := hx
    cases hx
    exact .close i hpc hv
  | leaving i =>
    simp only [workThread, hpc, slot_bind] at hx
    obtain ⟨hv, hx⟩ := hx
    cases hx
    exact .leave i hpc hv
  | gone =>
    simp only [workThread, hpc] at hx
    cases hx
    exact .rest hpc

/-- The steps of the manager. -/
inductive MangerStep (s : ThreadPool) (iThreadId : ℕ) : ThreadPool → Prop
  | quit (hpc : s.manger = .check) (h : s.bMangerIsExit = true) :
      MangerStep s iThreadId { s with manger := .gone }
  | goOn (hpc : s.manger = .check) (h : s.bMangerIsExit = false) :
      MangerStep s iThreadId { s with manger := .wait }
  | signalled (hpc : s.manger = .wait) (h : s.hMangerExitEvent = true) :
      MangerStep s iThreadId { s with manger := .gone, hMangerExitEvent := false }
  | tick (hpc : s.manger = .wait) (h : s.hMangerExitEvent = false) :
      MangerStep s iThreadId { s with manger := .status 0 0 0 }
  | taken (i t b : ℤ) (hpc : s.manger = .status i t b) (hv : s.Valid i)
      (h : (s.pstWorkThdInfo i).iThreadId ≠ 0) :
      MangerStep s iThreadId { s with manger := .counting i t b }
  | free (i t b : ℤ) (hpc : s.manger = .status i t b) (hv : s.Valid i)
      (h : (s.pstWorkThdInfo i).iThreadId = 0) :
      MangerStep s iThreadId { s with manger := .status (i + 1) t b }
  | count (i t b b' : ℤ) (hpc : s.manger = .counting i t b) (hv : s.Valid i)
      (hb : b' = if (s.pstWorkThdInfo i).bIsBuy then b + 1 else b) :
      MangerStep s iThreadId { s with manger := .status (i + 1) (t + 1) b' }
  | busy (i t b : ℤ) (hpc : s.manger = .status i t b) (hi : s.iMaxNum ≤ i)
      (h : getThreadPoolStatus t b = .busy) : MangerStep s iThreadId { s with manger := .adding 0 }
  | idle (i t b : ℤ) (hpc : s.manger = .status i t b) (hi : s.iMaxNum ≤ i)
      (h : getThreadPoolStatus t b = .idle) :
      MangerStep s iThreadId { s with manger := .deleting (s.iMaxNum - 1) }
  | normal (i t b : ℤ) (hpc : s.manger = .status i t b) (hi : s.iMaxNum ≤ i)
      (h : getThreadPoolStatus t b = .normal) : MangerStep s iThreadId { s with manger := .check }
  | add (i : ℤ) (hpc : s.manger = .adding i) (hv : s.Valid i)
      (h : (s.pstWorkThdInfo i).iThreadId = 0) (hid : s.CanBegin iThreadId) :
      MangerStep s iThreadId
        { s.beginThread i iThreadId with manger := .storing i s.workers.length }
  | next (i : ℤ) (hpc : s.manger = .adding i) (hv : s.Valid i)
      (h : (s.pstWorkThdInfo i).iThreadId ≠ 0) :
      MangerStep s iThreadId { s with manger := .adding (i + 1) }
  | full (i : ℤ) (hpc : s.manger = .adding i) (hi : s.iMaxNum ≤ i) :
      MangerStep s iThreadId { s with manger := .check }
  | store (i : ℤ) (h : ℕ) (hpc : s.manger = .storing i h) (hv : s.Valid i) :
      MangerStep s iThreadId
        { s.setSlot i { s.pstWorkThdInfo i with hHandle := some h } with manger := .check }
  | mark (i : ℤ) (hpc : s.manger = .deleting i) (hi : s.iInitialNum ≤ i) (hv : s.Valid i)
      (h : (s.pstWorkThdInfo i).iThreadId ≠ 0) :
      MangerStep s iThreadId { s with manger := .marking i }
  | pass (i : ℤ) (hpc : s.manger = .deleting i) (hi : s.iInitialNum ≤ i) (hv : s.Valid i)
      (h : (s.pstWorkThdInfo i).iThreadId = 0) :
      MangerStep s iThreadId { s with manger := .deleting (i - 1) }
  | marked (i : ℤ) (hpc : s.manger = .deleting i) (hi : i < s.iInitialNum) :
      MangerStep s iThreadId { s with manger := .check }
  | setExit (i : ℤ) (hpc : s.manger = .marking i) (hv : s.Valid i) :
      MangerStep s iThreadId
        { s.setSlot i { s.pstWorkThdInfo i with bIsExit := true } with manger := .deleting (i - 1) }
  | rest : MangerStep s iThreadId s

theorem mangerThread_cases {s s' : ThreadPool} {iThreadId : ℕ}
    (hx : s.mangerThread iThreadId = .ok s') : MangerStep s iThreadId s' := by
  cases hpc : s.manger with
  | check =>
    simp only [mangerThread, hpc] at hx
    cases hx
    by_cases h : s.bMangerIsExit
    · rw [if_pos h]
      exact .quit hpc h
    · rw [if_neg h]
      exact .goOn hpc (Bool.eq_false_iff.mpr h)
  | wait =>
    simp only [mangerThread, hpc] at hx
    by_cases h : s.hMangerExitEvent
    · rw [if_pos h] at hx
      cases hx
      exact .signalled hpc h
    · rw [if_neg h] at hx
      cases hx
      exact .tick hpc (Bool.eq_false_iff.mpr h)
  | status i t b =>
    simp only [mangerThread, hpc] at hx
    by_cases hi : i < s.iMaxNum
    · simp only [if_pos hi, slot_bind] at hx
      obtain ⟨hv, hx⟩ := hx
      by_cases h : (s.pstWorkThdInfo i).iThreadId > 0
      · rw [if_pos h] at hx
        cases hx
        exact .taken i t b hpc hv (by omega)
      · rw [if_neg h] at hx
        cases hx
        exact .free i t b hpc hv (by omega)
    · rw [if_neg hi] at hx
      cases h : getThreadPoolStatus t b with
      | busy =>
        rw [h] at hx
        cases hx
        exact .busy i t b hpc (by omega) h
      | idle =>
        rw [h] at hx
        cases hx
        exact .idle i t b hpc (by omega) h
      | normal =>
        rw [h] at hx
        cases hx
        exact .normal i t b hpc (by omega) h
  | counting i t b =>
    simp only [mangerThread, hpc, slot_bind] at hx
    obtain ⟨hv, hx⟩ := hx
    cases hx
    exact .count i t b _ hpc hv rfl
  | adding i =>
    simp only [mangerThread, hpc] at hx
    by_cases hi : i < s.iMaxNum
    · simp only [if_pos hi, slot_bind] at hx
      obtain ⟨hv, hx⟩ := hx
      by_cases h : (s.pstWorkThdInfo i).iThreadId = 0
      · rw [if_pos h] at hx
        by_cases hid : s.CanBegin iThreadId
        · rw [if_pos hid] at hx
          cases hx
          exact .add i hpc hv h hid
        · rw [if_neg hid] at hx
          cases hx
          exact .rest
      · rw [if_neg h] at hx
        cases hx
        exact .next i hpc hv h
    · rw [if_neg hi] at hx
      cases hx
      exact .full i hpc (by omega)
  | storing i h =>
    simp only [mangerThread, hpc, slot_bind] at hx
    obtain ⟨hv, hx⟩ := hx
    cases hx
    exact .store i h hpc hv
  | deleting i =>
    simp only [mangerThread, hpc] at hx
    by_cases hi : i ≥ s.iInitialNum
    · simp only [if_pos hi, slot_bind] at hx
      obtain ⟨hv, hx⟩ := hx
      cases hx
      by_cases h : (s.pstWorkThdInfo i).iThreadId > 0
      · rw [if_pos h]
        exact .mark i hpc hi hv (by omega)
      · rw [if_neg h]
        exact .pass i hpc hi hv (by omega)
    · rw [if_neg hi] at hx
      cases hx
      exact .marked i hpc (by omega)
  | marking i =>
    simp only [mangerThread, hpc, slot_bind] at hx
    obtain ⟨hv, hx⟩ := hx
    cases hx
    exact .setExit i hpc hv
  | gone =>
    simp only [mangerThread, hpc] at hx
    cases hx
    exact .rest

/-- The steps of `Init` and `Fini`. -/
inductive MainStep (s : ThreadPool) (iThreadId : ℕ) : ThreadPool → Prop
  | start (i : ℤ) (hpc : s.main = .starting i) (hi : i < s.iInitialNum) (hv : s.Valid i)
      (hid : s.CanBegin iThreadId) :
      MainStep s iThreadId { s.beginThread i iThreadId with main := .storing i s.workers.length }
  | started (i : ℤ) (hpc : s.main = .starting i) (hi : s.iInitialNum ≤ i) :
      MainStep s iThreadId { s with main := .running }
  | store (i : ℤ) (h : ℕ) (hpc : s.main = .storing i h) (hv : s.Valid i) :
      MainStep s iThreadId
        { s.setSlot i { s.pstWorkThdInfo i with hHandle := some h } with main := .starting (i + 1) }
  | taken (i : ℤ) (hpc : s.main = .stopping i) (hv : s.Valid i)
      (h : (s.pstWorkThdInfo i).iThreadId ≠ 0) : MainStep s iThreadId { s with main := .marking i }
  | free (i : ℤ) (hpc : s.main = .stopping i) (hv : s.Valid i)
      (h : (s.pstWorkThdInfo i).iThreadId = 0) :
      MainStep s iThreadId { s with main := .stopping (i + 1) }
  | stopped (i : ℤ) (hpc : s.main = .stopping i) (hi : s.iMaxNum ≤ i) :
      MainStep s iThreadId { s with main := .setExit }
  | mark (i : ℤ) (hpc : s.main = .marking i) (hv : s.Valid i) :
      MainStep s iThreadId
        { s.setSlot i { s.pstWorkThdInfo i with bIsExit := true } with main := .waiting i }
  | waited (i : ℤ) (hpc : s.main = .waiting i) (hv : s.Valid i)
      (h : (s.pstWorkThdInfo i).hHandle = none) :
      MainStep s iThreadId { s with main := .stopping (i + 1) }
  | sleep (i : ℤ) (hpc : s.main = .waiting i) (hv : s.Valid i) :
      MainStep s iThreadId { s with main := .waiting i }
  | setExit (hpc : s.main = .setExit) :
      MainStep s iThreadId { s with main := .setEvent, bMangerIsExit := true }
  | setEvent (hpc : s.main = .setEvent) :
      MainStep s iThreadId { s with main := .join, hMangerExitEvent := true }
  | joined (hpc : s.main = .join) (h : s.manger = .gone) :
      MainStep s iThreadId { s with main := .drain, hMangerExitEvent := false }
  | drain (k : Work) (q : List Work) (hpc : s.main = .drain)
      (h : s.hWorkIocp = true ∧ s.queue = k :: q) :
      MainStep s iThreadId ({ s with queue := q }.deleteData k (.drained k))
  | drained (hpc : s.main = .drain) (h : s.hWorkIocp = true → s.queue = []) :
      MainStep s iThreadId { s with main := .close }
  | close (hpc : s.main = .close) : MainStep s iThreadId { s with main := .free, hWorkIocp := false }
  | release (hpc : s.main = .free) : MainStep s iThreadId { s with main := .done, freed := true }
  | rest : MainStep s iThreadId s

theorem mainThread_cases {s s' : ThreadPool} {iThreadId : ℕ}
    (hx : s.mainThread iThreadId = .ok s') : MainStep s iThreadId s' := by
  cases hpc : s.main with
  | starting i =>
    simp only [mainThread, hpc] at hx
    by_cases hi : i < s.iInitialNum
    · simp only [if_pos hi, slot_bind] at hx
      obtain ⟨hv, hx⟩ := hx
      by_cases hid : s.CanBegin iThreadId
      · rw [if_pos hid] at hx
        cases hx
        exact .start i hpc hi hv hid
      · rw [if_neg hid] at hx
        cases hx
        exact .rest
    · rw [if_neg hi] at hx
      cases hx
      exact .started i hpc (by omega)
  | storing i h =>
    simp only [mainThread, hpc, slot_bind] at hx
    obtain ⟨hv, hx⟩ := hx
    cases hx
    exact .store i h hpc hv
  | stopping i =>
    simp only [mainThread, hpc] at hx
    by_cases hi : i < s.iMaxNum
    · simp only [if_pos hi, slot_bind] at hx
      obtain ⟨hv, hx⟩ := hx
      cases hx
      by_cases h : (s.pstWorkThdInfo i).iThreadId > 0
      · rw [if_pos h]
        exact .taken i hpc hv (by omega)
      · rw [if_neg h]
        exact .free i hpc hv (by omega)
    · rw [if_neg hi] at hx
      cases hx
      exact .stopped i hpc (by omega)
  | marking i =>
    simp only [mainThread, hpc, slot_bind] at hx
    obtain ⟨hv, hx⟩ := hx
    cases hx
    exact .mark i hpc hv
  | waiting i =>
    simp only [mainThread, hpc, slot_bind] at hx
    obtain ⟨hv, hx⟩ := hx
    cases hx
    by_cases h : (s.pstWorkThdInfo i).hHandle = none
    · rw [if_pos h]
      exact .waited i hpc hv h
    · rw [if_neg h]
      exact .sleep i hpc hv
  | setExit =>
    simp only [mainThread, hpc] at hx
    cases hx
    exact .setExit hpc
  | setEvent =>
    simp only [mainThread, hpc] at hx
    cases hx
    exact .setEvent hpc
  | join =>
    simp only [mainThread, hpc] at hx
    by_cases h : s.manger = .gone
    · rw [if_pos h] at hx
      cases hx
      exact .joined hpc h
    · rw [if_neg h] at hx
      cases hx
      exact .rest
  | drain =>
    simp only [mainThread, hpc] at hx
    cases h : s.getQueued with
    | none =>
      rw [h] at hx
      cases hx
      exact .drained hpc (getQueued_eq_none.mp h)
    | some p =>
      rw [h] at hx
      cases hx
      rw [← hpc]
      exact .drain p.1 p.2 hpc (getQueued_eq_some.mp h)
  | close =>
    simp only [mainThread, hpc] at hx
    cases hx
    exact .close hpc
  | free =>
    simp only [mainThread, hpc] at hx
    cases hx
    exact .release hpc
  | running | done =>
    simp only [mainThread, hpc] at hx
    cases hx
    exact .rest

/-- The steps of the pool. -/
inductive Step (s : ThreadPool) : Label → ThreadPool → Prop
  | post (k : Work) (h : s.hWorkIocp = true) :
      Step s (.inputWork k) { s with queue := s.queue ++ [k], log := .posted k :: s.log }
  | refuse (k : Work) (h : s.hWorkIocp = false) : Step s (.inputWork k) s
  | fini (h : s.main = .running) : Step s .fini { s with main := .stopping 0 }
  | ignore (h : s.main ≠ .running) : Step s .fini s
  | main (iThreadId : ℕ) (s' : ThreadPool) (h : s.MainStep iThreadId s') :
      Step s (.main iThreadId) s'
  | manger (iThreadId : ℕ) (s' : ThreadPool) (h : s.MangerStep iThreadId s') :
      Step s (.manger iThreadId) s'
  | worker (j : ℕ) (w : Worker) (s' : ThreadPool) (hj : s.workers[j]? = some w)
      (h : s.WorkStep j w s') : Step s (.worker j) s'
  | nobody (j : ℕ) (hj : s.workers[j]? = none) : Step s (.worker j) s

theorem exec_cases {s s' : ThreadPool} {l : Label} (hx : s.exec l = .ok s') : s.Step l s' := by
  cases l with
  | inputWork k =>
    cases hx
    rw [inputWork]
    by_cases h : s.hWorkIocp
    · rw [if_pos h]
      exact .post k h
    · rw [if_neg h]
      exact .refuse k (Bool.eq_false_iff.mpr h)
  | fini =>
    cases hx
    by_cases h : s.main = .running
    · rw [if_pos h]
      exact .fini h
    · rw [if_neg h]
      exact .ignore h
  | main t => exact .main t s' (mainThread_cases hx)
  | manger t => exact .manger t s' (mangerThread_cases hx)
  | worker j =>
    rw [exec] at hx
    cases hj : s.workers[j]? with
    | none =>
      rw [hj] at hx
      cases hx
      exact .nobody j hj
    | some w =>
      rw [hj] at hx
      exact .worker j w s' hj (workThread_cases hx)

/-! ## What a step leaves alone -/

section Frame
variable {s s' : ThreadPool} {j : ℕ} {w : Worker} {iThreadId : ℕ}

theorem WorkStep.frame (h : s.WorkStep j w s') :
    s'.iInitialNum = s.iInitialNum ∧ s'.iMaxNum = s.iMaxNum ∧ s'.manger = s.manger ∧
      s'.main = s.main ∧ s'.freed = s.freed := by
  cases h <;> exact ⟨rfl, rfl, rfl, rfl, rfl⟩

theorem MangerStep.frame (h : s.MangerStep iThreadId s') :
    s'.iInitialNum = s.iInitialNum ∧ s'.iMaxNum = s.iMaxNum ∧ s'.main = s.main ∧ s'.freed = s.freed := by
  cases h <;> exact ⟨rfl, rfl, rfl, rfl⟩

theorem MainStep.frame (h : s.MainStep iThreadId s') :
    s'.iInitialNum = s.iInitialNum ∧ s'.iMaxNum = s.iMaxNum ∧ s'.manger = s.manger := by
  cases h <;> exact ⟨rfl, rfl, rfl⟩

theorem exec_dims {l : Label} (hx : s.exec l = .ok s') :
    s'.iInitialNum = s.iInitialNum ∧ s'.iMaxNum = s.iMaxNum := by
  cases exec_cases hx with
  | main t s' h => exact ⟨h.frame.1, h.frame.2.1⟩
  | manger t s' h => exact ⟨h.frame.1, h.frame.2.1⟩
  | worker j w s' hj h => exact ⟨h.frame.1, h.frame.2.1⟩
  | post | refuse | fini | ignore | nobody => exact ⟨rfl, rfl⟩

end Frame

end ThreadPool

end AppUtil.Pool
