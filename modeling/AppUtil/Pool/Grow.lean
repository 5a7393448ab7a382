import AppUtil.Pool.Shutdown
import AppUtil.Pool.SlotTable

/-! # Growth under load

`AddThread` starts a worker in the first free slot, with the flags an earlier worker of that slot
has left in it. -/
namespace AppUtil.Pool
open AppUtil.Lib
set_option autoImplicit false

/-- In the loop of `WorkThread`, whose `iIndex` is known. -/
def WorkPc.InLoop : WorkPc → Prop
  | .loop _ | .poll _ | .taken _ _ | .job _ _ | .inJob _ _ | .release _ _ | .unbusy _ => True
  | .lookup _ | .closing _ | .leaving _ | .gone => False

/-- In `GetIndexByThreadId`, with at least `n` slots looked at. -/
def WorkPc.LookedAt (n : ℕ) : WorkPc → Prop
  | .lookup k => n ≤ k
  | _ => False

namespace ThreadPool

/-- `DeleteThread` or `Fini` sets the `bIsExit` of slot `i`. -/
def Marks (s : ThreadPool) (i : ℤ) : Label → Prop
  | .manger _ => s.manger = .marking i
  | .main _ => s.main = .marking i
  | .inputWork _ | .fini | .worker _ => False

/-- One pass of the loop of `MangerThread`, with nobody else running. -/
def Tick (iThreadId : ℕ) (s s' : ThreadPool) : Prop :=
  s.manger = .check ∧ ∃ t, s.exec (.manger iThreadId) = .ok t ∧
    Until exec (.manger iThreadId) (fun u => u.manger = .check) t s'

/-- Work is queued, there is room for one more worker, and every worker there is is busy. -/
structure Overloaded (s : ThreadPool) : Prop where
  queued : s.queue ≠ []
  room : s.liveNum < s.iMaxNum
  busy : ∀ w ∈ s.workers, w.Live → (s.pstWorkThdInfo w.iSlot).bIsBuy = true

instance (s : ThreadPool) : Decidable s.Overloaded :=
  decidable_of_iff (s.queue ≠ [] ∧ s.liveNum < s.iMaxNum ∧
      ∀ w ∈ s.workers, w.Live → (s.pstWorkThdInfo w.iSlot).bIsBuy = true)
    ⟨fun h => ⟨h.1, h.2.1, h.2.2⟩, fun h => ⟨h.queued, h.room, h.busy⟩⟩

/-- However the threads run from `s` on, worker `j` of slot `i` gets into its loop with the `i + 1`
steps of its lookup, and is there as long as nobody marks the slot. -/
def Serves (s : ThreadPool) (j : ℕ) (i : ℤ) : Prop :=
  ∀ ls, Meets exec (fun s l => ¬ s.Marks i l) s ls →
    ∃ t w, ls.foldlM exec s = .ok t ∧ t.workers[j]? = some w ∧
      (w.pc.InLoop ∨ w.pc.LookedAt (ls.count (.worker j)) ∧ ls.count (.worker j) ≤ i)

/-- A tick starts one more worker, and that worker serves. -/
def Grows (s : ThreadPool) : Prop :=
  ∀ iThreadId, s.CanBegin iThreadId → ∃ s' i, Tick iThreadId s s' ∧
    s'.workers = s.workers ++ [⟨iThreadId, i, .lookup 0⟩] ∧ s'.Serves s.workers.length i

/-- `i` is where `AddThread` finds its free slot. -/
structure FirstFree (s : ThreadPool) (i : ℤ) : Prop where
  valid : 0 ≤ i ∧ i < s.iMaxNum
  free : (s.pstWorkThdInfo i).iThreadId = 0
  first : ∀ k, 0 ≤ k → k < i → (s.pstWorkThdInfo k).iThreadId ≠ 0

/-- Some worker lives, and whoever had the first free slot before left it unmarked. -/
structure CanGrow (s : ThreadPool) : Prop where
  staffed : ∃ i, (0 ≤ i ∧ i < s.iMaxNum) ∧ (s.pstWorkThdInfo i).iThreadId ≠ 0
  unmarked : ∀ i, s.FirstFree i → (s.pstWorkThdInfo i).bIsExit = false

/-! ## A worker whose slot is not marked -/

section Marks
variable {s s' : ThreadPool} {j : ℕ} {w : Worker} {iThreadId : ℕ} {i : ℤ}

theorem setSlot_bIsExit {k : ℤ} {t : ThreadInfo} (ht : t.bIsExit = (s.pstWorkThdInfo k).bIsExit) :
    ((s.setSlot k t).pstWorkThdInfo i).bIsExit = (s.pstWorkThdInfo i).bIsExit := by
  by_cases hik : i = k
  · subst hik
    rw [setSlot_self, ht]
  · rw [setSlot_of_ne s hik]

theorem WorkStep.bIsExit (h : s.WorkStep j w s') :
    (s'.pstWorkThdInfo i).bIsExit = (s.pstWorkThdInfo i).bIsExit := by
  cases h with
  | setBusy | clearBusy | close | leave => exact setSlot_bIsExit rfl
  | miss | found | lost | stay | retire | take | timeout | call | skip | back | release | rest => rfl

theorem MangerStep.bIsExit (h : s.MangerStep iThreadId s') (hi : s.manger ≠ .marking i) :
    (s'.pstWorkThdInfo i).bIsExit = (s.pstWorkThdInfo i).bIsExit := by
  cases h with
  | add | store => exact setSlot_bIsExit rfl
  | setExit k hpc =>
    have hik : i ≠ k := by
      rintro rfl
      exact hi hpc
    exact congrArg _ (setSlot_of_ne s hik _)
  | quit | goOn | signalled | tick | taken | free | count | busy | idle | normal | next | full | mark
  | pass | marked | rest => rfl

theorem MainStep.bIsExit (h : s.MainStep iThreadId s') (hi : s.main ≠ .marking i) :
    (s'.pstWorkThdInfo i).bIsExit = (s.pstWorkThdInfo i).bIsExit := by
  cases h with
  | start | store => exact setSlot_bIsExit rfl
  | mark k hpc =>
    have hik : i ≠ k := by
      rintro rfl
      exact hi hpc
    exact congrArg _ (setSlot_of_ne s hik _)
  | started | taken | free | stopped | waited | sleep | setExit | setEvent | joined | drain | drained
  | close | release | rest => rfl

/-- A worker writes its own place in the list only. -/
theorem WorkStep.others (h : s.WorkStep j w s') {k : ℕ} (hk : k ≠ j) :
    s'.workers[k]? = s.workers[k]? := by
  cases h with
  | rest => rfl
  | _ => exact List.getElem?_set_ne (Ne.symm hk)

theorem MangerStep.workers (h : s.MangerStep iThreadId s') (hj : s.workers[j]? = some w) :
    s'.workers[j]? = some w := by
  cases h with
  | add => exact getElem?_concat_of_some hj
  | _ => exact hj

theorem MainStep.workers (h : s.MainStep iThreadId s') (hj : s.workers[j]? = some w) :
    s'.workers[j]? = some w := by
  cases h with
  | start => exact getElem?_concat_of_some hj
  | _ => exact hj

/-- As long as its slot is not marked, a worker goes on with its lookup or stays in its loop. -/
theorem WorkStep.serves (h : s.WorkStep j w s') (hs : s.Inv) (hj : s.workers[j]? = some w)
    (hexit : (s.pstWorkThdInfo w.iSlot).bIsExit = false) {n : ℕ}
    (hpc : w.pc.InLoop ∨ w.pc.LookedAt n) :
    ∃ w', s'.workers[j]? = some w' ∧ w'.iSlot = w.iSlot ∧ (w'.pc.InLoop ∨ w'.pc.LookedAt (n + 1)) := by
  have hat := hs.staffed.place j w hj
  have hgoto : ∀ pc : WorkPc, pc.InLoop ∨ pc.LookedAt (n + 1) →
      ∃ w', (s.goto j w pc).workers[j]? = some w' ∧ w'.iSlot = w.iSlot ∧
        (w'.pc.InLoop ∨ w'.pc.LookedAt (n + 1)) :=
    fun pc h => ⟨_, getElem?_set_of_some hj, rfl, h⟩
  cases h with
  | miss i hi _ _ =>
    rw [hi] at hpc
    refine hgoto _ (.inr ?_)
    have hn : (n : ℤ) ≤ i := hpc.resolve_left id
    simp only [WorkPc.LookedAt, Nat.cast_add, Nat.cast_one]
    omega
  | lost i hi hmax =>
    have hlive := (hs.staffed.sits hj (live_of hi (by simp))).2.1
    rw [hi] at hat
    exact absurd (lt_of_le_of_lt hat.2 hlive) (not_lt.mpr hmax)
  | retire i hi _ hmark =>
    rw [hi] at hat
    obtain rfl : i = w.iSlot := hat
    exact absurd (hexit.symm.trans hmark) nofun
  | close i hi | leave i hi | rest hi =>
    rw [hi] at hpc
    exact hpc.elim False.elim False.elim
  | found | stay | take | timeout | setBusy | call | skip | back | release | clearBusy =>
    exact hgoto _ (.inl trivial)

/-- Worker `j` has taken `n` steps since it was started in slot `i`, which is not marked. -/
structure Keeps (j : ℕ) (i : ℤ) (n : ℕ) (s : ThreadPool) : Prop where
  inv : s.Inv
  begun : s.main.inInit = false
  ahead : s.main.passed s.iMaxNum ≤ i
  waits : s.main ≠ .waiting i
  unmarked : (s.pstWorkThdInfo i).bIsExit = false
  here : ∃ w, s.workers[j]? = some w ∧ w.iSlot = i ∧ (w.pc.InLoop ∨ w.pc.LookedAt n)

variable {n : ℕ} {l : Label}

theorem Keeps.slot (h : Keeps j i n s) :
    (0 ≤ i ∧ i < s.iMaxNum) ∧ (s.pstWorkThdInfo i).iThreadId ≠ 0 := by
  obtain ⟨w, hj, rfl, hpc⟩ := h.here
  have hw : w.Live := by
    intro hgone
    rw [hgone] at hpc
    exact hpc.elim id id
  obtain ⟨h0, hmax, hid, hne⟩ := h.inv.staffed.sits hj hw
  exact ⟨⟨h0, hmax⟩, hid.symm ▸ hne⟩

theorem Keeps.not_freed (h : Keeps j i n s) : s.freed = false := by
  refine Bool.eq_false_iff.mpr fun hf => ?_
  have hle := h.ahead
  rw [h.inv.freed hf] at hle
  exact absurd h.slot.1.2 (not_lt.mpr hle)

/-- `Init` has returned for good. -/
theorem inInit_exec (hs : s.main.inInit = false) (hx : s.exec l = .ok s') : s'.main.inInit = false := by
  cases exec_cases hx with
  | post | refuse | ignore | nobody => exact hs
  | fini => rfl
  | main t s' h =>
    cases h with
    | start i hpc | store i _ hpc =>
      rw [hpc] at hs
      cases hs
    | drain | rest => exact hs
    | _ => rfl
  | manger t s' h => exact h.frame.2.2.1 ▸ hs
  | worker k w s' hk h => exact h.frame.2.2.2.1 ▸ hs

theorem afterInit_of (h : s.main.inInit = false) (l : Label) : s.AfterInit l := by
  cases l with
  | inputWork k => exact h
  | fini | main _ | manger _ | worker _ => trivial

/-- The loop of `Fini` does not get past a slot that has a worker, unless it marks it. -/
theorem MainStep.ahead (h : s.MainStep iThreadId s') (hle : s.main.passed s.iMaxNum ≤ i)
    (hwait : s.main ≠ .waiting i) (hi : i < s.iMaxNum) (hid : (s.pstWorkThdInfo i).iThreadId ≠ 0)
    (hmark : s.main ≠ .marking i) : s'.main.passed s'.iMaxNum ≤ i ∧ s'.main ≠ .waiting i := by
  have hstep : ∀ k, k ≤ i → k ≠ i → k + 1 ≤ i := fun k hk hne => lt_of_le_of_ne hk hne
  cases h with
  | start k hpc | started k hpc | store k _ hpc =>
    rw [hpc] at hle
    exact ⟨hle, nofun⟩
  | taken k hpc =>
    rw [hpc] at hle
    exact ⟨hle, nofun⟩
  | free k hpc _ hfree =>
    rw [hpc] at hle
    refine ⟨hstep k hle ?_, nofun⟩
    rintro rfl
    exact hid hfree
  | mark k hpc =>
    rw [hpc] at hle hmark
    refine ⟨hle, fun hk => hmark ?_⟩
    cases hk
    rfl
  | waited k hpc =>
    rw [hpc] at hle hwait
    refine ⟨hstep k hle ?_, nofun⟩
    rintro rfl
    exact hwait rfl
  | sleep k hpc =>
    rw [hpc] at hle hwait
    exact ⟨hle, hwait⟩
  | stopped k hpc hk =>
    rw [hpc] at hle
    exact absurd hi (not_lt.mpr (hk.trans hle))
  | setExit hpc | setEvent hpc | joined hpc | drained hpc | close hpc | release hpc =>
    rw [hpc] at hle
    exact absurd hi (not_lt.mpr hle)
  | drain k q hpc =>
    rw [hpc] at hle
    exact absurd hi (not_lt.mpr hle)
  | rest => exact ⟨hle, hwait⟩

theorem Keeps.exec (h : Keeps j i n s) (hl : ¬ s.Marks i l) (hx : s.exec l = .ok s') :
    Keeps j i (if l = .worker j then n + 1 else n) s' := by
  have hinv := h.inv.exec (afterInit_of h.begun l) hx
  have hbegun := inInit_exec h.begun hx
  obtain ⟨⟨h0, hmax⟩, hid⟩ := h.slot
  obtain ⟨w, hj, hwi, hpc⟩ := h.here
  -- the worker is where it was, and this was no step of its own
  have hother : l ≠ .worker j → s'.workers[j]? = some w →
      ∃ w, s'.workers[j]? = some w ∧ w.iSlot = i ∧
        (w.pc.InLoop ∨ w.pc.LookedAt (if l = .worker j then n + 1 else n)) := by
    intro hne hj'
    rw [if_neg hne]
    exact ⟨w, hj', hwi, hpc⟩
  cases exec_cases hx with
  | post | refuse | ignore => exact ⟨hinv, hbegun, h.ahead, h.waits, h.unmarked, hother nofun hj⟩
  | nobody k hk =>
    refine ⟨hinv, hbegun, h.ahead, h.waits, h.unmarked, hother ?_ hj⟩
    rintro ⟨⟩
    cases hj.symm.trans hk
  | fini => exact ⟨hinv, hbegun, h0, nofun, h.unmarked, hother nofun hj⟩
  | main t s' hstep =>
    obtain ⟨hahead, hwaits⟩ := hstep.ahead h.ahead h.waits hmax hid hl
    exact ⟨hinv, hbegun, hahead, hwaits, (hstep.bIsExit hl).trans h.unmarked,
      hother nofun (hstep.workers hj)⟩
  | manger t s' hstep =>
    obtain ⟨-, hmaxNum, hmain, -⟩ := hstep.frame
    refine ⟨hinv, hbegun, ?_, ?_, (hstep.bIsExit hl).trans h.unmarked,
      hother nofun (hstep.workers hj)⟩
    · rw [hmain, hmaxNum]
      exact h.ahead
    · rw [hmain]
      exact h.waits
  | worker k v s' hk hstep =>
    obtain ⟨-, hmaxNum, -, hmain, -⟩ := hstep.frame
    refine ⟨hinv, hbegun, ?_, ?_, hstep.bIsExit.trans h.unmarked, ?_⟩
    · rw [hmain, hmaxNum]
      exact h.ahead
    · rw [hmain]
      exact h.waits
    by_cases hkj : k = j
    · subst hkj
      obtain rfl : w = v := Option.some.inj (hj.symm.trans hk)
      rw [if_pos rfl, ← hwi]
      exact hstep.serves h.inv hj (hwi ▸ h.unmarked) hpc
    · exact hother (fun he => hkj (Label.worker.inj he)) ((hstep.others (Ne.symm hkj)).trans hj)

theorem Keeps.run {ls : List Label} (h : Keeps j i n s)
    (hls : Meets ThreadPool.exec (fun s l => ¬ s.Marks i l) s ls) :
    ∃ t, ls.foldlM ThreadPool.exec s = .ok t ∧ Keeps j i (n + ls.count (.worker j)) t := by
  induction ls generalizing s n with
  | nil => exact ⟨s, rfl, h⟩
  | cons l ls ih =>
    obtain ⟨s', hx⟩ := h.inv.exec_ok h.not_freed l
    obtain ⟨t, ht, hk⟩ := ih (h.exec hls.1 hx) (hls.2 s' hx)
    refine ⟨t, ?_, ?_⟩
    · rw [List.foldlM_cons, hx]
      exact ht
    · rw [List.count_cons]
      by_cases hl : l = .worker j
      · rw [if_pos hl] at hk
        rw [hl, beq_self_eq_true, if_pos rfl, Nat.add_comm _ 1, ← Nat.add_assoc]
        exact hk
      · rw [if_neg hl] at hk
        rw [if_neg (by rwa [beq_iff_eq]), Nat.add_zero]
        exact hk

theorem Keeps.serves (h : Keeps j i 0 s) : s.Serves j i := by
  intro ls hls
  obtain ⟨t, ht, hk⟩ := h.run hls
  rw [Nat.zero_add] at hk
  obtain ⟨w, hj, hwi, hpc⟩ := hk.here
  refine ⟨t, w, ht, hj, hpc.imp id fun hlook => ⟨hlook, ?_⟩⟩
  have hat := hk.inv.staffed.place j w hj
  cases hw : w.pc with
  | lookup k =>
    rw [hw] at hlook hat
    exact hlook.trans (hat.2.trans hwi.le)
  | _ =>
    rw [hw] at hlook
    exact hlook.elim

end Marks

/-! ## A tick -/

section Tick
variable {s s' : ThreadPool} {iThreadId : ℕ} {i : ℤ} {l : Label}

/-- Before `Fini` nobody tells the manager to stop. -/
def Unsignalled (s : ThreadPool) : Prop :=
  s.BeforeFini → s.bMangerIsExit = false ∧ s.hMangerExitEvent = false

theorem Unsignalled.exec (hs : s.Unsignalled) (hx : s.exec l = .ok s') : s'.Unsignalled := by
  cases exec_cases hx with
  | post | refuse | ignore | nobody => exact hs
  | fini => exact False.elim
  | main t s' h =>
    cases h with
    | start i hpc | started i hpc | store i _ hpc =>
      intro _
      exact hs (by rw [BeforeFini, hpc]; trivial)
    | drain k q hpc =>
      rw [Unsignalled, BeforeFini] at hs ⊢
      rw [deleteData, hpc]
      exact False.elim
    | rest => exact hs
    | _ => exact False.elim
  | manger t s' h =>
    cases h with
    | signalled => exact fun hb => ⟨(hs hb).1, rfl⟩
    | _ => exact hs
  | worker j w s' hj h =>
    cases h with
    | _ => exact hs

theorem beforeFini_of_running (hmain : s.main = .running) : s.BeforeFini := by
  rw [BeforeFini, hmain]
  trivial

/-- The loop of `GetThreadPoolStatus`, where every worker is busy. -/
theorem status_scan (iThreadId : ℕ) (hf : s.freed = false)
    (hbusy : ∀ k, 0 ≤ k → k < s.iMaxNum → (s.pstWorkThdInfo k).iThreadId ≠ 0 →
      (s.pstWorkThdInfo k).bIsBuy = true)
    (n : ℕ) (t : ℤ) (h0 : 0 ≤ i) (hn : i + n = s.iMaxNum) :
    ∃ t', t ≤ t' ∧ (t' = t ↔ ∀ k, i ≤ k → k < s.iMaxNum → (s.pstWorkThdInfo k).iThreadId = 0) ∧
      ∀ u, Until exec (.manger iThreadId) (fun u => u.manger = .check)
          { s with manger := .status s.iMaxNum t' t' } u →
        Until exec (.manger iThreadId) (fun u => u.manger = .check)
          { s with manger := .status i t t } u := by
  induction n generalizing i t with
  | zero =>
    obtain rfl : i = s.iMaxNum := by omega
    exact ⟨t, le_refl t, ⟨fun _ k hk hlt => absurd hlt (not_lt.mpr hk), fun _ => rfl⟩, fun _ => id⟩
  | succ n ih =>
    have hi : i < s.iMaxNum := by omega
    have hslot : ∀ pc, ThreadPool.slot { s with manger := pc } i = .ok (s.pstWorkThdInfo i) :=
      fun pc => slot_of_valid (s := { s with manger := pc }) ⟨hf, h0, hi⟩
    by_cases hid : (s.pstWorkThdInfo i).iThreadId = 0
    · obtain ⟨t', hle, hiff, hrun⟩ := ih t (i := i + 1) (by omega) (by omega)
      refine ⟨t', hle, hiff.trans ⟨fun h k hk => ?_, fun h k hk => h k (by omega)⟩, fun u hu => ?_⟩
      · rcases hk.eq_or_lt with rfl | hk
        · exact fun _ => hid
        · exact h k hk
      · refine .step (by simp) ?_ (hrun u hu)
        simp only [exec, mangerThread, if_pos hi, hslot, ok_bind, hid, lt_irrefl, if_false,
          pure_eq_ok, gt_iff_lt]
    · obtain ⟨t', hle, -, hrun⟩ := ih (t + 1) (i := i + 1) (by omega) (by omega)
      have hb := hbusy i h0 hi hid
      refine ⟨t', by omega, ⟨fun h => absurd hle (by omega), fun h => absurd (h i (le_refl i) hi) hid⟩,
        fun u hu => ?_⟩
      refine .step (t := { s with manger := .counting i t t }) (by simp) ?_ (.step (by simp) ?_ (hrun u hu))
      · simp only [exec, mangerThread, if_pos hi, hslot, ok_bind, if_pos (Nat.pos_of_ne_zero hid),
          pure_eq_ok, gt_iff_lt]
      · simp only [exec, mangerThread, hslot, ok_bind, hb, if_true, pure_eq_ok]

/-- The loop of `AddThread` up to the first free slot. -/
theorem adding_scan (hf : s.freed = false) (hi : s.FirstFree i) (n : ℕ) {k : ℤ} (h0 : 0 ≤ k)
    (hn : k + n = i) {u : ThreadPool}
    (hu : Until exec (.manger iThreadId) (fun u => u.manger = .check) { s with manger := .adding i } u) :
    Until exec (.manger iThreadId) (fun u => u.manger = .check) { s with manger := .adding k } u := by
  induction n generalizing k with
  | zero =>
    obtain rfl : k = i := by omega
    exact hu
  | succ n ih =>
    have hk : k < s.iMaxNum := by
      have := hi.valid.2
      omega
    refine .step (by simp) ?_ (ih (k := k + 1) (by omega) (by omega))
    have hslot := slot_of_valid (s := { s with manger := .adding k }) ⟨hf, h0, hk⟩
    simp only [exec, mangerThread, if_pos hk, hslot, ok_bind, if_neg (hi.first k h0 (by omega)),
      pure_eq_ok]

/-- What a tick leaves behind that starts a worker in slot `i`. -/
def grown (s : ThreadPool) (i : ℤ) (iThreadId : ℕ) : ThreadPool :=
  let t := s.beginThread i iThreadId
  { t.setSlot i { t.pstWorkThdInfo i with hHandle := some s.workers.length } with manger := .check }

/-- Where the tick goes on in an overloaded pool, with `t` workers counted. -/
theorem tick_of_status (iThreadId : ℕ) (hs : s.Inv) (hu : s.Unsignalled) (hmain : s.main = .running)
    (hm : s.manger = .check) (ho : s.Overloaded) :
    ∃ t : ℤ, 0 ≤ t ∧ (t = 0 ↔ ∀ k, 0 ≤ k → k < s.iMaxNum → (s.pstWorkThdInfo k).iThreadId = 0) ∧
      ∀ u, Until exec (.manger iThreadId) (fun u => u.manger = .check)
        { s with manger := .status s.iMaxNum t t } u → Tick iThreadId s u := by
  have hb := beforeFini_of_running hmain
  obtain ⟨hexit, hevent⟩ := hu hb
  have hbusy : ∀ k, 0 ≤ k → k < s.iMaxNum → (s.pstWorkThdInfo k).iThreadId ≠ 0 →
      (s.pstWorkThdInfo k).bIsBuy = true := by
    intro k h0 hmax hid
    obtain ⟨j, w, hj, hview⟩ := hs.staffed.seated.taken k (Finset.mem_Ico.mpr ⟨h0, hmax⟩) hid
    obtain ⟨hw, rfl, -⟩ := Worker.view_eq_some.mp hview
    exact ho.busy w (List.mem_of_getElem? hj) hw
  have hmax : 0 ≤ s.iMaxNum := hs.dims.1.trans hs.dims.2
  obtain ⟨t, hle, hiff, hrun⟩ := status_scan iThreadId (hb.not_freed hs) hbusy
    s.iMaxNum.toNat 0 (le_refl 0) (by omega)
  refine ⟨t, hle, hiff, fun u h => ⟨hm, { s with manger := .wait }, ?_, .step (by simp) ?_ (hrun u h)⟩⟩
  · simp only [exec, mangerThread, hm, hexit, pure_eq_ok]
    rfl
  · simp only [exec, mangerThread, hevent, pure_eq_ok]
    rfl

/-- No worker, no growth: `0 / 0` is neither busy nor idle. -/
theorem tick_stalls (hs : s.Inv) (hu : s.Unsignalled) (hmain : s.main = .running)
    (hm : s.manger = .check) (ho : s.Overloaded)
    (hnone : ∀ k, 0 ≤ k → k < s.iMaxNum → (s.pstWorkThdInfo k).iThreadId = 0) :
    Tick iThreadId s s := by
  obtain ⟨t, -, hiff, hrun⟩ := tick_of_status iThreadId hs hu hmain hm ho
  obtain rfl : t = 0 := hiff.mpr hnone
  have hsame : { s with manger := .check } = s := by rw [← hm]
  refine hrun s (.step (by simp) ?_ (.stop hm))
  simp only [exec, mangerThread, lt_irrefl, if_false, getThreadPoolStatus, mul_zero, pure_eq_ok, hsame]

/-- With a worker there is, the tick starts one more in the first free slot. -/
theorem tick_adds (hs : s.Inv) (hu : s.Unsignalled) (hmain : s.main = .running)
    (hm : s.manger = .check) (ho : s.Overloaded)
    (hsome : ∃ k, (0 ≤ k ∧ k < s.iMaxNum) ∧ (s.pstWorkThdInfo k).iThreadId ≠ 0) (hi : s.FirstFree i)
    (hid : s.CanBegin iThreadId) : Tick iThreadId s (s.grown i iThreadId) := by
  obtain ⟨t, hle, hiff, hrun⟩ := tick_of_status iThreadId hs hu hmain hm ho
  have hpos : 0 < t := by
    refine lt_of_le_of_ne hle fun h => ?_
    obtain ⟨k, ⟨h0, hmax⟩, hk⟩ := hsome
    exact hk (hiff.mp h.symm k h0 hmax)
  have hf := (beforeFini_of_running hmain).not_freed hs
  obtain ⟨h0, hmax⟩ := hi.valid
  have hadd : Until exec (.manger iThreadId) (fun u => u.manger = .check)
      { s with manger := .adding i } (s.grown i iThreadId) := by
    have hslot := slot_of_valid (s := { s with manger := .adding i }) ⟨hf, hi.valid⟩
    refine .step (t := { s.beginThread i iThreadId with manger := .storing i s.workers.length }) (by simp) ?_
      (.step (by simp) ?_ (.stop rfl))
    · have hcan : CanBegin { s with manger := .adding i } iThreadId := hid
      simp only [exec, mangerThread, if_pos hmax, hslot, ok_bind, if_pos hi.free, if_pos hcan, pure_eq_ok]
      rfl
    · have hslot' := slot_of_valid
        (s := { s.beginThread i iThreadId with manger := .storing i s.workers.length }) ⟨hf, hi.valid⟩
      simp only [exec, mangerThread, hslot', ok_bind, pure_eq_ok]
      rfl
  have hscan := adding_scan hf hi i.toNat (le_refl 0) (by omega) hadd
  refine hrun _ (.step (by simp) ?_ hscan)
  have hbusy : getThreadPoolStatus t t = .busy := if_pos (by omega)
  simp only [exec, mangerThread, lt_irrefl, if_false, hbusy, pure_eq_ok]

end Tick

section Growth
variable {s s' : ThreadPool} {j : ℕ} {w : Worker} {iThreadId : ℕ} {i : ℤ}

theorem exists_firstFree (hs : s.Inv) (hroom : s.liveNum < s.iMaxNum) : ∃ i, s.FirstFree i := by
  have hfree : ∃ n : ℕ, (n : ℤ) < s.iMaxNum ∧ (s.pstWorkThdInfo n).iThreadId = 0 := by
    by_contra hnone
    have htaken : ∀ k ∈ Finset.Ico 0 s.iMaxNum, (s.pstWorkThdInfo k).iThreadId ≠ 0 := by
      intro k hk hid
      obtain ⟨h0, hmax⟩ := Finset.mem_Ico.mp hk
      refine hnone ⟨k.toNat, ?_, ?_⟩
      · rwa [Int.toNat_of_nonneg h0]
      · rwa [Int.toNat_of_nonneg h0]
    have hcard := hs.staffed.seated.le_countP (Finset.Subset.refl _) htaken
    rw [Int.card_Ico, ← liveNum_eq] at hcard
    omega
  obtain ⟨hmax, hid⟩ := Nat.find_spec hfree
  refine ⟨Nat.find hfree, ⟨Int.natCast_nonneg _, hmax⟩, hid, fun k h0 hk hfree' => ?_⟩
  obtain ⟨n, rfl⟩ := Int.eq_ofNat_of_zero_le h0
  exact Nat.find_min hfree (by omega) ⟨by omega, hfree'⟩

theorem FirstFree.unique {k : ℤ} (hi : s.FirstFree i) (hk : s.FirstFree k) : i = k := by
  rcases lt_trichotomy i k with h | h | h
  · exact absurd hi.free (hk.first i hi.valid.1 h)
  · exact h
  · exact absurd hk.free (hi.first k hk.valid.1 h)

theorem grown_inv (hs : s.Inv) (hi : s.FirstFree i) (hf : s.freed = false) (hid : s.CanBegin iThreadId)
    (hmain : s.main = .running) : (s.grown i iThreadId).Inv := by
  have hphase : Phase { s with manger := .adding i } := by
    have hp := hs.phase
    rw [Phase] at hp ⊢
    rw [hmain] at hp
    simp only [hmain]
    exact hp
  have hadd : Inv { s with manger := .adding i } :=
    ⟨hs.dims, hs.staffed, hi.valid.1, hs.main, hphase, hs.freed⟩
  let stored : ThreadPool :=
    { s.beginThread i iThreadId with manger := .storing i s.workers.length }
  have hadding : MangerStep { s with manger := .adding i } iThreadId stored :=
    .add i rfl ⟨hf, hi.valid⟩ hi.free hid
  have hstoring : MangerStep stored iThreadId (s.grown i iThreadId) :=
    .store i s.workers.length rfl ⟨hf, hi.valid⟩
  exact (hadd.manger_step hadding).manger_step hstoring

theorem grown_bIsExit :
    ((s.grown i iThreadId).pstWorkThdInfo i).bIsExit = (s.pstWorkThdInfo i).bIsExit := by
  simp only [grown, beginThread, setSlot, Function.update_self]

/-- In a marked slot: the worker that has taken `n` steps can be there. -/
def WorkPc.Doomed (i : ℤ) (n : ℕ) : WorkPc → Prop
  | .lookup k => n ≤ k
  | .loop _ => n ≤ i + 1
  | .closing _ | .leaving _ | .gone => True
  | _ => False

structure Dooms (j : ℕ) (i : ℤ) (n : ℕ) (s : ThreadPool) : Prop where
  inv : s.Inv
  marked : (s.pstWorkThdInfo i).bIsExit = true
  here : ∃ w, s.workers[j]? = some w ∧ w.iSlot = i ∧ WorkPc.Doomed i n w.pc

theorem WorkStep.dooms {n : ℕ} (h : s.WorkStep j w s') (hs : s.Inv) (hj : s.workers[j]? = some w)
    (hexit : (s.pstWorkThdInfo w.iSlot).bIsExit = true) (hpc : WorkPc.Doomed w.iSlot n w.pc) :
    ∃ w', s'.workers[j]? = some w' ∧ w'.iSlot = w.iSlot ∧ WorkPc.Doomed w.iSlot (n + 1) w'.pc := by
  have hat := hs.staffed.place j w hj
  have hgoto : ∀ pc : WorkPc, WorkPc.Doomed w.iSlot (n + 1) pc →
      ∃ w', (s.goto j w pc).workers[j]? = some w' ∧ w'.iSlot = w.iSlot ∧
        WorkPc.Doomed w.iSlot (n + 1) w'.pc :=
    fun pc h => ⟨_, getElem?_set_of_some hj, rfl, h⟩
  cases h with
  | miss k hk =>
    rw [hk] at hpc
    refine hgoto _ ?_
    simp only [WorkPc.Doomed] at hpc ⊢
    omega
  | found k hk =>
    rw [hk] at hpc hat
    refine hgoto _ ?_
    have hle := hat.2
    simp only [WorkPc.Doomed] at hpc ⊢
    omega
  | stay k hk _ hstay =>
    rw [hk] at hat
    obtain rfl : k = w.iSlot := hat
    exact absurd (hstay.symm.trans hexit) nofun
  | lost | retire | close | leave => exact hgoto _ trivial
  | take k _ _ hk | timeout k hk | setBusy k _ hk | call k _ hk | skip k _ hk | back k _ hk
  | release k _ hk | clearBusy k hk =>
    rw [hk] at hpc
    exact hpc.elim
  | rest hk => exact ⟨w, hj, rfl, by rw [hk]; trivial⟩

theorem Dooms.run {n m : ℕ} {t : ThreadPool} (h : Dooms j i n s)
    (hx : (List.replicate m (Label.worker j)).foldlM ThreadPool.exec s = .ok t) :
    Dooms j i (n + m) t := by
  induction m generalizing s n with
  | zero =>
    obtain rfl : s = t := Except.ok.inj hx
    exact h
  | succ m ih =>
    rw [List.replicate_succ, List.foldlM_cons] at hx
    obtain ⟨s', hstep, hx⟩ := bind_eq_ok.mp hx
    have hs' : Dooms j i (n + 1) s' := by
      obtain ⟨w, hj, hwi, hpc⟩ := h.here
      have hinv := h.inv.exec (l := .worker j) trivial hstep
      cases exec_cases hstep with
      | nobody _ hk => cases hj.symm.trans hk
      | worker _ v _ hk hw =>
        obtain rfl : w = v := Option.some.inj (hj.symm.trans hk)
        subst hwi
        exact ⟨hinv, hw.bIsExit.trans h.marked, hw.dooms h.inv hj h.marked hpc⟩
    rw [Nat.add_comm m 1, ← Nat.add_assoc]
    exact ih hs' hx

theorem Dooms.not_serves (h : Dooms j i 0 s) (h0 : 0 ≤ i) : ¬ s.Serves j i := by
  intro hserves
  have hown : ∀ n s, Meets ThreadPool.exec (fun s l => ¬ s.Marks i l) s
      (List.replicate n (Label.worker j)) := by
    intro n
    induction n with
    | zero => exact fun _ => trivial
    | succ n ih => exact fun s => ⟨id, fun t _ => ih t⟩
  obtain ⟨t, w, ht, hj, hpc⟩ := hserves _ (hown (i.toNat + 2) s)
  obtain ⟨v, hk, -, hv⟩ := (h.run ht).here
  obtain rfl : w = v := Option.some.inj (hj.symm.trans hk)
  rw [List.count_replicate_self] at hpc
  rcases hpc with hpc | ⟨-, hle⟩
  · cases hw : w.pc with
    | loop k =>
      rw [hw] at hv
      simp only [WorkPc.Doomed] at hv
      omega
    | lookup | closing | leaving | gone =>
      rw [hw] at hpc
      exact hpc
    | _ =>
      rw [hw] at hv
      exact hv
  · omega

theorem grown_new : (s.grown i iThreadId).workers[s.workers.length]? = some ⟨iThreadId, i, .lookup 0⟩ :=
  List.getElem?_concat_length

/-- A tick that starts a worker has counted one, and has started it in a slot that is not marked. -/
theorem Grows.canGrow (hg : s.Grows) (hs : s.Inv) (hu : s.Unsignalled) (hmain : s.main = .running)
    (hm : s.manger = .check) (ho : s.Overloaded) : s.CanGrow := by
  obtain ⟨i, hi⟩ := exists_firstFree hs ho.room
  have hf := (beforeFini_of_running hmain).not_freed hs
  obtain ⟨iThreadId, hid⟩ := exists_canBegin s
  obtain ⟨s', k, ⟨-, t, hx, htick⟩, hworkers, hserves⟩ := hg iThreadId hid
  have hunique : ∀ u, Tick iThreadId s u → s' = u := by
    rintro u ⟨-, t', hx', htick'⟩
    obtain rfl : t = t' := Except.ok.inj (hx.symm.trans hx')
    exact htick.unique htick'
  have hsome : ∃ k, (0 ≤ k ∧ k < s.iMaxNum) ∧ (s.pstWorkThdInfo k).iThreadId ≠ 0 := by
    by_contra hnone
    obtain rfl : s' = s := hunique s (tick_stalls hs hu hmain hm ho fun k h0 hmax =>
      not_not.mp fun hk => hnone ⟨k, ⟨h0, hmax⟩, hk⟩)
    have hlen := congrArg List.length hworkers
    rw [List.length_append] at hlen
    exact absurd hlen (by simp)
  obtain rfl : s' = s.grown i iThreadId := hunique _ (tick_adds hs hu hmain hm ho hsome hi hid)
  obtain rfl : i = k := by
    have hlast := List.append_cancel_left (show s.workers ++ _ = s.workers ++ _ from hworkers)
    exact congrArg Worker.iSlot (List.head_eq_of_cons_eq hlast)
  refine ⟨hsome, fun k hk => ?_⟩
  obtain rfl := hi.unique hk
  refine Bool.eq_false_iff.mpr fun hmark => ?_
  have hdooms : Dooms s.workers.length i 0 (s.grown i iThreadId) :=
    ⟨grown_inv hs hi hf hid hmain, grown_bIsExit.trans hmark, _, grown_new, rfl, le_refl (0 : ℤ)⟩
  exact hdooms.not_serves hi.valid.1 hserves

theorem CanGrow.grows (h : s.CanGrow) (hs : s.Inv) (hu : s.Unsignalled) (hmain : s.main = .running)
    (hm : s.manger = .check) (ho : s.Overloaded) : s.Grows := by
  obtain ⟨i, hi⟩ := exists_firstFree hs ho.room
  have hf := (beforeFini_of_running hmain).not_freed hs
  intro iThreadId hid
  refine ⟨s.grown i iThreadId, i, tick_adds hs hu hmain hm ho h.staffed hi hid, rfl, ?_⟩
  have hmain' : (s.grown i iThreadId).main = .running := hmain
  refine Keeps.serves ⟨grown_inv hs hi hf hid hmain, ?_, ?_, ?_,
    grown_bIsExit.trans (h.unmarked i hi), _, grown_new, rfl, .inr (le_refl (0 : ℤ))⟩
  · rw [hmain']
    rfl
  · rw [hmain']
    exact hi.valid.1
  · rw [hmain']
    intro hwait
    cases hwait

/-- What holds where a run ends that posts no work during `Init`. -/
theorem inv_of_run {iInitialNum iMaxNum : ℤ} (h : 0 ≤ iInitialNum ∧ iInitialNum ≤ iMaxNum)
    {ls : List Label} (hinput : Meets exec AfterInit (start iInitialNum iMaxNum) ls)
    (hx : ls.foldlM exec (start iInitialNum iMaxNum) = .ok s) : s.Inv ∧ s.Unsignalled := by
  refine hinput.inv (P := fun s => s.Inv ∧ s.Unsignalled) ?_ ⟨start_inv h, fun _ => ⟨rfl, rfl⟩⟩ hx
  exact fun s l s' hs hl hx => ⟨hs.1.exec hl hx, hs.2.exec hx⟩

end Growth

/-- **The pool can grow** in an overloaded state that a run reaches between `Init` and `Fini`, exactly
when some worker lives and the first free slot is not marked. -/
theorem grows_iff {iInitialNum iMaxNum : ℤ} (h : 0 ≤ iInitialNum ∧ iInitialNum ≤ iMaxNum)
    {ls : List Label} {s : ThreadPool} (hinput : Meets exec AfterInit (start iInitialNum iMaxNum) ls)
    (hx : ls.foldlM exec (start iInitialNum iMaxNum) = .ok s) (hmain : s.main = .running)
    (hm : s.manger = .check) (ho : s.Overloaded) : s.Grows ↔ s.CanGrow := by
  obtain ⟨hs, hu⟩ := inv_of_run h hinput hx
  exact ⟨fun hg => hg.canGrow hs hu hmain hm ho, fun hc => hc.grows hs hu hmain hm ho⟩

/-- One worker on a job, and one more job in the queue. -/
theorem grows_iff_sample : ∃ s,
    [Label.main 11, .main 0, .main 0, .worker 0, .worker 0, .inputWork ⟨some 1, some 2⟩,
      .inputWork ⟨some 1, some 3⟩, .worker 0, .worker 0].foldlM exec (start 1 2) = .ok s ∧
      (s.Grows ↔ s.CanGrow) := by
  have hrun : ∃ s,
      [Label.main 11, .main 0, .main 0, .worker 0, .worker 0, .inputWork ⟨some 1, some 2⟩,
        .inputWork ⟨some 1, some 3⟩, .worker 0, .worker 0].foldlM exec (start 1 2) = .ok s ∧
        s.main = .running ∧ s.manger = .check ∧ s.Overloaded := by decide +kernel
  obtain ⟨s, hx, hmain, hm, ho⟩ := hrun
  exact ⟨s, hx, grows_iff (by decide) (by decide) hx hmain hm ho⟩

/-- Worker 1 is started in slot 1 while worker 0 is on a job, and retired when both are idle. Then
worker 0 is on a job again. -/
def reusedSlot : List Label :=
  [.main 11, .main 0, .main 0, .worker 0, .worker 0, .inputWork ⟨some 1, none⟩, .worker 0, .worker 0,
    -- a tick that adds worker 1
    .manger 0, .manger 0, .manger 0, .manger 0, .manger 0, .manger 0, .manger 0, .manger 12, .manger 0,
    .worker 0, .worker 0, .worker 0, .worker 0,
    -- a tick that marks slot 1
    .manger 0, .manger 0, .manger 0, .manger 0, .manger 0, .manger 0, .manger 0, .manger 0, .manger 0,
    .manger 0, .worker 1, .worker 1, .worker 1, .worker 1, .worker 1,
    .inputWork ⟨some 1, none⟩, .inputWork ⟨some 1, none⟩, .worker 0, .worker 0, .worker 0]

/-- The pool does not grow when it was started with no worker, nor when the free slot was used before:
its `bIsExit` is never reset. -/
theorem stuck_pools :
    (∃ s, Meets exec AfterInit (start 0 1) [.main 0, .inputWork ⟨some 1, none⟩] ∧
      [Label.main 0, .inputWork ⟨some 1, none⟩].foldlM exec (start 0 1) = .ok s ∧
      s.main = .running ∧ s.manger = .check ∧ s.Overloaded ∧ ¬ s.Grows) ∧
    ∃ s, Meets exec AfterInit (start 1 2) reusedSlot ∧ reusedSlot.foldlM exec (start 1 2) = .ok s ∧
      s.main = .running ∧ s.manger = .check ∧ s.Overloaded ∧ ¬ s.Grows := by
  constructor
  · have hinput : Meets exec AfterInit (start 0 1) [.main 0, .inputWork ⟨some 1, none⟩] := by decide
    have hrun : ∃ s, [Label.main 0, .inputWork ⟨some 1, none⟩].foldlM exec (start 0 1) = .ok s ∧
        s.main = .running ∧ s.manger = .check ∧ s.Overloaded ∧ s.iMaxNum = 1 ∧
        (s.pstWorkThdInfo 0).iThreadId = 0 := by decide +kernel
    obtain ⟨s, hx, hmain, hm, ho, hmax, hfree⟩ := hrun
    refine ⟨s, hinput, hx, hmain, hm, ho, fun hg => ?_⟩
    obtain ⟨hs, hu⟩ := inv_of_run (by decide) hinput hx
    obtain ⟨k, ⟨h0, hlt⟩, hk⟩ := (hg.canGrow hs hu hmain hm ho).staffed
    obtain rfl : k = 0 := by omega
    exact hk hfree
  · have hinput : Meets exec AfterInit (start 1 2) reusedSlot := by decide +kernel
    have hrun : ∃ s, reusedSlot.foldlM exec (start 1 2) = .ok s ∧
        s.main = .running ∧ s.manger = .check ∧ s.Overloaded ∧ s.iMaxNum = 2 ∧
        (s.pstWorkThdInfo 0).iThreadId ≠ 0 ∧ (s.pstWorkThdInfo 1).iThreadId = 0 ∧
        (s.pstWorkThdInfo 1).bIsExit = true := by decide +kernel
    obtain ⟨s, hx, hmain, hm, ho, hmax, htaken, hfree, hmarked⟩ := hrun
    refine ⟨s, hinput, hx, hmain, hm, ho, fun hg => ?_⟩
    obtain ⟨hs, hu⟩ := inv_of_run (by decide) hinput hx
    have hfirst : s.FirstFree 1 := by
      refine ⟨⟨by decide, by omega⟩, hfree, fun k h0 hlt => ?_⟩
      obtain rfl : k = 0 := by omega
      exact htaken
    have hclean := (hg.canGrow hs hu hmain hm ho).unmarked 1 hfirst
    exact absurd (hmarked.symm.trans hclean) nofun

end ThreadPool

end AppUtil.Pool
