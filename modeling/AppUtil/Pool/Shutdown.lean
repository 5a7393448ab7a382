import AppUtil.Pool.Invariant

/-! # `Fini` against the manager and the workers

`Fini` stops the workers slot by slot and the manager after them. It waits for the handle of a slot
to be NULL, and a worker writes the `iThreadId` of its slot after that. -/
namespace AppUtil.Pool
open AppUtil.Lib
set_option autoImplicit false

/-- How many slots the loop of `Fini` has left behind. -/
def MainPc.passed (iMaxNum : ℤ) : MainPc → ℤ
  | .starting _ | .storing _ _ | .running => 0
  | .stopping i | .marking i | .waiting i => i
  | .setExit | .setEvent | .join | .drain | .close | .free | .done => iMaxNum

def MainPc.joined : MainPc → Bool
  | .drain | .close | .free | .done => true
  | _ => false

/-- The slot that `AddThread` looks at. -/
def MangerPc.addsAt : MangerPc → Option ℤ
  | .adding i => some i
  | _ => none

/-- The slot that `Fini` waits for. -/
def MainPc.waitsAt : MainPc → Option ℤ
  | .waiting i => some i
  | _ => none

namespace ThreadPool

/-- Where `Fini` frees the table, and when it has returned, nobody is left to touch it. -/
def Quiesced (s : ThreadPool) : Prop :=
  s.main = .free ∨ s.main = .done →
    s.manger = .gone ∧ ∀ (j : ℕ) w, s.workers[j]? = some w → ¬ w.Live

/-- The condition on a step. `AddThread` starts no worker in a slot that the loop of `Fini` has left
behind, and the loop leaves a slot it waits for only when the slot is free. -/
def InOrder (s : ThreadPool) : Label → Prop
  | .manger _ => ∀ i ∈ s.manger.addsAt, (s.pstWorkThdInfo i).iThreadId = 0 →
      s.main.passed s.iMaxNum ≤ i
  | .main _ => ∀ i ∈ s.main.waitsAt, (s.pstWorkThdInfo i).hHandle = none →
      (s.pstWorkThdInfo i).iThreadId = 0
  | _ => True

instance (s : ThreadPool) : (l : Label) → Decidable (s.InOrder l)
  | .manger _ => inferInstanceAs (Decidable (∀ i ∈ s.manger.addsAt, _))
  | .main _ => inferInstanceAs (Decidable (∀ i ∈ s.main.waitsAt, _))
  | .inputWork _ | .fini | .worker _ => isTrue trivial

structure Cleared (s : ThreadPool) : Prop where
  behind : ∀ i, 0 ≤ i → i < s.main.passed s.iMaxNum → (s.pstWorkThdInfo i).iThreadId = 0
  manger : s.main.joined = true → s.manger = .gone

section
variable {s s' : ThreadPool} {l : Label} {j : ℕ} {w : Worker} {iThreadId : ℕ}

theorem start_cleared (iInitialNum iMaxNum : ℤ) : (start iInitialNum iMaxNum).Cleared :=
  ⟨fun _ _ _ => rfl, nofun⟩

theorem WorkStep.free (h : s.WorkStep j w s') {i : ℤ} (hi : (s.pstWorkThdInfo i).iThreadId = 0) :
    (s'.pstWorkThdInfo i).iThreadId = 0 := by
  have hset : ∀ (k : ℤ) (t : ThreadInfo), t.iThreadId = 0 ∨ t.iThreadId = (s.pstWorkThdInfo k).iThreadId →
      ((s.setSlot k t).pstWorkThdInfo i).iThreadId = 0 := by
    intro k t ht
    by_cases hik : i = k
    · subst hik
      rw [setSlot_self]
      exact ht.elim id fun ht => ht.trans hi
    · rw [setSlot_of_ne s hik]
      exact hi
  cases h with
  | setBusy k _ hpc | clearBusy k hpc | close k hpc => exact hset k _ (.inr rfl)
  | leave k hpc => exact hset k _ (.inl rfl)
  | miss | found | lost | stay | retire | take | timeout | call | skip | back | release | rest =>
    exact hi

theorem Cleared.worker (hs : s.Cleared) (h : s.WorkStep j w s') : s'.Cleared := by
  obtain ⟨-, hmax, hmanger, hmain, -⟩ := h.frame
  refine ⟨fun i h0 hi => ?_, ?_⟩
  · rw [hmax, hmain] at hi
    exact h.free (hs.behind i h0 hi)
  · rw [hmain, hmanger]
    exact hs.manger

theorem Cleared.manger_step (hs : s.Cleared) (hl : s.InOrder (.manger iThreadId))
    (h : s.MangerStep iThreadId s') : s'.Cleared := by
  refine ⟨fun i h0 hi => ?_, fun hj => ?_⟩
  · cases h with
    | add k hpc hv hfree hid =>
      have hle := hl k (by rw [hpc]; rfl) hfree
      have hik : i ≠ k := by
        rintro rfl
        exact absurd hi (not_lt.mpr hle)
      exact (congrArg _ (setSlot_of_ne s hik _)).trans (hs.behind i h0 hi)
    | store k _ hpc hv | setExit k hpc hv =>
      have hold := hs.behind i h0 hi
      by_cases hik : i = k
      · subst hik
        exact (congrArg _ (setSlot_self s i _)).trans hold
      · exact (congrArg _ (setSlot_of_ne s hik _)).trans hold
    | quit | goOn | signalled | tick | taken | free | count | busy | idle | normal | next | full | mark
    | pass | marked | rest => exact hs.behind i h0 hi
  · rw [h.frame.2.2.1] at hj
    have hgone := hs.manger hj
    cases h with
    | quit | signalled | rest => first | rfl | exact hgone
    | goOn hpc | tick hpc | taken _ _ _ hpc | free _ _ _ hpc | count _ _ _ _ hpc | busy _ _ _ hpc
    | idle _ _ _ hpc | normal _ _ _ hpc | add _ hpc | next _ hpc | full _ hpc | store _ _ hpc
    | mark _ hpc | pass _ hpc | marked _ hpc | setExit _ hpc =>
      exact absurd (hgone.symm.trans hpc) nofun

theorem Cleared.main_step (hs : s.Cleared) (hl : s.InOrder (.main iThreadId))
    (h : s.MainStep iThreadId s') : s'.Cleared := by
  have hb := hs.behind
  cases h with
  | start i | started i | store i =>
    refine ⟨fun k h0 hk => absurd hk (not_lt.mpr h0), nofun⟩
  | taken i hpc | sleep i hpc =>
    rw [hpc] at hb
    exact ⟨hb, nofun⟩
  | mark i hpc =>
    rw [hpc] at hb
    refine ⟨fun k h0 hk => ?_, nofun⟩
    have hki : k ≠ i := ne_of_lt hk
    exact (congrArg _ (setSlot_of_ne s hki _)).trans (hb k h0 hk)
  | free i hpc hv hfree =>
    rw [hpc] at hb
    refine ⟨fun k h0 hk => ?_, nofun⟩
    rcases Int.lt_or_eq_of_le (Int.lt_add_one_iff.mp hk) with hk | rfl
    · exact hb k h0 hk
    · exact hfree
  | waited i hpc hv hnull =>
    have hfree := hl i (by rw [hpc]; rfl) hnull
    rw [hpc] at hb
    refine ⟨fun k h0 hk => ?_, nofun⟩
    rcases Int.lt_or_eq_of_le (Int.lt_add_one_iff.mp hk) with hk | rfl
    · exact hb k h0 hk
    · exact hfree
  | stopped i hpc hi =>
    rw [hpc] at hb
    exact ⟨fun k h0 hk => hb k h0 (lt_of_lt_of_le hk hi), nofun⟩
  | setExit hpc | setEvent hpc =>
    rw [hpc] at hb
    exact ⟨hb, nofun⟩
  | joined hpc hgone =>
    rw [hpc] at hb
    exact ⟨hb, fun _ => hgone⟩
  | drained hpc | close hpc | release hpc =>
    have hm := hs.manger (by rw [hpc]; rfl)
    rw [hpc] at hb
    exact ⟨hb, fun _ => hm⟩
  | drain k q hpc => exact ⟨hb, hs.manger⟩
  | rest => exact hs

theorem Cleared.exec (hs : s.Cleared) (hl : s.InOrder l) (hx : s.exec l = .ok s') : s'.Cleared := by
  cases exec_cases hx with
  | post => exact ⟨hs.behind, hs.manger⟩
  | fini => exact ⟨fun i h0 hi => absurd hi (not_lt.mpr h0), by simp [MainPc.joined]⟩
  | main t s' h => exact hs.main_step hl h
  | manger t s' h => exact hs.manger_step hl h
  | worker j w s' hj h => exact hs.worker h
  | refuse | ignore | nobody => exact hs

theorem Cleared.quiesced (hs : s.Cleared) (hi : s.Inv) : s.Quiesced := by
  intro hm
  have hpassed : s.main.passed s.iMaxNum = s.iMaxNum := by
    rcases hm with hm | hm <;> rw [hm] <;> rfl
  refine ⟨hs.manger (by rcases hm with hm | hm <;> rw [hm] <;> rfl), fun j w hj hw => ?_⟩
  obtain ⟨h0, hmax, hid, hne⟩ := hi.staffed.sits hj hw
  exact hne (hid.symm.trans (hs.behind w.iSlot h0 (lt_of_lt_of_eq hmax hpassed.symm)))

/-- What is left after the table is freed does not touch it. -/
theorem Cleared.exec_ok (hs : s.Cleared) (hi : s.Inv) (l : Label) : ∃ s', s.exec l = .ok s' := by
  by_cases hf : s.freed = false
  · exact hi.exec_ok hf l
  · have hm : s.main = .done := hi.freed (by simpa using hf)
    obtain ⟨hgone, hdead⟩ := hs.quiesced hi (.inr hm)
    cases l with
    | inputWork k | fini => exact ⟨_, rfl⟩
    | main t =>
      rw [ThreadPool.exec, mainThread, hm]
      exact ⟨_, rfl⟩
    | manger t =>
      rw [ThreadPool.exec, mangerThread, hgone]
      exact ⟨_, rfl⟩
    | worker j =>
      rw [ThreadPool.exec]
      cases hj : s.workers[j]? with
      | none => exact ⟨_, rfl⟩
      | some w =>
        have hpc : w.pc = .gone := not_not.mp (hdead j w hj)
        simp only [workThread, hpc]
        exact ⟨_, rfl⟩

end

/-- **`Fini` quiesces the pool** in every run in order: no step faults, so that nothing touches the
table after it is freed, and nobody lives where it is. -/
theorem fini_quiesces {iInitialNum iMaxNum : ℤ} (h : 0 ≤ iInitialNum ∧ iInitialNum ≤ iMaxNum)
    {ls : List Label} (hinput : Meets exec AfterInit (start iInitialNum iMaxNum) ls)
    (horder : Meets exec InOrder (start iInitialNum iMaxNum) ls) :
    Holds exec Quiesced (start iInitialNum iMaxNum) ls := by
  have hrun : Holds exec (fun s => s.Inv ∧ s.Cleared) (start iInitialNum iMaxNum) ls := by
    refine Holds.of_meets (L := fun _ => True) ?_ ⟨start_inv h, start_cleared _ _⟩
      (fun _ _ => trivial) (hinput.and horder)
    rintro s l - ⟨hs, hc⟩ ⟨hg, ho⟩
    obtain ⟨s', hx⟩ := hc.exec_ok hs l
    exact ⟨s', hx, hs.exec hg hx, hc.exec ho hx⟩
  exact hrun.mono fun s hs => hs.2.quiesced hs.1

/-- One worker, that `Fini` finds in its loop. -/
theorem fini_quiesces_sample :
    Holds exec Quiesced (start 1 1)
      [.main 11, .main 0, .main 0, .worker 0, .fini, .main 0, .main 0, .worker 0, .worker 0, .worker 0,
        .main 0, .main 0, .main 0, .main 0, .manger 0, .main 0, .main 0, .main 0, .main 0, .worker 0] :=
  fini_quiesces (by decide) (by decide) (by decide)

/-- Worker 1 is on a job while `Fini` stops worker 0. The manager, which counts one worker and that
one busy, starts worker 2 in slot 0, and `Fini` goes on with slot 1. -/
def lateWorker : List Label :=
  [.main 11, .main 0, .main 12, .main 0, .main 0,
    .worker 0, .worker 1, .worker 1, .worker 1, .inputWork ⟨some 1, some 5⟩, .worker 1, .worker 1,
    .fini, .main 0, .main 0, .worker 0, .worker 0, .worker 0, .main 0,
    -- one pass of the manager's loop
    .manger 0, .manger 0, .manger 0, .manger 0, .manger 0, .manger 0, .manger 0, .manger 13, .manger 0,
    .main 0, .main 0, .worker 1, .worker 1, .worker 1, .worker 1, .worker 1, .worker 1, .worker 1,
    .main 0, .main 0, .main 0, .main 0, .manger 0, .main 0, .main 0, .main 0, .main 0,
    -- `Fini` has returned
    .worker 2]

/-- Worker 2 outlives `Fini`, and reads the freed table. -/
theorem fini_leaves_worker :
    Meets exec AfterInit (start 2 2) lateWorker ∧ ¬ Holds exec Quiesced (start 2 2) lateWorker :=
  ⟨by decide, Holds.not_of_error (show _ = Except.error Fault.freed from rfl)⟩

end ThreadPool

end AppUtil.Pool
