import AppUtil.Pool.Access
import AppUtil.Pool.Slots

/-! # The invariant of the pool

It holds from the start of the worker loop of `Init` on, through `Fini` and after it, and no access
to the table before `Fini` frees it is a fault. -/
namespace AppUtil.Pool
open AppUtil.Lib
set_option autoImplicit false

/-- Before `Init` has returned, with `k` workers started: nothing was posted, so that nobody is
busy and the manager leaves the table alone. -/
structure Fresh (s : ThreadPool) (k : ℤ) : Prop where
  young : ∀ (j : ℕ) w, s.workers[j]? = some w → w.pc.Young
  quiet : s.manger.Quiet
  flags : ∀ i, (s.pstWorkThdInfo i).bIsBuy = false ∧ (s.pstWorkThdInfo i).bIsExit = false
  free : ∀ i, k ≤ i → (s.pstWorkThdInfo i).iThreadId = 0
  filled : ∀ i, 0 ≤ i → i < k → (s.pstWorkThdInfo i).iThreadId ≠ 0
  queue : s.queue = []
  signals : s.bMangerIsExit = false ∧ s.hMangerExitEvent = false

/-- Between `Init` and `Fini`: the first slots keep their workers. -/
structure Serving (iInitialNum : ℤ) (table : ℤ → ThreadInfo) : Prop where
  unmarked : ∀ i, i < iInitialNum → (table i).bIsExit = false
  filled : ∀ i, 0 ≤ i → i < iInitialNum → (table i).iThreadId ≠ 0

theorem Serving.flags {iInitialNum : ℤ} {table : ℤ → ThreadInfo} (h : Serving iInitialNum table)
    {i : ℤ} {t : ThreadInfo} (ht : i < iInitialNum → t.bIsExit = (table i).bIsExit)
    (hid : i < iInitialNum → (table i).iThreadId ≠ 0 → t.iThreadId ≠ 0) :
    Serving iInitialNum (Function.update table i t) := by
  constructor
  · intro k hk
    by_cases hki : k = i
    · subst hki
      rw [Function.update_self, ht hk]
      exact h.unmarked k hk
    · rw [Function.update_of_ne hki]
      exact h.unmarked k hk
  · intro k h0 hk
    by_cases hki : k = i
    · subst hki
      rw [Function.update_self]
      exact hid hk (h.filled k h0 hk)
    · rw [Function.update_of_ne hki]
      exact h.filled k h0 hk

namespace ThreadPool

def Phase (s : ThreadPool) : Prop :=
  match s.main with
  | .starting k => Fresh s k
  | .storing k _ => Fresh s (k + 1)
  | .running => Serving s.iInitialNum s.pstWorkThdInfo
  | _ => True

structure Inv (s : ThreadPool) : Prop where
  dims : 0 ≤ s.iInitialNum ∧ s.iInitialNum ≤ s.iMaxNum
  staffed : Staffed s.iMaxNum s.pstWorkThdInfo s.workers
  manger : s.manger.InRange s.iInitialNum s.iMaxNum
  main : s.main.InRange s.iInitialNum s.iMaxNum
  phase : s.Phase
  freed : s.freed = true → s.main = .done

theorem start_inv {iInitialNum iMaxNum : ℤ} (h : 0 ≤ iInitialNum ∧ iInitialNum ≤ iMaxNum) :
    (start iInitialNum iMaxNum).Inv := by
  refine ⟨h, ⟨Seated.empty, fun _ _ hj => (nomatch hj), fun _ hb => (nomatch hb),
    fun _ _ hj => (nomatch hj)⟩, trivial, ⟨le_refl 0, h.1⟩, ?_, nofun⟩
  exact ⟨fun _ _ hj => (nomatch hj), trivial, fun _ => ⟨rfl, rfl⟩, fun _ _ => rfl,
    fun i h0 hi => absurd hi (by omega), rfl, rfl, rfl⟩

/-! ## Workers -/

section Workers
variable {s s' : ThreadPool} {j : ℕ} {w : Worker}

theorem live_of {pc : WorkPc} (h : w.pc = pc) (hpc : pc ≠ .gone) : w.Live := by
  rw [Worker.Live, h]
  exact hpc

theorem WorkStep.staffed (h : s.WorkStep j w s') (hs : Staffed s.iMaxNum s.pstWorkThdInfo s.workers)
    (hj : s.workers[j]? = some w) : Staffed s'.iMaxNum s'.pstWorkThdInfo s'.workers := by
  have hat := hs.place j w hj
  have hmark := hs.marked j w hj
  cases h with
  | miss i hpc hv hne =>
    have hw : w.Live := live_of hpc (by simp)
    rw [hpc] at hat
    have hi : i ≠ w.iSlot := by
      rintro rfl
      exact hne (hs.sits hj hw).2.2.1
    have hlt : i < w.iSlot := lt_of_le_of_ne hat.2 hi
    exact hs.goto hj hw nofun ⟨by have := hat.1; omega, hlt⟩ (by rw [hpc]; exact False.elim) False.elim
  | found i hpc hv heq =>
    have hw : w.Live := live_of hpc (by simp)
    exact hs.goto hj hw nofun (hs.slot_unique hj hw hv.2 heq) (by rw [hpc]; exact False.elim) False.elim
  | lost i hpc hi =>
    have hw : w.Live := live_of hpc (by simp)
    rw [hpc] at hat
    exact absurd (lt_of_le_of_lt hat.2 (hs.sits hj hw).2.1) (not_lt.mpr hi)
  | stay i hpc hv hexit =>
    rw [hpc] at hat
    exact hs.goto hj (live_of hpc (by simp)) nofun hat (by rw [hpc]; exact False.elim) False.elim
  | retire i hpc hv hexit =>
    rw [hpc] at hat
    obtain rfl : i = w.iSlot := hat
    exact hs.goto hj (live_of hpc (by simp)) nofun rfl (by rw [hpc]; exact False.elim) fun _ => hexit
  | take i k q hpc hq =>
    rw [hpc] at hat
    exact hs.goto hj (live_of hpc (by simp)) nofun hat (fun _ => .inl trivial) False.elim
  | timeout i hpc hq =>
    rw [hpc] at hat
    exact hs.goto hj (live_of hpc (by simp)) nofun hat (by rw [hpc]; exact False.elim) False.elim
  | setBusy i k hpc hv =>
    rw [hpc] at hat
    obtain rfl : i = w.iSlot := hat
    have hjob : w.pc.OnJob := by rw [hpc]; trivial
    have hflags : Staffed s.iMaxNum (s.setSlot w.iSlot
        { s.pstWorkThdInfo w.iSlot with bIsBuy := true }).pstWorkThdInfo s.workers :=
      hs.flags rfl (fun _ => .inr ⟨j, w, hj, rfl, hjob⟩) id
    exact hflags.goto hj (live_of hpc (by simp)) nofun rfl (fun _ => .inl trivial) False.elim
  | call i k hpc hk | back i k hpc | release i k hpc | skip i k hpc hk =>
    rw [hpc] at hat
    exact hs.goto hj (live_of hpc (by simp)) nofun hat (fun _ => .inl trivial) False.elim
  | clearBusy i hpc hv =>
    rw [hpc] at hat
    obtain rfl : i = w.iSlot := hat
    have hflags : Staffed s.iMaxNum (s.setSlot w.iSlot
        { s.pstWorkThdInfo w.iSlot with bIsBuy := false }).pstWorkThdInfo s.workers :=
      hs.flags rfl nofun id
    refine hflags.goto hj (live_of hpc (by simp)) nofun rfl (fun _ => .inr ?_) False.elim
    rw [setSlot_self]
  | close i hpc hv =>
    rw [hpc] at hat hmark
    obtain rfl : i = w.iSlot := hat
    have hflags : Staffed s.iMaxNum (s.setSlot w.iSlot
        { s.pstWorkThdInfo w.iSlot with hHandle := none }).pstWorkThdInfo s.workers :=
      hs.flags rfl .inl id
    refine hflags.goto hj (live_of hpc (by simp)) nofun rfl (by rw [hpc]; exact False.elim) fun _ => ?_
    rw [setSlot_self]
    exact hmark trivial
  | leave i hpc hv =>
    rw [hpc] at hat
    obtain rfl : i = w.iSlot := hat
    exact hs.leave hj (live_of hpc (by simp)) (by rw [hpc]; exact False.elim)
  | rest hpc => exact hs

theorem goto_fresh {k : ℤ} (h : Fresh s k) {pc : WorkPc} (hpc : pc.Young) : Fresh (s.goto j w pc) k :=
  ⟨forall_set (fun l v _ hl => h.young l v hl) hpc, h.quiet, h.flags, h.free, h.filled, h.queue,
    h.signals⟩

theorem WorkStep.fresh {k : ℤ} (h : s.WorkStep j w s') (hf : Fresh s k)
    (hs : Staffed s.iMaxNum s.pstWorkThdInfo s.workers) (hj : s.workers[j]? = some w) :
    Fresh s' k := by
  have hy := hf.young j w hj
  cases h with
  | miss i hpc hv hne => exact goto_fresh hf trivial
  | found i hpc hv heq => exact goto_fresh hf trivial
  | stay i hpc hv hexit => exact goto_fresh hf trivial
  | timeout i hpc hq => exact goto_fresh hf trivial
  | lost i hpc hi =>
    have hat := hs.place j w hj
    rw [hpc] at hat
    exact absurd (lt_of_le_of_lt hat.2 (hs.sits hj (live_of hpc (by simp))).2.1) (not_lt.mpr hi)
  | retire i hpc hv hexit => exact absurd ((hf.flags i).2.symm.trans hexit) nofun
  | take i k q hpc hq => exact absurd (hf.queue.symm.trans hq.2) nofun
  | rest hpc => exact hf
  | setBusy i k hpc hv | call i k hpc hk | skip i k hpc hk | back i k hpc | release i k hpc
  | clearBusy i hpc hv | close i hpc hv | leave i hpc hv =>
    rw [hpc] at hy
    exact hy.elim

theorem WorkStep.serving (h : s.WorkStep j w s')
    (hv : Serving s.iInitialNum s.pstWorkThdInfo)
    (hs : Staffed s.iMaxNum s.pstWorkThdInfo s.workers) (hj : s.workers[j]? = some w) :
    Serving s'.iInitialNum s'.pstWorkThdInfo := by
  cases h with
  | setBusy i k hpc _ => exact hv.flags (fun _ => rfl) fun _ => id
  | clearBusy i hpc _ => exact hv.flags (fun _ => rfl) fun _ => id
  | close i hpc _ => exact hv.flags (fun _ => rfl) fun _ => id
  | leave i hpc _ =>
    have hexit := hs.marked j w hj (by rw [hpc]; trivial)
    have hat := hs.place j w hj
    rw [hpc] at hat
    obtain rfl : i = w.iSlot := hat
    refine hv.flags (fun _ => rfl) fun hi => ?_
    -- only a marked worker leaves
    exact absurd ((hv.unmarked w.iSlot hi).symm.trans hexit) nofun
  | miss | found | lost | stay | retire | take | timeout | call | skip | back | release | rest =>
    exact hv

theorem Inv.worker (hs : s.Inv) (hj : s.workers[j]? = some w) (h : s.WorkStep j w s') : s'.Inv := by
  obtain ⟨h1, h2, h3, h4, h5⟩ := h.frame
  have hstaffed := h.staffed hs.staffed hj
  refine ⟨h1 ▸ h2 ▸ hs.dims, hstaffed, ?_, ?_, ?_, ?_⟩
  · rw [h1, h2, h3]
    exact hs.manger
  · rw [h1, h2, h4]
    exact hs.main
  · have hp := hs.phase
    rw [Phase] at hp ⊢
    rw [h4]
    cases hm : s.main with
    | starting k | storing k _ =>
      rw [hm] at hp
      exact h.fresh hp hs.staffed hj
    | running =>
      rw [hm] at hp
      exact h.serving hp hs.staffed hj
    | _ => trivial
  · rw [h4, h5]
    exact hs.freed

end Workers

/-! ## The manager -/

section Manger
variable {s s' : ThreadPool} {iThreadId : ℕ}

theorem beginThread_staffed (hs : Staffed s.iMaxNum s.pstWorkThdInfo s.workers) {i : ℤ}
    (hv : s.Valid i) (hfree : (s.pstWorkThdInfo i).iThreadId = 0) (hid : s.CanBegin iThreadId) :
    Staffed s.iMaxNum (s.beginThread i iThreadId).pstWorkThdInfo (s.beginThread i iThreadId).workers :=
  hs.enter hv.2 hfree hid.1 hid.2

theorem MangerStep.staffed (h : s.MangerStep iThreadId s')
    (hs : Staffed s.iMaxNum s.pstWorkThdInfo s.workers) :
    Staffed s'.iMaxNum s'.pstWorkThdInfo s'.workers := by
  cases h with
  | add i hpc hv hfree hid => exact beginThread_staffed hs hv hfree hid
  | store i h hpc hv => exact hs.flags rfl .inl id
  | setExit i hpc hv => exact hs.flags rfl .inl fun _ => rfl
  | quit | goOn | signalled | tick | taken | free | count | busy | idle | normal | next | full | mark
  | pass | marked | rest => exact hs

theorem MangerStep.inRange (h : s.MangerStep iThreadId s')
    (hm : s.manger.InRange s.iInitialNum s.iMaxNum) :
    s'.manger.InRange s'.iInitialNum s'.iMaxNum := by
  cases h with
  | quit | goOn | signalled | normal | full | store | marked => trivial
  | tick => exact ⟨le_refl 0, le_refl 0, le_refl 0⟩
  | taken i t b hpc hv _ =>
    rw [hpc] at hm
    exact ⟨hv.2.1, hv.2.2, hm.2⟩
  | free i t b hpc hv _ =>
    rw [hpc] at hm
    exact ⟨by have := hv.2.1; omega, hm.2⟩
  | count i t b b' hpc hv hb =>
    rw [hpc] at hm
    obtain ⟨hi, -, hb0, hbt⟩ := hm
    refine ⟨by omega, ?_⟩
    split at hb <;> omega
  | busy => exact le_refl (0 : ℤ)
  | idle i t b hpc hi _ => exact Int.sub_one_lt_of_le (le_refl _)
  | add i hpc hv _ _ => exact hv.2
  | next i hpc hv _ => exact Int.le_add_one hv.2.1
  | mark i hpc hi hv _ => exact ⟨hi, hv.2.2⟩
  | pass i hpc hi hv _ => exact Int.sub_one_lt_of_le (le_of_lt hv.2.2)
  | setExit i hpc hv => exact Int.sub_one_lt_of_le (le_of_lt hv.2.2)
  | rest => exact hm

/-- Before `Init` has returned the manager leaves the table alone. -/
theorem MangerStep.fresh {k : ℤ} (h : s.MangerStep iThreadId s') (hf : Fresh s k)
    (hm : s.manger.InRange s.iInitialNum s.iMaxNum) (hk : k ≤ s.iInitialNum) : Fresh s' k := by
  obtain ⟨hyoung, hquiet, hflags, hfree, hfilled, hqueue, hsig⟩ := hf
  have hother : ∀ pc : MangerPc, pc.Quiet → Fresh { s with manger := pc } k := fun pc hpc =>
    ⟨hyoung, hpc, hflags, hfree, hfilled, hqueue, hsig⟩
  cases h with
  | goOn | normal | full | marked | idle => exact hother _ trivial
  | tick => exact hother _ rfl
  | pass i hpc hi hv _ => exact hother _ trivial
  | taken i t b hpc hv _ =>
    rw [hpc] at hquiet
    exact hother _ hquiet
  | free i t b hpc hv _ =>
    rw [hpc] at hquiet
    exact hother _ hquiet
  | count i t b b' hpc hv hb =>
    rw [hpc] at hquiet
    rw [(hflags i).1, if_neg Bool.false_ne_true] at hb
    exact hother _ (hb.trans hquiet)
  | busy i t b hpc hi hstatus =>
    rw [hpc] at hquiet hm
    obtain ⟨-, -, ht⟩ := hm
    have hb : b = 0 := hquiet
    rw [getThreadPoolStatus, if_neg (by omega)] at hstatus
    split at hstatus <;> cases hstatus
  | mark i hpc hi hv hid => exact absurd (hfree i (by omega)) hid
  | quit hpc h => exact absurd (hsig.1.symm.trans h) nofun
  | signalled hpc h => exact absurd (hsig.2.symm.trans h) nofun
  | add i hpc | next i hpc | store i _ hpc | setExit i hpc =>
    rw [hpc] at hquiet
    exact hquiet.elim
  | rest => exact ⟨hyoung, hquiet, hflags, hfree, hfilled, hqueue, hsig⟩

theorem MangerStep.serving (h : s.MangerStep iThreadId s')
    (hv : Serving s.iInitialNum s.pstWorkThdInfo) (hm : s.manger.InRange s.iInitialNum s.iMaxNum) :
    Serving s'.iInitialNum s'.pstWorkThdInfo := by
  cases h with
  | add i hpc _ _ hid => exact hv.flags (fun _ => rfl) fun _ _ => hid.1
  | store i h hpc _ => exact hv.flags (fun _ => rfl) fun _ => id
  | setExit i hpc _ =>
    rw [hpc] at hm
    exact hv.flags (fun hi => absurd hi (not_lt.mpr hm.1)) fun _ => id
  | quit | goOn | signalled | tick | taken | free | count | busy | idle | normal | next | full | mark
  | pass | marked | rest => exact hv

theorem Inv.manger_step (hs : s.Inv) (h : s.MangerStep iThreadId s') : s'.Inv := by
  obtain ⟨h1, h2, h3, h4⟩ := h.frame
  refine ⟨h1 ▸ h2 ▸ hs.dims, h.staffed hs.staffed, h.inRange hs.manger, ?_, ?_, ?_⟩
  · rw [h1, h2, h3]
    exact hs.main
  · have hp := hs.phase
    have hmain := hs.main
    rw [Phase] at hp ⊢
    rw [h3]
    cases hm : s.main with
    | starting k =>
      rw [hm] at hp hmain
      exact h.fresh hp hs.manger hmain.2
    | storing k _ =>
      rw [hm] at hp hmain
      exact h.fresh hp hs.manger hmain.2
    | running =>
      rw [hm] at hp
      exact h.serving hp hs.manger
    | _ => trivial
  · rw [h3, h4]
    exact hs.freed

end Manger

/-! ## `Init` and `Fini` -/

section Main
variable {s s' : ThreadPool} {iThreadId : ℕ}

theorem MainStep.staffed (h : s.MainStep iThreadId s') (hs : s.Inv) :
    Staffed s'.iMaxNum s'.pstWorkThdInfo s'.workers := by
  cases h with
  | start i hpc hi hv hid =>
    have hp := hs.phase
    rw [Phase, hpc] at hp
    exact beginThread_staffed hs.staffed hv (hp.free i (le_refl i)) hid
  | store i h hpc hv => exact hs.staffed.flags rfl .inl id
  | mark i hpc hv => exact hs.staffed.flags rfl .inl fun _ => rfl
  | started | taken | free | stopped | waited | sleep | setExit | setEvent | joined | drain | drained
  | close | release | rest => exact hs.staffed

theorem MainStep.inRange (h : s.MainStep iThreadId s') (hs : s.Inv) :
    s'.main.InRange s'.iInitialNum s'.iMaxNum := by
  have hm := hs.main
  cases h with
  | start i hpc hi hv hid => exact ⟨hv.2.1, hi⟩
  | store i h hpc hv =>
    rw [hpc] at hm
    exact ⟨Int.le_add_one hv.2.1, hm.2⟩
  | free i hpc hv _ => exact ⟨Int.le_add_one hv.2.1, hv.2.2⟩
  | waited i hpc hv _ => exact ⟨Int.le_add_one hv.2.1, hv.2.2⟩
  | taken i hpc hv _ | mark i hpc hv | sleep i hpc hv => exact hv.2
  | started | stopped | setExit | setEvent | joined | drained | close | release => trivial
  | drain | rest => exact hm

theorem start_fresh {i : ℤ} (hf : Fresh s i) (hid : iThreadId ≠ 0) :
    Fresh { s.beginThread i iThreadId with main := .storing i s.workers.length } (i + 1) := by
  refine ⟨fun j w hj => ?_, hf.quiet, fun k => ?_, fun k hk => ?_, fun k h0 hk => ?_, hf.queue,
    hf.signals⟩
  · rcases getElem?_concat_cases hj with hj | ⟨-, rfl⟩
    · exact hf.young j w hj
    · trivial
  · obtain ⟨h1, h2⟩ := update_id_flags s.pstWorkThdInfo i iThreadId k
    exact ⟨h1.trans (hf.flags k).1, h2.trans (hf.flags k).2⟩
  · have hki : k ≠ i := by omega
    exact (congrArg _ (setSlot_of_ne s hki _)).trans (hf.free k (by omega))
  · by_cases hki : k = i
    · subst hki
      exact fun h => hid ((congrArg _ (setSlot_self s k _)).symm.trans h)
    · exact fun h => hf.filled k h0 (by omega) ((congrArg _ (setSlot_of_ne s hki _)).symm.trans h)

theorem store_fresh {i k : ℤ} {h : ℕ} (hf : Fresh s k) :
    Fresh { s.setSlot i { s.pstWorkThdInfo i with hHandle := some h } with main := .starting k } k := by
  have hsame : ∀ l, ((s.setSlot i { s.pstWorkThdInfo i with hHandle := some h }).pstWorkThdInfo l) =
      { s.pstWorkThdInfo l with hHandle := if l = i then some h else (s.pstWorkThdInfo l).hHandle } := by
    intro l
    by_cases hl : l = i
    · subst hl
      rw [setSlot_self, if_pos rfl]
    · rw [setSlot_of_ne s hl, if_neg hl]
  refine ⟨hf.young, hf.quiet, fun l => ?_, fun l hl => ?_, fun l h0 hl => ?_, hf.queue, hf.signals⟩
  · simp only [hsame]
    exact hf.flags l
  · simp only [hsame]
    exact hf.free l hl
  · simp only [hsame]
    exact hf.filled l h0 hl

theorem MainStep.phase (h : s.MainStep iThreadId s') (hs : s.Inv) : s'.Phase := by
  have hp := hs.phase
  have hmain := hs.main
  cases h with
  | start i hpc hi hv hid =>
    rw [Phase, hpc] at hp
    exact start_fresh hp hid.1
  | started i hpc hi =>
    rw [Phase, hpc] at hp
    rw [hpc] at hmain
    obtain rfl : i = s.iInitialNum := le_antisymm hmain.2 hi
    exact ⟨fun k _ => (hp.flags k).2, hp.filled⟩
  | store i h hpc hv =>
    rw [Phase, hpc] at hp
    exact store_fresh hp
  | drain k q hpc hq =>
    rw [Phase]
    simp only [deleteData, hpc]
  | taken | free | stopped | mark | waited | sleep | setExit | setEvent | joined | drained | close
  | release => trivial
  | rest => exact hp

theorem Inv.main_step (hs : s.Inv) (h : s.MainStep iThreadId s') : s'.Inv := by
  refine ⟨?_, h.staffed hs, ?_, h.inRange hs, h.phase hs, ?_⟩
  · cases h <;> exact hs.dims
  · cases h <;> exact hs.manger
  · have hf := hs.freed
    cases h with
    | start i hpc | started i hpc | store i _ hpc | taken i hpc | free i hpc | stopped i hpc
    | mark i hpc | waited i hpc | sleep i hpc | setExit hpc | setEvent hpc | joined hpc | drained hpc
    | close hpc =>
      intro hfreed
      exact absurd (hpc.symm.trans (hf hfreed)) nofun
    | release => exact fun _ => rfl
    | drain | rest => exact hf

end Main

/-! ## All steps -/

section Exec
variable {s s' : ThreadPool} {l : Label}

theorem Inv.exec (hs : s.Inv) (hl : s.AfterInit l) (hx : s.exec l = .ok s') : s'.Inv := by
  cases exec_cases hx with
  | post k hport =>
    refine ⟨hs.dims, hs.staffed, hs.manger, hs.main, ?_, hs.freed⟩
    have hp := hs.phase
    rw [Phase] at hp ⊢
    rw [AfterInit] at hl
    cases hm : s.main with
    | starting i | storing i h =>
      rw [hm] at hl
      cases hl
    | running =>
      rw [hm] at hp
      exact hp
    | _ => trivial
  | fini hm =>
    refine ⟨hs.dims, hs.staffed, hs.manger, ⟨le_refl 0, hs.dims.1.trans hs.dims.2⟩, trivial, ?_⟩
    intro hf
    have hdone := hs.freed hf
    rw [hm] at hdone
    cases hdone
  | main t s' h => exact hs.main_step h
  | manger t s' h => exact hs.manger_step h
  | worker j w s' hj h => exact hs.worker hj h
  | refuse | ignore | nobody => exact hs

theorem Inv.workers_within (hs : s.Inv) {w : Worker} (hw : w ∈ s.workers) : w.pc.Within s.iMaxNum := by
  obtain ⟨j, hj⟩ := List.mem_iff_getElem?.mp hw
  have hat := hs.staffed.place j w hj
  have hslot : w.Live → 0 ≤ w.iSlot ∧ w.iSlot < s.iMaxNum := by
    intro hlive
    obtain ⟨h0, hmax, -⟩ := hs.staffed.sits hj hlive
    exact ⟨h0, hmax⟩
  cases hpc : w.pc with
  | lookup i =>
    rw [hpc] at hat
    exact hat.1
  | loop i | poll i | taken i k | job i k | inJob i k | release i k | unbusy i | closing i | leaving i =>
    rw [hpc] at hat
    obtain rfl : i = w.iSlot := hat
    exact hslot (live_of hpc (by simp))
  | gone => trivial

theorem Inv.manger_within (hs : s.Inv) : s.manger.Within s.iInitialNum s.iMaxNum := by
  have hm := hs.manger
  cases hpc : s.manger with
  | status i t b =>
    rw [hpc] at hm
    exact hm.1
  | counting i t b =>
    rw [hpc] at hm
    exact ⟨hm.1, hm.2.1⟩
  | adding i | storing i h =>
    rw [hpc] at hm
    exact hm
  | deleting i =>
    rw [hpc] at hm
    exact ⟨hs.dims.1, hm⟩
  | marking i =>
    rw [hpc] at hm
    exact ⟨hs.dims.1.trans hm.1, hm.2⟩
  | check | wait | gone => trivial

theorem Inv.main_within (hs : s.Inv) : s.main.Within s.iMaxNum := by
  have hm := hs.main
  cases hpc : s.main with
  | starting i | stopping i =>
    rw [hpc] at hm
    exact hm.1
  | storing i h =>
    rw [hpc] at hm
    exact ⟨hm.1, lt_of_lt_of_le hm.2 hs.dims.2⟩
  | marking i | waiting i =>
    rw [hpc] at hm
    exact hm
  | running | setExit | setEvent | join | drain | close | free | done => trivial

/-- No access before the table is freed is a fault. -/
theorem Inv.exec_ok (hs : s.Inv) (hf : s.freed = false) (l : Label) : ∃ s', s.exec l = .ok s' :=
  exec_within hf hs.dims.2 (fun _ => hs.workers_within) hs.manger_within hs.main_within l

end Exec

end ThreadPool

end AppUtil.Pool
