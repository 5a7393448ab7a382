import AppUtil.Pool.Access

/-! # Where the slot table is accessed

Neither `_beginthreadex` succeeding nor its id being in the slot at once is taken for granted here: it may
fail, and the id may come at any later time. An access to the table after `Fini` has freed it is an access
like any other, so that runs go on behind it. -/
namespace AppUtil.Pool
open AppUtil.Lib
set_option autoImplicit false

/-- What the calls of `Init` before its worker loop return: whether it is not NULL. -/
structure InitCalls where
  pstWorkThdInfo : Bool
  hMangerIocp : Bool
  hWorkIocp : Bool
  hMangerExitEvent : Bool
  hMangerThd : Bool

/-- `Init` up to its worker loop, behind which it returns 0; -1 is `none`. An array cannot have a negative
number of elements. -/
def init (calls : InitCalls) (iInitialNum iMaxNum : ℤ) : Option ThreadPool :=
  if iMaxNum < 0 ∨ calls.pstWorkThdInfo = false then none
  else if calls.hMangerIocp = false then none
  else if calls.hWorkIocp = false then none
  else if calls.hMangerExitEvent = false then none
  else if calls.hMangerThd = false then none
  else some (.start iInitialNum iMaxNum)

/-- How `_beginthreadex` ends, if not as in `ThreadPool`: without a thread, or with one whose id is still
to be stored. -/
inductive Begun where
  | fails
  | late (iThreadId : ℕ)
  deriving DecidableEq, Repr

/-- The pool and the ids that are still to be stored, each with its slot. -/
structure LatePool where
  pool : ThreadPool
  stores : List (ℤ × ℕ)

inductive Act where
  | step (l : Label)
  | main (r : Begun)
  | manger (r : Begun)
  | store (n : ℕ)
  deriving DecidableEq, Repr

namespace LatePool

/-- The call in the worker loop of `Init`. -/
def mainThread (p : LatePool) (r : Begun) : Except Fault LatePool :=
  match p.pool.main with
  | .starting i =>
    if i < p.pool.iInitialNum then do
      let t ← p.pool.slot i
      match r with
      | .fails =>
        pure { p with
          pool := { p.pool.setSlot i { t with hHandle := none } with main := .starting (i + 1) } }
      | .late iThreadId =>
        pure {
          pool := { p.pool with
            workers := p.pool.workers ++ [⟨iThreadId, i, .lookup 0⟩]
            main := .storing i p.pool.workers.length }
          stores := p.stores ++ [(i, iThreadId)] }
    else pure p
  | _ => pure p

/-- The call in `AddThread`. -/
def mangerThread (p : LatePool) (r : Begun) : Except Fault LatePool :=
  match p.pool.manger with
  | .adding i =>
    if i < p.pool.iMaxNum then do
      let t ← p.pool.slot i
      if t.iThreadId = 0 then
        match r with
        | .fails =>
          pure { p with
            pool := { p.pool.setSlot i { t with hHandle := none } with manger := .check } }
        | .late iThreadId =>
          pure {
            pool := { p.pool with
              workers := p.pool.workers ++ [⟨iThreadId, i, .lookup 0⟩]
              manger := .storing i p.pool.workers.length }
            stores := p.stores ++ [(i, iThreadId)] }
      else pure p
    else pure p
  | _ => pure p

def storeId (p : LatePool) (n : ℕ) : Except Fault LatePool :=
  match p.stores[n]? with
  | none => pure p
  | some (i, iThreadId) => do
    let t ← p.pool.slot i
    pure { pool := p.pool.setSlot i { t with iThreadId := iThreadId }, stores := p.stores.eraseIdx n }

/-- Whether the table has been freed is forgotten. -/
def unfreed (p : LatePool) : LatePool := { p with pool := { p.pool with freed := false } }

def act (p : LatePool) : Act → Except Fault LatePool
  | .step l => do
    let s ← p.pool.exec l
    pure { p with pool := s }
  | .main r => p.mainThread r
  | .manger r => p.mangerThread r
  | .store n => p.storeId n

def exec (p : LatePool) (a : Act) : Except Fault LatePool := p.unfreed.act a

end LatePool

/-- In no run from the pool the table is accessed outside its bounds. -/
def ThreadPool.InBounds (s : ThreadPool) : Prop :=
  ∀ p, Reaches LatePool.exec (fun _ => True) ⟨s, []⟩ p → ∀ a i, p.exec a ≠ .error (.outOfRange i)

/-! ## One step -/

/-- Nobody has been counted. -/
def MangerPc.Idle : MangerPc → Prop
  | .check | .wait | .gone => True
  | .status _ iTotalNum iBusyNum => iTotalNum = 0 ∧ iBusyNum = 0
  | .counting _ _ _ | .adding _ | .storing _ _ | .deleting _ | .marking _ => False

namespace ThreadPool
variable {s s' : ThreadPool} {iThreadId : ℕ} {l : Label}

/-- There is no worker, and there has been none. -/
structure Unstaffed (s : ThreadPool) : Prop where
  workers : s.workers = []
  free : ∀ i, (s.pstWorkThdInfo i).iThreadId = 0
  manger : s.manger.Idle

theorem Unstaffed.of_eq (h : s.Unstaffed) (hworkers : s'.workers = s.workers)
    (hslots : s'.pstWorkThdInfo = s.pstWorkThdInfo) (hmanger : s'.manger = s.manger) : s'.Unstaffed where
  workers := hworkers.trans h.workers
  free := hslots ▸ h.free
  manger := hmanger ▸ h.manger

structure Bounded (s : ThreadPool) : Prop where
  dims : s.iInitialNum ≤ s.iMaxNum
  workers : ∀ w ∈ s.workers, w.pc.Within s.iMaxNum
  manger : s.manger.Within s.iInitialNum s.iMaxNum
  main : s.main.Within s.iMaxNum
  unstaffed : s.iInitialNum < 0 → s.Unstaffed

theorem start_bounded {iInitialNum iMaxNum : ℤ} (h : iInitialNum ≤ iMaxNum) :
    (start iInitialNum iMaxNum).Bounded :=
  ⟨h, nofun, trivial, le_refl 0, fun _ => ⟨rfl, fun _ => rfl, trivial⟩⟩

theorem WorkStep.within {j : ℕ} {w : Worker} (h : s.WorkStep j w s')
    (hall : ∀ v ∈ s.workers, v.pc.Within s.iMaxNum) (hw : w.pc.Within s.iMaxNum) :
    ∀ v ∈ s'.workers, v.pc.Within s'.iMaxNum := by
  have hgoto : ∀ pc : WorkPc, pc.Within s.iMaxNum →
      ∀ v ∈ s.workers.set j { w with pc := pc }, v.pc.Within s.iMaxNum := by
    intro pc hpc v hv
    rcases List.mem_or_eq_of_mem_set hv with hv | rfl
    · exact hall v hv
    · exact hpc
  cases h with
  | miss i hpc hv _ => exact hgoto _ (Int.le_add_one hv.2.1)
  | found i hpc hv _ | stay i hpc hv _ | retire i hpc hv _ | setBusy i k hpc hv | clearBusy i hpc hv
  | close i hpc hv => exact hgoto _ hv.2
  | take i k q hpc _ | timeout i hpc _ | call i k hpc _ | skip i k hpc _ | back i k hpc
  | release i k hpc =>
    rw [hpc] at hw
    exact hgoto _ hw
  | lost i hpc _ | leave i hpc _ => exact hgoto _ trivial
  | rest => exact hall

theorem begun_within {pc : WorkPc} (hall : ∀ v ∈ s.workers, v.pc.Within s.iMaxNum) {i : ℤ}
    (hpc : pc.Within s.iMaxNum) : ∀ v ∈ s.workers ++ [⟨iThreadId, i, pc⟩], v.pc.Within s.iMaxNum := by
  intro v hv
  rcases List.mem_append.mp hv with hv | hv
  · exact hall v hv
  · obtain rfl := List.mem_singleton.mp hv
    exact hpc

theorem MangerStep.within (h : s.MangerStep iThreadId s') (hs : s.Bounded) :
    s'.manger.Within s'.iInitialNum s'.iMaxNum := by
  have hm := hs.manger
  cases h with
  | quit | goOn | signalled | normal | full | store | marked => trivial
  | tick | busy => exact le_refl (0 : ℤ)
  | taken i t b hpc hv _ | add i hpc hv _ _ | mark i hpc _ hv _ => exact hv.2
  | free i t b hpc hv _ | count i t b b' hpc hv _ | next i hpc hv _ => exact Int.le_add_one hv.2.1
  | idle i t b hpc _ hidle =>
    refine ⟨?_, Int.sub_one_lt_of_le (le_refl _)⟩
    by_contra hneg
    have hquiet := (hs.unstaffed (not_le.mp hneg)).manger
    rw [hpc] at hquiet
    -- with nobody counted the rate is 0/0, which is not below 0.2
    obtain ⟨rfl, rfl⟩ := hquiet
    cases hidle
  | pass i hpc hi hv _ =>
    rw [hpc] at hm
    exact ⟨hm.1, Int.sub_one_lt_of_le (le_of_lt hv.2.2)⟩
  | setExit i hpc hv =>
    refine ⟨?_, Int.sub_one_lt_of_le (le_of_lt hv.2.2)⟩
    by_contra hneg
    have hquiet := (hs.unstaffed (not_le.mp hneg)).manger
    rw [hpc] at hquiet
    exact hquiet
  | rest => exact hm

theorem MangerStep.unstaffed (h : s.MangerStep iThreadId s') (hs : s.Unstaffed) : s'.Unstaffed := by
  have hm := hs.manger
  cases h with
  | quit | goOn | signalled | normal => exact ⟨hs.workers, hs.free, trivial⟩
  | tick => exact ⟨hs.workers, hs.free, rfl, rfl⟩
  | taken i t b hpc hv hne => exact absurd (hs.free i) hne
  | free i t b hpc _ _ =>
    rw [hpc] at hm
    exact ⟨hs.workers, hs.free, hm⟩
  | busy i t b hpc _ hbusy =>
    rw [hpc] at hm
    obtain ⟨rfl, rfl⟩ := hm
    cases hbusy
  | idle i t b hpc _ hidle =>
    rw [hpc] at hm
    obtain ⟨rfl, rfl⟩ := hm
    cases hidle
  | count _ _ _ _ hpc _ _ | add _ hpc _ _ _ | next _ hpc _ _ | full _ hpc _ | store _ _ hpc _
  | mark _ hpc _ _ _ | pass _ hpc _ _ _ | marked _ hpc _ | setExit _ hpc _ =>
    rw [hpc] at hm
    cases hm
  | rest => exact hs

theorem MainStep.within (h : s.MainStep iThreadId s') (hs : s.Bounded) : s'.main.Within s'.iMaxNum := by
  have hm := hs.main
  cases h with
  | start i hpc hi hv _ | taken i hpc hv _ | mark i hpc hv | sleep i hpc hv => exact hv.2
  | store i h hpc hv | free i hpc hv _ | waited i hpc hv _ => exact Int.le_add_one hv.2.1
  | drain k q hpc _ =>
    show s.main.Within s.iMaxNum
    exact hm
  | started | stopped | setExit | setEvent | joined | drained | close | release => trivial
  | rest => exact hm

theorem MainStep.workers_within (h : s.MainStep iThreadId s') (hs : s.Bounded) :
    ∀ v ∈ s'.workers, v.pc.Within s'.iMaxNum := by
  cases h with
  | start i hpc hi hv _ => exact begun_within hs.workers (le_refl (0 : ℤ))
  | started | store | taken | free | stopped | mark | waited | sleep | setExit | setEvent | joined
  | drain | drained | close | release | rest => exact hs.workers

theorem MangerStep.workers_within (h : s.MangerStep iThreadId s') (hs : s.Bounded) :
    ∀ v ∈ s'.workers, v.pc.Within s'.iMaxNum := by
  cases h with
  | add i hpc hv _ _ => exact begun_within hs.workers (le_refl (0 : ℤ))
  | quit | goOn | signalled | tick | taken | free | count | busy | idle | normal | next | full | store
  | mark | pass | marked | setExit | rest => exact hs.workers

theorem free_setSlot {i : ℤ} {t : ThreadInfo} (hfree : ∀ k, (s.pstWorkThdInfo k).iThreadId = 0)
    (ht : t.iThreadId = 0) (k : ℤ) : ((s.setSlot i t).pstWorkThdInfo k).iThreadId = 0 := by
  by_cases hk : k = i
  · rw [hk, setSlot_self, ht]
  · rw [setSlot_of_ne s hk, hfree]

theorem MainStep.unstaffed (h : s.MainStep iThreadId s') (hs : s.Unstaffed) (hneg : s.iInitialNum < 0) :
    s'.Unstaffed := by
  have hset : ∀ (i : ℤ) (t : ThreadInfo), t.iThreadId = (s.pstWorkThdInfo i).iThreadId →
      (s.setSlot i t).Unstaffed := fun i t ht =>
    ⟨hs.workers, free_setSlot hs.free (ht.trans (hs.free i)), hs.manger⟩
  cases h with
  | start i hpc hi hv _ =>
    have := hv.2.1
    omega
  | store i h hpc hv =>
    have hi := hset i { s.pstWorkThdInfo i with hHandle := some h } rfl
    exact ⟨hi.workers, hi.free, hi.manger⟩
  | mark i hpc hv =>
    have hi := hset i { s.pstWorkThdInfo i with bIsExit := true } rfl
    exact ⟨hi.workers, hi.free, hi.manger⟩
  | started | taken | free | stopped | waited | sleep | setExit | setEvent | joined | drain | drained
  | close | release | rest => exact ⟨hs.workers, hs.free, hs.manger⟩

theorem Bounded.exec (hs : s.Bounded) (hx : s.exec l = .ok s') : s'.Bounded := by
  cases exec_cases hx with
  | post k _ =>
    exact ⟨hs.dims, hs.workers, hs.manger, hs.main, fun hneg => (hs.unstaffed hneg).of_eq rfl rfl rfl⟩
  | fini _ =>
    exact ⟨hs.dims, hs.workers, hs.manger, le_refl (0 : ℤ), fun hneg =>
      (hs.unstaffed hneg).of_eq rfl rfl rfl⟩
  | main t s' h =>
    obtain ⟨h1, h2, h3⟩ := h.frame
    refine ⟨by rw [h1, h2]; exact hs.dims, h.workers_within hs, by rw [h1, h2, h3]; exact hs.manger,
      h.within hs, fun hneg => ?_⟩
    rw [h1] at hneg
    exact h.unstaffed (hs.unstaffed hneg) hneg
  | manger t s' h =>
    obtain ⟨h1, h2, h3, -⟩ := h.frame
    refine ⟨by rw [h1, h2]; exact hs.dims, h.workers_within hs, h.within hs, by rw [h2, h3]; exact hs.main,
      fun hneg => ?_⟩
    rw [h1] at hneg
    exact h.unstaffed (hs.unstaffed hneg)
  | worker j w s' hj h =>
    obtain ⟨h1, h2, h3, h4, -⟩ := h.frame
    have hmem := List.mem_of_getElem? hj
    refine ⟨by rw [h1, h2]; exact hs.dims, h.within hs.workers (hs.workers w hmem),
      by rw [h1, h2, h3]; exact hs.manger, by rw [h2, h4]; exact hs.main, fun hneg => ?_⟩
    rw [h1] at hneg
    rw [(hs.unstaffed hneg).workers] at hmem
    cases hmem
  | refuse | ignore | nobody => exact hs

end ThreadPool

/-! ## Threads that come late -/

namespace LatePool
variable {p p' : LatePool}

structure Bounded (p : LatePool) : Prop where
  pool : p.pool.Bounded
  stores : ∀ e ∈ p.stores, 0 ≤ e.1 ∧ e.1 < p.pool.iMaxNum
  unstaffed : p.pool.iInitialNum < 0 → p.stores = []

theorem Bounded.unfreed (hp : p.Bounded) : p.unfreed.Bounded :=
  ⟨⟨hp.pool.dims, hp.pool.workers, hp.pool.manger, hp.pool.main, fun hneg =>
    (hp.pool.unstaffed hneg).of_eq rfl rfl rfl⟩, hp.stores, hp.unstaffed⟩

theorem stores_within {i iMaxNum : ℤ} {stores : List (ℤ × ℕ)} {iThreadId : ℕ}
    (hall : ∀ e ∈ stores, 0 ≤ e.1 ∧ e.1 < iMaxNum) (hi : 0 ≤ i ∧ i < iMaxNum) :
    ∀ e ∈ stores ++ [(i, iThreadId)], 0 ≤ e.1 ∧ e.1 < iMaxNum := by
  intro e he
  rcases List.mem_append.mp he with he | he
  · exact hall e he
  · obtain rfl := List.mem_singleton.mp he
    exact hi

/-- Whatever `_beginthreadex` does in the worker loop of `Init`. -/
theorem Bounded.mainThread (hp : p.Bounded) (hf : p.pool.freed = false) (r : Begun) :
    ∃ p', p.mainThread r = .ok p' ∧ p'.Bounded := by
  unfold LatePool.mainThread
  cases hpc : p.pool.main with
  | starting i =>
    have hm := hp.pool.main
    rw [hpc] at hm
    by_cases hi : i < p.pool.iInitialNum
    · have hin : 0 ≤ i ∧ i < p.pool.iMaxNum := ⟨hm, lt_of_lt_of_le hi hp.pool.dims⟩
      have hstaffed : ¬ p.pool.iInitialNum < 0 := by omega
      simp only [if_pos hi, ThreadPool.slot_of_valid ⟨hf, hin⟩]
      cases r with
      | fails =>
        exact ⟨_, rfl, ⟨hp.pool.dims, hp.pool.workers, hp.pool.manger, Int.le_add_one hm,
          fun hneg => absurd hneg hstaffed⟩, hp.stores, hp.unstaffed⟩
      | late t =>
        exact ⟨_, rfl, ⟨hp.pool.dims, ThreadPool.begun_within hp.pool.workers (le_refl (0 : ℤ)),
          hp.pool.manger, hin, fun hneg => absurd hneg hstaffed⟩, stores_within hp.stores hin,
          fun hneg => absurd hneg hstaffed⟩
    · exact ⟨p, if_neg hi, hp⟩
  | _ => exact ⟨p, rfl, hp⟩

/-- Whatever it does in `AddThread`. -/
theorem Bounded.mangerThread (hp : p.Bounded) (hf : p.pool.freed = false) (r : Begun) :
    ∃ p', p.mangerThread r = .ok p' ∧ p'.Bounded := by
  unfold LatePool.mangerThread
  cases hpc : p.pool.manger with
  | adding i =>
    have hm := hp.pool.manger
    rw [hpc] at hm
    have hstaffed : ¬ p.pool.iInitialNum < 0 := by
      intro hneg
      have hidle := (hp.pool.unstaffed hneg).manger
      rw [hpc] at hidle
      exact hidle
    by_cases hi : i < p.pool.iMaxNum
    · have hin : 0 ≤ i ∧ i < p.pool.iMaxNum := ⟨hm, hi⟩
      simp only [if_pos hi, ThreadPool.slot_of_valid ⟨hf, hin⟩]
      by_cases hfree : (p.pool.pstWorkThdInfo i).iThreadId = 0
      · cases r with
        | fails =>
          exact ⟨_, if_pos hfree, ⟨hp.pool.dims, hp.pool.workers, trivial, hp.pool.main,
            fun hneg => absurd hneg hstaffed⟩, hp.stores, hp.unstaffed⟩
        | late t =>
          exact ⟨_, if_pos hfree, ⟨hp.pool.dims, ThreadPool.begun_within hp.pool.workers (le_refl (0 : ℤ)),
            hin, hp.pool.main, fun hneg => absurd hneg hstaffed⟩, stores_within hp.stores hin,
            fun hneg => absurd hneg hstaffed⟩
      · exact ⟨p, if_neg hfree, hp⟩
    · exact ⟨p, if_neg hi, hp⟩
  | _ => exact ⟨p, rfl, hp⟩

theorem Bounded.storeId (hp : p.Bounded) (hf : p.pool.freed = false) (n : ℕ) :
    ∃ p', p.storeId n = .ok p' ∧ p'.Bounded := by
  unfold LatePool.storeId
  cases hn : p.stores[n]? with
  | none => exact ⟨p, rfl, hp⟩
  | some e =>
    obtain ⟨i, t⟩ := e
    have hmem := List.mem_of_getElem? hn
    have hin := hp.stores _ hmem
    have hstaffed : ¬ p.pool.iInitialNum < 0 := by
      intro hneg
      rw [hp.unstaffed hneg] at hmem
      cases hmem
    simp only [ThreadPool.slot_of_valid ⟨hf, hin⟩]
    exact ⟨_, rfl, ⟨hp.pool.dims, hp.pool.workers, hp.pool.manger, hp.pool.main,
      fun hneg => absurd hneg hstaffed⟩, fun e he => hp.stores e (List.mem_of_mem_eraseIdx he),
      fun hneg => absurd hneg hstaffed⟩

/-- No step of a bounded pool goes outside the table. -/
theorem Bounded.exec_ok (hp : p.Bounded) (a : Act) : ∃ p', p.exec a = .ok p' ∧ p'.Bounded := by
  have hu := hp.unfreed
  cases a with
  | step l =>
    obtain ⟨s, hs⟩ := ThreadPool.exec_within (s := p.unfreed.pool) rfl hu.pool.dims hu.pool.workers
      hu.pool.manger hu.pool.main l
    obtain ⟨hinitial, hmax⟩ := ThreadPool.exec_dims hs
    refine ⟨⟨s, p.stores⟩, ?_, hu.pool.exec hs, ?_, fun hneg => hu.unstaffed (hinitial ▸ hneg)⟩
    · show (p.unfreed.pool.exec l >>= _) = _
      rw [hs]
      rfl
    · rw [hmax]
      exact hu.stores
  | main r => exact hu.mainThread rfl r
  | manger r => exact hu.mangerThread rfl r
  | store n => exact hu.storeId rfl n

theorem Bounded.reaches (hp : p.Bounded) (h : Reaches exec (fun _ => True) p p') : p'.Bounded := by
  refine h.inv (P := Bounded) (fun q a q' _ hq hx => ?_) hp
  obtain ⟨q'', hx', hq''⟩ := hq.exec_ok a
  obtain rfl := Except.ok.inj (hx.symm.trans hx')
  exact hq''

end LatePool

namespace ThreadPool
variable {s : ThreadPool} {iInitialNum iMaxNum : ℤ}

theorem inBounds_of_le (h : iInitialNum ≤ iMaxNum) : (start iInitialNum iMaxNum).InBounds := by
  intro p hreach a i hx
  have hstart : LatePool.Bounded ⟨start iInitialNum iMaxNum, []⟩ := ⟨start_bounded h, nofun, fun _ => rfl⟩
  obtain ⟨p', hok, -⟩ := (hstart.reaches hreach).exec_ok a
  rw [hx] at hok
  cases hok

/-! ## The worker loop of `Init` -/

/-- Where the loop has come to after `n` rounds. -/
structure Started (iInitialNum iMaxNum : ℤ) (n : ℕ) (p : LatePool) : Prop where
  reached : Reaches LatePool.exec (fun _ => True) ⟨start iInitialNum iMaxNum, []⟩ p
  initial : p.pool.iInitialNum = iInitialNum
  max : p.pool.iMaxNum = iMaxNum
  main : p.pool.main = .starting n

/-- One round: the thread is started, and its handle stored. -/
theorem Started.next {n : ℕ} {p : LatePool} (h : Started iInitialNum iMaxNum n p)
    (hi : (n : ℤ) < iInitialNum) (hmax : (n : ℤ) < iMaxNum) :
    ∃ p', Started iInitialNum iMaxNum (n + 1) p' := by
  obtain ⟨t, ht⟩ := exists_canBegin p.unfreed.pool
  have hpc : p.unfreed.pool.main = .starting n := h.main
  have hv : p.unfreed.pool.Valid n := ⟨rfl, Int.natCast_nonneg n, h.max ▸ hmax⟩
  let s₁ : ThreadPool :=
    { p.unfreed.pool.beginThread n t with main := .storing n p.unfreed.pool.workers.length }
  have hx₁ : p.exec (.step (.main t)) = .ok ⟨s₁, p.stores⟩ := by
    have hmain : p.unfreed.pool.exec (.main t) = .ok s₁ := by
      show p.unfreed.pool.mainThread t = _
      simp only [mainThread, hpc, slot_of_valid hv]
      exact (if_pos (h.initial ▸ hi)).trans (if_pos ht)
    show (p.unfreed.pool.exec (.main t) >>= _) = _
    rw [hmain]
    rfl
  have hv₁ : s₁.Valid n := ⟨rfl, Int.natCast_nonneg n, h.max ▸ hmax⟩
  let s₂ : ThreadPool :=
    { s₁.setSlot n { s₁.pstWorkThdInfo n with hHandle := some p.unfreed.pool.workers.length } with
      main := .starting (n + 1) }
  have hx₂ : LatePool.exec ⟨s₁, p.stores⟩ (.step (.main t)) = .ok ⟨s₂, p.stores⟩ := by
    have hmain : s₁.exec (.main t) = .ok s₂ := by
      show s₁.mainThread t = _
      simp only [mainThread, s₁, slot_of_valid hv₁]
      rfl
    show (s₁.exec (.main t) >>= _) = _
    rw [hmain]
    rfl
  exact ⟨⟨s₂, p.stores⟩, .next _ (.next _ h.reached trivial hx₁) trivial hx₂, h.initial, h.max, rfl⟩

theorem exists_started (h : iMaxNum < iInitialNum) (n : ℕ) (hn : (n : ℤ) ≤ iMaxNum) :
    ∃ p, Started iInitialNum iMaxNum n p := by
  induction n with
  | zero => exact ⟨_, .start, rfl, rfl, rfl⟩
  | succ n ih =>
    obtain ⟨p, hp⟩ := ih (by omega)
    exact hp.next (by omega) (by omega)

/-- The round behind the last slot. -/
theorem Started.leaves {n : ℕ} {p : LatePool} (h : Started iInitialNum n n p) (hi : (n : ℤ) < iInitialNum) :
    p.exec (.step (.main 0)) = .error (.outOfRange n) := by
  have hpc : p.unfreed.pool.main = .starting n := h.main
  have hinitial : (n : ℤ) < p.unfreed.pool.iInitialNum := h.initial ▸ hi
  have hslot : p.unfreed.pool.slot n = .error (.outOfRange n) := by
    have hout : ¬ (0 ≤ (n : ℤ) ∧ (n : ℤ) < p.unfreed.pool.iMaxNum) := by
      rw [show p.unfreed.pool.iMaxNum = n from h.max]
      omega
    exact (if_neg Bool.false_ne_true).trans (if_neg hout)
  have hmain : p.unfreed.pool.exec (.main 0) = .error (.outOfRange n) := by
    show p.unfreed.pool.mainThread 0 = _
    simp only [mainThread, hpc, if_pos hinitial, hslot]
    rfl
  show (p.unfreed.pool.exec (.main 0) >>= _) = _
  rw [hmain]
  rfl

end ThreadPool

theorem init_eq_some {calls : InitCalls} {iInitialNum iMaxNum : ℤ} {s : ThreadPool}
    (h : init calls iInitialNum iMaxNum = some s) : 0 ≤ iMaxNum ∧ s = .start iInitialNum iMaxNum := by
  unfold init at h
  repeat
    split at h
    · cases h
  next hmax _ _ _ _ => exact ⟨by omega, (Option.some.inj h).symm⟩

/-- **Every access to the slot table is in range**, in all runs behind an `Init` that returns 0, exactly
when the initial number of threads is not more than the maximal one. -/
theorem inBounds_iff (calls : InitCalls) (iInitialNum iMaxNum : ℤ) (s : ThreadPool)
    (h : init calls iInitialNum iMaxNum = some s) : s.InBounds ↔ iInitialNum ≤ iMaxNum := by
  obtain ⟨hmax, rfl⟩ := init_eq_some h
  constructor
  · intro hin
    by_contra hlt
    obtain ⟨n, rfl⟩ := Int.eq_ofNat_of_zero_le hmax
    obtain ⟨p, hp⟩ := ThreadPool.exists_started (not_le.mp hlt) n (le_refl _)
    exact hin p hp.reached (.step (.main 0)) n (hp.leaves (not_le.mp hlt))
  · exact ThreadPool.inBounds_of_le

/-- Every call of `Init` succeeds. -/
def InitCalls.ok : InitCalls := ⟨true, true, true, true, true⟩

theorem inBounds_sample : (ThreadPool.start 1 4).InBounds :=
  (inBounds_iff .ok 1 4 (.start 1 4) rfl).mpr (by decide)

/-- `Init` accepts one worker for a table without slots. -/
theorem init_out_of_bounds : init .ok 1 0 = some (.start 1 0) ∧ ¬ (ThreadPool.start 1 0).InBounds := by
  refine ⟨rfl, fun h => ?_⟩
  exact h ⟨.start 1 0, []⟩ .start (.step (.main 1)) 0 rfl

end AppUtil.Pool
