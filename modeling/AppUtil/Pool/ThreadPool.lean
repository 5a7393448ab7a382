import Mathlib.Data.Int.Notation
import Mathlib.Logic.Function.Basic
import AppUtil.Lib.Run
import AppUtil.Lib.Lifetime

/-! # `CThreadPool`: a slot table, a manager and its workers

The thread that calls `Init` and `Fini`, the manager thread and the worker threads share the slot
table and a completion port. A step of the pool is one step of one of them, with at most one access
to the table; they interleave as they like. An access outside the table, or after `Fini` has freed
it, is a fault. `_beginthreadex` succeeds, and the id of the new thread is in its slot at once. -/
namespace AppUtil.Pool
open AppUtil.Lib
set_option autoImplicit false

/-- `THREAD_INFO_S`. A handle is the number of the thread it is for. -/
structure ThreadInfo where
  hHandle : Option ℕ
  iThreadId : ℕ
  bIsBuy : Bool
  bIsExit : Bool
  deriving DecidableEq, Repr

def ThreadInfo.init : ThreadInfo := ⟨none, 0, false, false⟩

/-- `THREADPOOL_STATUS_E`. -/
inductive PoolStatus where
  | idle
  | normal
  | busy
  deriving DecidableEq, Repr

/-- A packet of the completion port: the two pointers that `InputWork` posts. -/
structure Work where
  pWork : Option ℕ
  pWorkData : Option ℕ
  deriving DecidableEq, Repr

/-- Where `WorkThread` is; `i` is `iIndex`. -/
inductive WorkPc where
  | lookup (i : ℤ)
  | loop (i : ℤ)
  | poll (i : ℤ)
  | taken (i : ℤ) (k : Work)
  | job (i : ℤ) (k : Work)
  | inJob (i : ℤ) (k : Work)
  | release (i : ℤ) (k : Work)
  | unbusy (i : ℤ)
  | closing (i : ℤ)
  | leaving (i : ℤ)
  | gone
  deriving DecidableEq, Repr

/-- A worker thread. `iSlot` is the slot whose `iThreadId` it was started with. -/
structure Worker where
  iThreadId : ℕ
  iSlot : ℤ
  pc : WorkPc
  deriving DecidableEq, Repr

/-- Where `MangerThread` is, the functions it calls included. -/
inductive MangerPc where
  | check
  | wait
  | status (i iTotalNum iBusyNum : ℤ)
  | counting (i iTotalNum iBusyNum : ℤ)
  | adding (i : ℤ)
  | storing (i : ℤ) (h : ℕ)
  | deleting (i : ℤ)
  | marking (i : ℤ)
  | gone
  deriving DecidableEq, Repr

/-- Where the thread is that calls `Init` and later `Fini`. -/
inductive MainPc where
  | starting (i : ℤ)
  | storing (i : ℤ) (h : ℕ)
  | running
  | stopping (i : ℤ)
  | marking (i : ℤ)
  | waiting (i : ℤ)
  | setExit
  | setEvent
  | join
  | drain
  | close
  | free
  | done
  deriving DecidableEq, Repr

def MainPc.inInit : MainPc → Bool
  | .starting _ | .storing _ _ => true
  | _ => false

/-- What happens to a packet. -/
inductive WorkEvent where
  | posted (k : Work)
  | processJob (k : Work)
  | returned (k : Work)
  | deleted (k : Work)
  | drained (k : Work)
  deriving DecidableEq, Repr

inductive Fault where
  | freed
  | outOfRange (i : ℤ)
  deriving DecidableEq, Repr

structure ThreadPool where
  iInitialNum : ℤ
  iMaxNum : ℤ
  pstWorkThdInfo : ℤ → ThreadInfo
  freed : Bool
  hWorkIocp : Bool
  queue : List Work
  bMangerIsExit : Bool
  hMangerExitEvent : Bool
  workers : List Worker
  manger : MangerPc
  main : MainPc
  log : List WorkEvent

inductive Label where
  | inputWork (k : Work)
  | fini
  | main (iThreadId : ℕ)
  | manger (iThreadId : ℕ)
  | worker (j : ℕ)
  deriving DecidableEq, Repr

namespace ThreadPool

/-- In `Init`, with the manager just started and before the first worker is. -/
def start (iInitialNum iMaxNum : ℤ) : ThreadPool where
  iInitialNum := iInitialNum
  iMaxNum := iMaxNum
  pstWorkThdInfo := fun _ => .init
  freed := false
  hWorkIocp := true
  queue := []
  bMangerIsExit := false
  hMangerExitEvent := false
  workers := []
  manger := .check
  main := .starting 0
  log := []

/-! ## The slot table -/

def Valid (s : ThreadPool) (i : ℤ) : Prop := s.freed = false ∧ 0 ≤ i ∧ i < s.iMaxNum

/-- `m_pstWorkThdInfo[i]`. -/
def slot (s : ThreadPool) (i : ℤ) : Except Fault ThreadInfo :=
  if s.freed then .error .freed
  else if 0 ≤ i ∧ i < s.iMaxNum then .ok (s.pstWorkThdInfo i)
  else .error (.outOfRange i)

def setSlot (s : ThreadPool) (i : ℤ) (t : ThreadInfo) : ThreadPool :=
  { s with pstWorkThdInfo := Function.update s.pstWorkThdInfo i t }

@[simp] theorem setSlot_self (s : ThreadPool) (i : ℤ) (t : ThreadInfo) :
    (s.setSlot i t).pstWorkThdInfo i = t := Function.update_self ..

theorem setSlot_of_ne (s : ThreadPool) {i k : ℤ} (h : k ≠ i) (t : ThreadInfo) :
    (s.setSlot i t).pstWorkThdInfo k = s.pstWorkThdInfo k := Function.update_of_ne h ..

theorem slot_bind {α : Type} {s : ThreadPool} {i : ℤ} {f : ThreadInfo → Except Fault α} {a : α} :
    (s.slot i >>= f) = .ok a ↔ s.Valid i ∧ f (s.pstWorkThdInfo i) = .ok a := by
  rw [bind_eq_ok, slot]
  by_cases hf : s.freed
  · simp [hf, Valid]
  · by_cases hi : 0 ≤ i ∧ i < s.iMaxNum
    · simp [hf, hi, Valid]
    · simp [hf, hi, Valid]

theorem slot_of_valid {s : ThreadPool} {i : ℤ} (h : s.Valid i) :
    s.slot i = .ok (s.pstWorkThdInfo i) := by
  rw [slot, h.1, if_neg Bool.false_ne_true, if_pos h.2]

/-! ## Threads -/

/-- The system gives a new thread an id that is not zero and that no living thread has. -/
def CanBegin (s : ThreadPool) (iThreadId : ℕ) : Prop :=
  iThreadId ≠ 0 ∧ ∀ w ∈ s.workers, w.pc ≠ .gone → w.iThreadId ≠ iThreadId

instance (s : ThreadPool) (iThreadId : ℕ) : Decidable (s.CanBegin iThreadId) :=
  inferInstanceAs (Decidable (_ ∧ _))

/-- `_beginthreadex` with the address of the slot's `iThreadId`. -/
def beginThread (s : ThreadPool) (i : ℤ) (iThreadId : ℕ) : ThreadPool :=
  { s.setSlot i { s.pstWorkThdInfo i with iThreadId := iThreadId } with
    workers := s.workers ++ [⟨iThreadId, i, .lookup 0⟩] }

def goto (s : ThreadPool) (j : ℕ) (w : Worker) (pc : WorkPc) : ThreadPool :=
  { s with workers := s.workers.set j { w with pc := pc } }

def record (s : ThreadPool) (e : WorkEvent) : ThreadPool := { s with log := e :: s.log }

/-- `delete pWorkData`, unless it is NULL. -/
def deleteData (s : ThreadPool) (k : Work) (e : WorkEvent) : ThreadPool :=
  { s with log := if k.pWorkData = none then s.log else e :: s.log }

/-! ## Steps -/

def inputWork (s : ThreadPool) (k : Work) : ThreadPool :=
  if s.hWorkIocp then { s with queue := s.queue ++ [k], log := .posted k :: s.log } else s

/-- `GetQueuedCompletionStatus` on the port of the workers. -/
def getQueued (s : ThreadPool) : Option (Work × List Work) :=
  match s.hWorkIocp, s.queue with
  | true, k :: q => some (k, q)
  | _, _ => none

/-- `WorkThread`; the lookup is the loop of `GetIndexByThreadId`. -/
def workThread (s : ThreadPool) (j : ℕ) (w : Worker) : Except Fault ThreadPool :=
  match w.pc with
  | .lookup i =>
    if i < s.iMaxNum then do
      let t ← s.slot i
      pure (s.goto j w (if t.iThreadId = w.iThreadId then .loop i else .lookup (i + 1)))
    else pure (s.goto j w .gone)
  | .loop i => do
    let t ← s.slot i
    pure (s.goto j w (if t.bIsExit then .closing i else .poll i))
  | .poll i =>
    match s.getQueued with
    | some (k, q) => pure ({ s with queue := q }.goto j w (.taken i k))
    | none => pure (s.goto j w (.loop i))
  | .taken i k => do
    let t ← s.slot i
    pure ((s.setSlot i { t with bIsBuy := true }).goto j w (.job i k))
  | .job i k =>
    match k.pWork with
    | some _ => pure ((s.record (.processJob k)).goto j w (.inJob i k))
    | none => pure (s.goto j w (.release i k))
  | .inJob i k => pure ((s.record (.returned k)).goto j w (.release i k))
  | .release i k => pure ((s.deleteData k (.deleted k)).goto j w (.unbusy i))
  | .unbusy i => do
    let t ← s.slot i
    pure ((s.setSlot i { t with bIsBuy := false }).goto j w (.loop i))
  | .closing i => do
    let t ← s.slot i
    pure ((s.setSlot i { t with hHandle := none }).goto j w (.leaving i))
  | .leaving i => do
    let t ← s.slot i
    pure ((s.setSlot i { t with iThreadId := 0 }).goto j w .gone)
  | .gone => pure s

/-- The end of `GetThreadPoolStatus`: `dRate > 0.8` and `dRate < 0.2`, both false for 0/0. -/
def getThreadPoolStatus (iTotalNum iBusyNum : ℤ) : PoolStatus :=
  if 5 * iBusyNum > 4 * iTotalNum then .busy
  else if 5 * iBusyNum < iTotalNum then .idle
  else .normal

/-- `MangerThread` with the loops of `GetThreadPoolStatus`, `AddThread` and `DeleteThread`. Nothing
is ever posted to `m_hMangerIocp`, so that the manager's call on it times out. -/
def mangerThread (s : ThreadPool) (iThreadId : ℕ) : Except Fault ThreadPool :=
  match s.manger with
  | .check => pure { s with manger := if s.bMangerIsExit then .gone else .wait }
  | .wait =>
    if s.hMangerExitEvent then pure { s with manger := .gone, hMangerExitEvent := false }
    else pure { s with manger := .status 0 0 0 }
  | .status i iTotalNum iBusyNum =>
    if i < s.iMaxNum then do
      let t ← s.slot i
      if t.iThreadId > 0 then pure { s with manger := .counting i iTotalNum iBusyNum }
      else pure { s with manger := .status (i + 1) iTotalNum iBusyNum }
    else match getThreadPoolStatus iTotalNum iBusyNum with
      | .busy => pure { s with manger := .adding 0 }
      | .idle => pure { s with manger := .deleting (s.iMaxNum - 1) }
      | .normal => pure { s with manger := .check }
  | .counting i iTotalNum iBusyNum => do
    let t ← s.slot i
    let iBusyNum := if t.bIsBuy then iBusyNum + 1 else iBusyNum
    pure { s with manger := .status (i + 1) (iTotalNum + 1) iBusyNum }
  | .adding i =>
    if i < s.iMaxNum then do
      let t ← s.slot i
      if t.iThreadId = 0 then
        if s.CanBegin iThreadId then
          pure { s.beginThread i iThreadId with manger := .storing i s.workers.length }
        else pure s
      else pure { s with manger := .adding (i + 1) }
    else pure { s with manger := .check }
  | .storing i h => do
    let t ← s.slot i
    pure { s.setSlot i { t with hHandle := some h } with manger := .check }
  | .deleting i =>
    if i ≥ s.iInitialNum then do
      let t ← s.slot i
      pure { s with manger := if t.iThreadId > 0 then .marking i else .deleting (i - 1) }
    else pure { s with manger := .check }
  | .marking i => do
    let t ← s.slot i
    pure { s.setSlot i { t with bIsExit := true } with manger := .deleting (i - 1) }
  | .gone => pure s

/-- The worker loop of `Init`, and `Fini`. -/
def mainThread (s : ThreadPool) (iThreadId : ℕ) : Except Fault ThreadPool :=
  match s.main with
  | .starting i =>
    if i < s.iInitialNum then do
      let _ ← s.slot i
      if s.CanBegin iThreadId then
        pure { s.beginThread i iThreadId with main := .storing i s.workers.length }
      else pure s
    else pure { s with main := .running }
  | .storing i h => do
    let t ← s.slot i
    pure { s.setSlot i { t with hHandle := some h } with main := .starting (i + 1) }
  | .running => pure s
  | .stopping i =>
    if i < s.iMaxNum then do
      let t ← s.slot i
      pure { s with main := if t.iThreadId > 0 then .marking i else .stopping (i + 1) }
    else pure { s with main := .setExit }
  | .marking i => do
    let t ← s.slot i
    pure { s.setSlot i { t with bIsExit := true } with main := .waiting i }
  | .waiting i => do
    let t ← s.slot i
    pure { s with main := if t.hHandle = none then .stopping (i + 1) else .waiting i }
  | .setExit => pure { s with main := .setEvent, bMangerIsExit := true }
  | .setEvent => pure { s with main := .join, hMangerExitEvent := true }
  | .join =>
    if s.manger = .gone then pure { s with main := .drain, hMangerExitEvent := false } else pure s
  | .drain =>
    match s.getQueued with
    | some (k, q) => pure ({ s with queue := q }.deleteData k (.drained k))
    | none => pure { s with main := .close }
  | .close => pure { s with main := .free, hWorkIocp := false }
  | .free => pure { s with main := .done, freed := true }
  | .done => pure s

def exec (s : ThreadPool) : Label → Except Fault ThreadPool
  | .inputWork k => pure (s.inputWork k)
  | .fini => pure (if s.main = .running then { s with main := .stopping 0 } else s)
  | .main iThreadId => s.mainThread iThreadId
  | .manger iThreadId => s.mangerThread iThreadId
  | .worker j =>
    match s.workers[j]? with
    | none => pure s
    | some w => s.workThread j w

/-- `InputWork` is called when `Init` has returned. -/
def AfterInit (s : ThreadPool) : Label → Prop
  | .inputWork _ => s.main.inInit = false
  | _ => True

instance (s : ThreadPool) : (l : Label) → Decidable (s.AfterInit l)
  | .inputWork _ => inferInstanceAs (Decidable (_ = _))
  | .fini | .main _ | .manger _ | .worker _ => isTrue trivial

end ThreadPool

end AppUtil.Pool
