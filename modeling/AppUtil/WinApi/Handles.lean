import AppUtil.WinApi.Stopping
import AppUtil.WinApi.Waiting

/-! # Which service handles are closed

Each function calls `CloseServiceHandle` for the handles that are NULL, and for no other. -/
namespace AppUtil.WinApi
open AppUtil.Lib
set_option autoImplicit false

/-- The call returned the handle. -/
def ScmCall.opens (h : ScHandle) : ScmCall → Bool
  | .openSCManager hSC => hSC = some h
  | .openService _ hSvc => hSvc = some h
  | _ => false

/-- Every handle that was opened is closed once, and NULL is not. -/
def ClosedOnce (log : List ScmCall) : Prop :=
  (∀ h, log.any (ScmCall.opens h) = true → log.count (.closeServiceHandle (some h)) = 1) ∧
    ScmCall.closeServiceHandle none ∉ log

/-- The handles have been closed when the call returns. -/
def ClosesItsHandles {α : Type} (x : Calls α) : Prop := ∀ r, x.result = .ok r → ClosedOnce x.log

/-- The call does not close a handle. -/
def ScmCall.LeavesOpen (call : ScmCall) : Prop := ∀ h, call ≠ .closeServiceHandle (some h)

section Handles
variable {scm : Scm} {n k : ℕ}

/-! ## No handle is closed -/

theorem only_openService (strSvrName : Text) :
    Logged.Only ScmCall.LeavesOpen (openService scm n strSvrName) :=
  Logged.only_step fun _ => nofun

theorem only_queryServiceStatus : Logged.Only ScmCall.LeavesOpen (queryServiceStatus scm n k) :=
  Logged.only_step fun _ => nofun

theorem only_controlService : Logged.Only ScmCall.LeavesOpen (controlService scm n) :=
  Logged.only_step fun _ => nofun

theorem only_closeIfNull (h : Option ScHandle) : Logged.Only ScmCall.LeavesOpen (closeIfNull h) := by
  cases h with
  | none => exact Logged.only_step fun _ => nofun
  | some h => exact Logged.only_pure ()

theorem only_finish {α : Type} (hSvc hSC : Option ScHandle) (iRet : α) :
    Logged.Only ScmCall.LeavesOpen (finish hSvc hSC iRet) :=
  Logged.only_bind (only_closeIfNull hSvc) fun _ => Logged.only_bind (only_closeIfNull hSC) fun _ =>
    Logged.only_pure iRet

theorem only_waitFor (awaited : ServiceState) (fuel : ℕ) :
    Logged.Only ScmCall.LeavesOpen (waitFor scm awaited fuel) := by
  refine Logged.only_loop (fun k => Logged.only_bind only_queryServiceStatus fun status => ?_) fuel 1
  cases status with
  | none => exact Logged.only_pure true
  | some status =>
    exact Logged.only_bind (Logged.only_step fun _ => nofun) fun _ => Logged.only_pure _

theorem only_changeState (fuel : ℕ) (status : SvcStatus) (bRun : Bool) :
    Logged.Only ScmCall.LeavesOpen (changeState scm fuel status bRun) := by
  by_cases h : status.dwCurrentState = opposite bRun
  · rw [changeState_opposite h]
    refine Logged.only_bind ?_ fun accepted => ?_
    · cases bRun with
      | false => exact only_controlService
      | true => exact Logged.only_step fun _ => nofun
    · cases accepted with
      | false => exact Logged.only_pure _
      | true => exact Logged.only_bind (only_waitFor _ fuel) fun _ => Logged.only_pure _
  · rw [changeState_other h]
    exact Logged.only_pure _

theorem only_stopEntry : Logged.Only ScmCall.LeavesOpen (stopEntry scm n) := by
  refine Logged.only_bind only_queryServiceStatus fun status => ?_
  cases status with
  | none => exact Logged.only_pure none
  | some status =>
    dsimp only
    split
    · exact Logged.only_bind only_controlService fun _ => Logged.only_pure _
    · exact Logged.only_pure _

theorem only_stopLoop (hSvc : Option ScHandle) (l : List SvrInfo) :
    Logged.Only ScmCall.LeavesOpen (stopLoop scm n hSvc l) := by
  induction l generalizing n hSvc with
  | nil => exact Logged.only_pure _
  | cons it rest ih =>
    unfold stopLoop
    refine Logged.only_bind (only_openService _) fun hSvc' => ?_
    split
    · exact ih hSvc'
    · refine Logged.only_bind only_stopEntry fun iState => ?_
      cases iState with
      | none => exact Logged.only_pure _
      | some iState =>
        exact Logged.only_bind (only_closeIfNull hSvc') fun _ => Logged.only_bind (ih hSvc') fun _ =>
          Logged.only_pure _

/-! ## Every handle is left open -/

/-- A program that opens the manager first, gives up where that fails and closes no handle. -/
theorem not_closedOnce {α : Type} {f : Option ScHandle → Calls α} {iRet : α}
    (hnull : f none = finish none none iRet)
    (hf : Logged.Only ScmCall.LeavesOpen (f (some .manager))) :
    ¬ ClosedOnce (openSCManager scm >>= f).log := by
  rintro ⟨hopened, hnone⟩
  unfold openSCManager at hopened hnone
  cases hm : scm.openSCManager with
  | false =>
    rw [hm, Logged.bind_log_of_ok rfl, if_neg Bool.false_ne_true, hnull, finish_eq] at hnone
    exact hnone (List.mem_append_right _ (List.mem_append_left _ (List.mem_singleton.mpr rfl)))
  | true =>
    rw [hm, Logged.bind_log_of_ok rfl, if_pos rfl] at hopened
    have honce := hopened .manager rfl
    rw [List.count_eq_zero_of_not_mem] at honce
    · cases honce
    · intro hmem
      rcases List.mem_cons.mp hmem with heq | hmem
      · cases heq
      · exact hf _ hmem .manager rfl

theorem serviceControl_leaks (fuel : ℕ) (strSvrName : Text) (bRun : Bool) :
    ¬ ClosedOnce (serviceControl scm fuel strSvrName bRun).log := by
  refine not_closedOnce rfl (Logged.only_bind (only_openService _) fun hSvc => ?_)
  split
  · exact only_finish _ _ _
  · refine Logged.only_bind only_queryServiceStatus fun status => ?_
    cases status with
    | none => exact only_finish _ _ _
    | some status =>
      exact Logged.only_bind (only_changeState fuel status bRun) fun iRet => only_finish _ _ iRet

theorem getServiceStatus_leaks (stSvrInfo : SvrInfo) :
    ¬ ClosedOnce (getServiceStatus scm stSvrInfo).log := by
  refine not_closedOnce rfl (Logged.only_bind (only_openService _) fun hSvc => ?_)
  split
  · exact only_finish _ _ _
  · refine Logged.only_bind only_queryServiceStatus fun status => ?_
    cases status with
    | none => exact only_finish _ _ _
    | some status =>
      dsimp only
      split
      · exact only_finish _ _ _
      · exact only_finish _ _ _

theorem stopService_leaks (l : List SvrInfo) : ¬ ClosedOnce (stopService scm l).log :=
  not_closedOnce rfl (Logged.only_bind (only_stopLoop none l) fun _ => only_finish _ _ _)

/-! ## The calls that return -/

theorem getServiceStatus_returns (stSvrInfo : SvrInfo) :
    ∃ r, (getServiceStatus scm stSvrInfo).result = .ok r := by
  unfold getServiceStatus openSCManager openService queryServiceStatus
  cases scm.openSCManager with
  | false => exact ⟨_, rfl⟩
  | true =>
    cases scm.openService 0 with
    | false => exact ⟨_, rfl⟩
    | true =>
      cases scm.queryServiceStatus 0 0 with
      | none => exact ⟨_, rfl⟩
      | some status =>
        by_cases h : status.dwCurrentState = .stopped
        · exact ⟨_, by simp [finish_eq, h]; rfl⟩
        · exact ⟨_, by simp [finish_eq, h]; rfl⟩

theorem stopService_returns (l : List SvrInfo) : ∃ r, (stopService scm l).result = .ok r := by
  cases h : scm.openSCManager with
  | false =>
    refine ⟨(dtkError, l), ?_⟩
    unfold stopService openSCManager
    rw [h]
    rfl
  | true =>
    obtain ⟨log, iRet, left, -, hx, -⟩ := stopService_spec h l
    exact ⟨(iRet, left), congrArg Logged.result hx⟩

end Handles

/-- **The service handles** are never closed by a call that returns, whatever the manager answers; only
`ServiceControl` can fail to return. -/
theorem serviceHandles_closed_iff (scm : Scm) :
    (∀ l, ¬ ClosesItsHandles (stopService scm l)) ∧
    (∀ stSvrInfo, ¬ ClosesItsHandles (getServiceStatus scm stSvrInfo)) ∧
    ∀ strSvrName bRun, (∀ fuel, ClosesItsHandles (serviceControl scm fuel strSvrName bRun)) ↔
      ¬ Returns scm strSvrName bRun := by
  refine ⟨fun l h => ?_, fun info h => ?_, fun name bRun => ⟨?_, ?_⟩⟩
  · obtain ⟨r, hr⟩ : ∃ r, (stopService scm l).result = .ok r := stopService_returns l
    exact stopService_leaks l (h r hr)
  · obtain ⟨r, hr⟩ : ∃ r, (getServiceStatus scm info).result = .ok r := getServiceStatus_returns info
    exact getServiceStatus_leaks info (h r hr)
  · rintro h ⟨fuel, iRet, hr⟩
    exact serviceControl_leaks fuel name bRun (h fuel iRet hr)
  · intro hnever fuel iRet hr
    exact absurd ⟨fuel, iRet, hr⟩ hnever

/-- With every call succeeding the handles of the manager and of a service that is stopped stay open, and
with a manager that cannot be opened NULL is closed. -/
theorem handles_left_open :
    ¬ ClosesItsHandles (getServiceStatus (.answering fun _ => some ⟨.stopped, 0⟩) ⟨['a'], 0⟩) ∧
    ¬ ClosesItsHandles (getServiceStatus ⟨false, fun _ => true, fun _ _ => none, fun _ => true, fun _ => true⟩
      ⟨['a'], 0⟩) := by
  constructor
  · intro h
    have honce := (h _ rfl).1 .manager rfl
    cases honce
  · intro h
    exact (h _ rfl).2 (by decide)

end AppUtil.WinApi
