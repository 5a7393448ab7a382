import AppUtil.Lib.Rounds
import AppUtil.WinApi.Services

/-! # The service control manager (`ServiceControl`, `GetServiceStatus`, `StopService`)

The functions are programs over the calls to the manager, and a log has each call with what it returned.
The bodies leave their `do .. while (0)` at the first failure. -/
namespace AppUtil.WinApi
open AppUtil.Lib
set_option autoImplicit false

/-- `dwCurrentState`. -/
inductive ServiceState where
  | stopped
  | startPending
  | stopPending
  | running
  | continuePending
  | pausePending
  | paused
  deriving DecidableEq, Repr

/-- `SERVICE_STATUS`, as far as it is read. -/
structure SvcStatus where
  dwCurrentState : ServiceState
  dwWaitHint : UInt32
  deriving DecidableEq, Repr

def svrStatusRun : ℤ := 1
def svrStatusStop : ℤ := 2

/-- `SVR_INFO_ST`. -/
structure SvrInfo where
  strSvrName : Text
  iState : ℤ
  deriving DecidableEq, Repr

/-- An `SC_HANDLE` that is not NULL; the handles of services are numbered by their `OpenService`. -/
inductive ScHandle where
  | manager
  | service (n : ℕ)
  deriving DecidableEq, Repr

/-- A call with what it returned. -/
inductive ScmCall where
  | openSCManager (hSC : Option ScHandle)
  | openService (strSvrName : Text) (hSvc : Option ScHandle)
  | queryServiceStatus (hSvc : ScHandle) (status : Option SvcStatus)
  | controlService (hSvc : ScHandle) (sent : Bool)
  | startService (hSvc : ScHandle) (started : Bool)
  | sleep (dwMilliseconds : UInt32)
  | closeServiceHandle (h : Option ScHandle)
  deriving DecidableEq, Repr

/-- What the manager answers: `openService n` to the `n`-th `OpenService`, and of the handle that it
returns, `queryServiceStatus n k` to the `k`-th query. -/
structure Scm where
  openSCManager : Bool
  openService : ℕ → Bool
  queryServiceStatus : ℕ → ℕ → Option SvcStatus
  controlService : ℕ → Bool
  startService : ℕ → Bool

/-- Why a call of the wrapper has not returned: a loop needs more rounds than it was given, or
`Sleep` was told to sleep for ever. -/
inductive Pending where
  | looping
  | asleep
  deriving DecidableEq, Repr

abbrev Calls := Logged ScmCall Pending

/-- `INFINITE`. -/
def infinite : UInt32 := 0xFFFFFFFF

section Functions
variable (scm : Scm)

def openSCManager : Calls (Option ScHandle) :=
  let hSC := if scm.openSCManager then some .manager else none
  Logged.step (.openSCManager hSC) (.ok hSC)

def openService (n : ℕ) (strSvrName : Text) : Calls (Option ScHandle) :=
  let hSvc := if scm.openService n then some (.service n) else none
  Logged.step (.openService strSvrName hSvc) (.ok hSvc)

def queryServiceStatus (n k : ℕ) : Calls (Option SvcStatus) :=
  Logged.step (.queryServiceStatus (.service n) (scm.queryServiceStatus n k))
    (.ok (scm.queryServiceStatus n k))

/-- `ControlService` with `SERVICE_CONTROL_STOP`. -/
def controlService (n : ℕ) : Calls Bool :=
  Logged.step (.controlService (.service n) (scm.controlService n)) (.ok (scm.controlService n))

def startService (n : ℕ) : Calls Bool :=
  Logged.step (.startService (.service n) (scm.startService n)) (.ok (scm.startService n))

def sleep (dwMilliseconds : UInt32) : Calls Unit :=
  Logged.step (.sleep dwMilliseconds)
    (if dwMilliseconds = infinite then .error .asleep else .ok ())

/-- The test before each `CloseServiceHandle` is the wrong way round. -/
def closeIfNull (h : Option ScHandle) : Calls Unit :=
  if h = none then Logged.step (.closeServiceHandle h) (.ok ()) else pure ()

/-- What stands behind the `do .. while (0)`. -/
def finish {α : Type} (hSvc hSC : Option ScHandle) (iRet : α) : Calls α := do
  closeIfNull hSvc
  closeIfNull hSC
  pure iRet

/-- A round of the loops of `ServiceControl`; `true` leaves the loop. -/
def waitRound (awaited : ServiceState) (k : ℕ) : Calls Bool := do
  let status ← queryServiceStatus scm 0 k
  match status with
  | none => pure true
  | some status => do
    sleep status.dwWaitHint
    pure (decide (status.dwCurrentState = awaited))

/-- The loops of `ServiceControl`. -/
def waitFor (awaited : ServiceState) (fuel : ℕ) : Calls Unit :=
  Logged.loop (waitRound scm awaited) .looping fuel 1

/-- `ServiceControl` from the first status on. -/
def changeState (fuel : ℕ) (status : SvcStatus) (bRun : Bool) : Calls ℤ :=
  if status.dwCurrentState = .running ∧ bRun = false then do
    let sent ← controlService scm 0
    if sent = false then pure dtkError
    else do
      waitFor scm .stopped fuel
      pure dtkOk
  else if status.dwCurrentState = .stopped ∧ bRun = true then do
    let started ← startService scm 0
    if started = false then pure dtkError
    else do
      waitFor scm .running fuel
      pure dtkOk
  else pure dtkOk

/-- `ServiceControl`; its loops do `fuel` rounds at most. -/
def serviceControl (fuel : ℕ) (strSvrName : Text) (bRun : Bool) : Calls ℤ := do
  let hSC ← openSCManager scm
  if hSC = none then finish none hSC dtkError
  else do
    let hSvc ← openService scm 0 strSvrName
    if hSvc = none then finish hSvc hSC dtkError
    else do
      let status ← queryServiceStatus scm 0 0
      match status with
      | none => finish hSvc hSC dtkError
      | some status => do
        let iRet ← changeState scm fuel status bRun
        finish hSvc hSC iRet

/-- `GetServiceStatus`: a service that is not stopped leaves `iState` as it was. -/
def getServiceStatus (stSvrInfo : SvrInfo) : Calls (ℤ × SvrInfo) := do
  let hSC ← openSCManager scm
  if hSC = none then finish none hSC (dtkError, stSvrInfo)
  else do
    let hSvc ← openService scm 0 stSvrInfo.strSvrName
    if hSvc = none then finish hSvc hSC (dtkError, stSvrInfo)
    else do
      let status ← queryServiceStatus scm 0 0
      match status with
      | none => finish hSvc hSC (dtkError, stSvrInfo)
      | some status =>
        if status.dwCurrentState = .stopped then
          finish hSvc hSC (dtkOk, { stSvrInfo with iState := svrStatusStop })
        else finish hSvc hSC (dtkOk, stSvrInfo)

/-- What `StopService` does with the entry of the handle `n`: its new `iState`, or `none` where the
loop is left with `DTK_ERROR`. -/
def stopEntry (n : ℕ) : Calls (Option ℤ) := do
  let status ← queryServiceStatus scm n 0
  match status with
  | none => pure none
  | some status =>
    if status.dwCurrentState = .running then do
      let sent ← controlService scm n
      pure (if sent then some svrStatusRun else none)
    else pure (some svrStatusStop)

/-- The loop of `StopService` from the entry `n` of the list on, with what becomes of the rest of the
list and of `hSvc`. An entry whose service cannot be opened is erased. -/
def stopLoop : ℕ → Option ScHandle → List SvrInfo → Calls (ℤ × Option ScHandle × List SvrInfo)
  | _, hSvc, [] => pure (dtkOk, hSvc, [])
  | n, _, it :: rest => do
    let hSvc ← openService scm n it.strSvrName
    if hSvc = none then stopLoop (n + 1) hSvc rest
    else do
      let iState ← stopEntry scm n
      match iState with
      | none => pure (dtkError, hSvc, it :: rest)
      | some iState => do
        closeIfNull hSvc
        let r ← stopLoop (n + 1) hSvc rest
        pure (r.1, r.2.1, { it with iState := iState } :: r.2.2)

/-- `StopService`, with the list it leaves. -/
def stopService (vctSvrList : List SvrInfo) : Calls (ℤ × List SvrInfo) := do
  let hSC ← openSCManager scm
  if hSC = none then finish none hSC (dtkError, vctSvrList)
  else do
    let r ← stopLoop scm 0 none vctSvrList
    finish r.2.1 hSC (r.1, r.2.2)

end Functions

/-! ## The handles behind the `do .. while (0)` -/

theorem closeIfNull_eq (h : Option ScHandle) :
    closeIfNull h = ⟨if h = none then [.closeServiceHandle none] else [], .ok ()⟩ := by
  cases h <;> rfl

theorem finish_eq {α : Type} (hSvc hSC : Option ScHandle) (iRet : α) :
    finish hSvc hSC iRet = ⟨(closeIfNull hSvc).log ++ (closeIfNull hSC).log, .ok iRet⟩ := by
  unfold finish
  rw [closeIfNull_eq, closeIfNull_eq, Logged.bind_of_ok rfl, Logged.bind_of_ok rfl]
  show (Logged.mk (_ ++ (_ ++ [])) _ : Calls α) = _
  rw [List.append_nil]
  rfl

end AppUtil.WinApi
