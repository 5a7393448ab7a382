import AppUtil.Lib.Run
import Mathlib.Data.Nat.Find
import AppUtil.WinApi.Scm

/-! # What `ServiceControl` waits for

A call that finds the service in the other of the two settled states asks for the change and waits in a
loop for one state, or for a failing query. In every other state it does nothing. -/
namespace AppUtil.WinApi
open AppUtil.Lib
set_option autoImplicit false

/-- The state that is asked for. -/
def requested (bRun : Bool) : ServiceState := if bRun then .running else .stopped

/-- The state in which something has to be done. -/
def opposite (bRun : Bool) : ServiceState := if bRun then .stopped else .running

theorem opposite_ne_requested (bRun : Bool) : opposite bRun ≠ requested bRun := by
  cases bRun <;> decide

/-- Whether the request is accepted. -/
def Scm.accepts (scm : Scm) (bRun : Bool) : Bool :=
  if bRun then scm.startService 0 else scm.controlService 0

/-- `StartService`, or `ControlService` with its stop control. -/
def request (scm : Scm) (bRun : Bool) : Calls Bool :=
  if bRun then startService scm 0 else controlService scm 0

section Waiting
variable {scm : Scm} {awaited : ServiceState} {fuel k n : ℕ} {status : SvcStatus} {bRun : Bool}
  {strSvrName : Text}

/-! ## A round of the loop -/

/-- The `k`-th query ends the loop: it fails, or it shows the state that is waited for, and `Sleep`
returns. -/
def Scm.Ends (scm : Scm) (awaited : ServiceState) (k : ℕ) : Prop :=
  ∀ status, scm.queryServiceStatus 0 k = some status →
    status.dwWaitHint ≠ infinite ∧ status.dwCurrentState = awaited

/-- The `k`-th query lets the loop go on. -/
def Scm.GoesOn (scm : Scm) (awaited : ServiceState) (k : ℕ) : Prop :=
  ∃ status, scm.queryServiceStatus 0 k = some status ∧
    status.dwWaitHint ≠ infinite ∧ status.dwCurrentState ≠ awaited

theorem waitRound_none (h : scm.queryServiceStatus 0 k = none) :
    waitRound scm awaited k = ⟨[.queryServiceStatus (.service 0) none], .ok true⟩ := by
  unfold waitRound queryServiceStatus
  rw [h]
  rfl

theorem waitRound_some (h : scm.queryServiceStatus 0 k = some status) :
    waitRound scm awaited k =
      ⟨[.queryServiceStatus (.service 0) (some status), .sleep status.dwWaitHint],
        if status.dwWaitHint = infinite then .error .asleep
        else .ok (decide (status.dwCurrentState = awaited))⟩ := by
  unfold waitRound queryServiceStatus
  rw [h]
  show (Logged.mk _ _ : Calls Bool) = _
  by_cases hinf : status.dwWaitHint = infinite
  · rw [if_pos hinf]
    simp only [sleep, hinf, if_true]
    rfl
  · rw [if_neg hinf]
    simp only [sleep, hinf, if_false]
    rfl

theorem waitRound_true : (waitRound scm awaited k).result = .ok true ↔ scm.Ends awaited k := by
  unfold Scm.Ends
  cases h : scm.queryServiceStatus 0 k with
  | none =>
    rw [waitRound_none h]
    exact iff_of_true rfl fun _ hn => nomatch hn
  | some status =>
    rw [waitRound_some h]
    by_cases hinf : status.dwWaitHint = infinite
    · simp [hinf]
    · simp [hinf]

theorem waitRound_false : (waitRound scm awaited k).result = .ok false ↔ scm.GoesOn awaited k := by
  unfold Scm.GoesOn
  cases h : scm.queryServiceStatus 0 k with
  | none =>
    rw [waitRound_none h]
    simp
  | some status =>
    rw [waitRound_some h]
    by_cases hinf : status.dwWaitHint = infinite
    · simp [hinf]
    · simp [hinf]

theorem endsAt_iff : Logged.EndsAt (waitRound scm awaited) 1 n ↔
    1 ≤ n ∧ scm.Ends awaited n ∧ ∀ i, 1 ≤ i → i < n → scm.GoesOn awaited i := by
  simp only [Logged.EndsAt, waitRound_true, waitRound_false]

/-! ## The call -/

theorem changeState_opposite (h : status.dwCurrentState = opposite bRun) :
    changeState scm fuel status bRun = (do
      let accepted ← request scm bRun
      if accepted = false then pure dtkError
      else do
        waitFor scm (requested bRun) fuel
        pure dtkOk) := by
  cases bRun with
  | false => exact if_pos ⟨h, rfl⟩
  | true =>
    unfold changeState
    rw [if_neg fun hn => Bool.noConfusion hn.2, if_pos ⟨h, rfl⟩]
    rfl

theorem changeState_other (h : status.dwCurrentState ≠ opposite bRun) :
    changeState scm fuel status bRun = pure dtkOk := by
  unfold changeState
  cases bRun with
  | false => rw [if_neg fun hn => h hn.1, if_neg fun hn => Bool.noConfusion hn.2]
  | true => rw [if_neg fun hn => Bool.noConfusion hn.2, if_neg fun hn => h hn.1]

theorem request_result : (request scm bRun).result = .ok (scm.accepts bRun) := by
  cases bRun <;> rfl

/-- With the request accepted the call returns when the loop does. -/
theorem changeState_ok (h : status.dwCurrentState = opposite bRun) (ha : scm.accepts bRun = true) :
    (changeState scm fuel status bRun).result = .ok dtkOk ↔
      (waitFor scm (requested bRun) fuel).result = .ok () := by
  rw [changeState_opposite h, Logged.bind_result, request_result, ok_bind, ha,
    if_neg (by decide : ¬ true = false), Logged.bind_result]
  cases (waitFor scm (requested bRun) fuel).result with
  | error e => exact iff_of_false nofun nofun
  | ok u => exact iff_of_true rfl rfl

theorem changeState_refused (h : status.dwCurrentState = opposite bRun) (ha : scm.accepts bRun = false) :
    (changeState scm fuel status bRun).result = .ok dtkError := by
  rw [changeState_opposite h, Logged.bind_result, request_result, ok_bind, ha, if_pos rfl]
  rfl

theorem serviceControl_open (hm : scm.openSCManager = true) (ho : scm.openService 0 = true)
    (hq : scm.queryServiceStatus 0 0 = some status) :
    serviceControl scm fuel strSvrName bRun =
      ⟨[.openSCManager (some .manager), .openService strSvrName (some (.service 0)),
          .queryServiceStatus (.service 0) (some status)] ++ (changeState scm fuel status bRun).log,
        (changeState scm fuel status bRun).result⟩ := by
  unfold serviceControl openSCManager openService queryServiceStatus
  rw [hm, ho, hq]
  show (Logged.mk ([.openSCManager _, .openService _ _, .queryServiceStatus _ _] ++
    (changeState scm fuel status bRun >>= fun iRet => finish _ _ iRet : Calls ℤ).log)
    (changeState scm fuel status bRun >>= fun iRet => finish _ _ iRet : Calls ℤ).result : Calls ℤ) = _
  obtain ⟨log, e | r⟩ := changeState scm fuel status bRun
  · rfl
  · show (Logged.mk (_ ++ (log ++ [])) _ : Calls ℤ) = _
    rw [List.append_nil]
    rfl

/-- Where the service cannot be reached the call ends with `DTK_ERROR`. -/
theorem serviceControl_unreached
    (h : scm.openSCManager = true → scm.openService 0 = true → scm.queryServiceStatus 0 0 = none) :
    (serviceControl scm fuel strSvrName bRun).result = .ok dtkError := by
  unfold serviceControl openSCManager openService queryServiceStatus
  cases hm : scm.openSCManager with
  | false => rfl
  | true =>
    cases ho : scm.openService 0 with
    | false => rfl
    | true =>
      rw [h hm ho]
      rfl

theorem changeState_log (h : status.dwCurrentState = opposite bRun) (ha : scm.accepts bRun = true) :
    (changeState scm fuel status bRun).log =
      (request scm bRun).log ++ (waitFor scm (requested bRun) fuel).log := by
  rw [changeState_opposite h, Logged.bind_log_of_ok request_result, ha,
    if_neg (by decide : ¬ true = false)]
  obtain ⟨log, e | u⟩ := waitFor scm (requested bRun) fuel
  · rfl
  · show _ ++ (log ++ []) = _
    rw [List.append_nil]

/-! ## The last status -/

def ScmCall.observed : ScmCall → Option SvcStatus
  | .queryServiceStatus _ status => status
  | _ => none

/-- The last status that a `QueryServiceStatus` has shown. -/
def lastObserved (log : List ScmCall) : Option SvcStatus := (log.filterMap ScmCall.observed).getLast?

theorem lastObserved_append (pre log : List ScmCall) :
    lastObserved (pre ++ log) = (lastObserved log).or (lastObserved pre) := by
  unfold lastObserved
  rw [List.filterMap_append, List.getLast?_append]

theorem exists_of_lastObserved {log : List ScmCall} (h : lastObserved log = some status) :
    ∃ call ∈ log, call.observed = some status :=
  List.mem_filterMap.mp (List.mem_of_getLast? h)

theorem not_observed_request {call : ScmCall} (h : call ∈ (request scm bRun).log) :
    call.observed = none := by
  cases bRun <;> cases List.mem_singleton.mp h <;> rfl

theorem observed_waitRound {call : ScmCall} (h : call ∈ (waitRound scm awaited k).log)
    (hc : call.observed = some status) : scm.queryServiceStatus 0 k = some status := by
  cases hq : scm.queryServiceStatus 0 k with
  | none =>
    rw [waitRound_none hq] at h
    cases List.mem_singleton.mp h
    cases hc
  | some st =>
    rw [waitRound_some hq] at h
    rcases List.mem_cons.mp h with rfl | h
    · exact hc
    · cases List.mem_singleton.mp h
      cases hc

/-- What a loop that gets through has seen last, where its last query did not fail. -/
theorem lastObserved_waitFor (hn : Logged.EndsAt (waitRound scm awaited) 1 n) (hfuel : n < 1 + fuel)
    (hq : scm.queryServiceStatus 0 n = some status) :
    lastObserved (waitFor scm awaited fuel).log = some status := by
  obtain ⟨m, rfl⟩ : ∃ m, n = m + 1 := ⟨n - 1, by have := hn.1; omega⟩
  unfold waitFor
  rw [Logged.loop_log hn hfuel, Nat.add_sub_cancel, List.range'_1_concat, List.flatMap_append,
    lastObserved_append, List.flatMap_singleton, Nat.add_comm 1 m, waitRound_some hq]
  rfl

end Waiting

/-! ## What `DTK_OK` says of the state -/

/-- Whenever the call returns `DTK_OK` the last status it has seen is the requested one. -/
def ReportsState (scm : Scm) (strSvrName : Text) (bRun : Bool) : Prop :=
  ∀ fuel, (serviceControl scm fuel strSvrName bRun).result = .ok dtkOk →
    ∃ status, lastObserved (serviceControl scm fuel strSvrName bRun).log = some status ∧
      status.dwCurrentState = requested bRun

/-- No query of the loop fails, unless the loop has come to the state before, or to a status that
puts it to sleep for ever. -/
def Scm.QueriesHold (scm : Scm) (awaited : ServiceState) : Prop :=
  ∀ n, 1 ≤ n → scm.queryServiceStatus 0 n = none → ∃ i status, 1 ≤ i ∧ i < n ∧
    scm.queryServiceStatus 0 i = some status ∧
    (status.dwCurrentState = awaited ∨ status.dwWaitHint = infinite)

section Reports
variable {scm : Scm} {strSvrName : Text} {bRun : Bool} {status : SvcStatus} {fuel n : ℕ}

theorem ends_state (hhold : scm.QueriesHold (requested bRun))
    (hn : Logged.EndsAt (waitRound scm (requested bRun)) 1 n) :
    ∃ st, scm.queryServiceStatus 0 n = some st ∧ st.dwCurrentState = requested bRun := by
  obtain ⟨hpos, hends, hbefore⟩ := endsAt_iff.mp hn
  cases hq : scm.queryServiceStatus 0 n with
  | some st => exact ⟨st, rfl, (hends st hq).2⟩
  | none =>
    obtain ⟨i, st, hi, hlt, hst, hstop⟩ := hhold n hpos hq
    obtain ⟨st', hst', hwake, hne⟩ := hbefore i hi hlt
    obtain rfl := Option.some.inj (hst.symm.trans hst')
    exact absurd hstop (not_or.mpr ⟨hne, hwake⟩)

/-- The first query that fails ends the loop. -/
theorem endsAt_failure {awaited : ServiceState} (hpos : 1 ≤ n)
    (hfail : scm.queryServiceStatus 0 n = none)
    (hno : ∀ i st, 1 ≤ i → i < n → scm.queryServiceStatus 0 i = some st →
      st.dwCurrentState ≠ awaited ∧ st.dwWaitHint ≠ infinite) :
    ∃ m, Logged.EndsAt (waitRound scm awaited) 1 m ∧ scm.queryServiceStatus 0 m = none := by
  have hex : ∃ m, 1 ≤ m ∧ scm.queryServiceStatus 0 m = none := ⟨n, hpos, hfail⟩
  obtain ⟨hm, hnone⟩ := Nat.find_spec hex
  refine ⟨Nat.find hex, endsAt_iff.mpr ⟨hm, fun st hst => ?_, fun i hi hlt => ?_⟩, hnone⟩
  · rw [hnone] at hst
    cases hst
  · cases hq : scm.queryServiceStatus 0 i with
    | none => exact absurd ⟨hi, hq⟩ (Nat.find_min hex hlt)
    | some st =>
      have hle : Nat.find hex ≤ n := Nat.find_min' hex ⟨hpos, hfail⟩
      obtain ⟨hne, hwake⟩ := hno i st hi (by omega) hq
      exact ⟨st, hq, hwake, hne⟩

/-- A loop that a failing query ends has never seen the state. -/
theorem not_seen_of_failure {awaited : ServiceState} (hn : Logged.EndsAt (waitRound scm awaited) 1 n)
    (hfuel : n < 1 + fuel) (hfail : scm.queryServiceStatus 0 n = none) {call : ScmCall}
    (hcall : call ∈ (waitFor scm awaited fuel).log) (hc : call.observed = some status) :
    status.dwCurrentState ≠ awaited := by
  unfold waitFor at hcall
  rw [Logged.loop_log hn hfuel] at hcall
  obtain ⟨i, hi, hcall⟩ := List.mem_flatMap.mp hcall
  have hq := observed_waitRound hcall hc
  obtain ⟨hle, hlt⟩ := List.mem_range'_1.mp hi
  have hne : i ≠ n := by
    rintro rfl
    rw [hfail] at hq
    cases hq
  obtain ⟨st, hst, -, hstate⟩ := (endsAt_iff.mp hn).2.2 i hle (by omega)
  obtain rfl := Option.some.inj (hq.symm.trans hst)
  exact hstate

/-- A call whose loop is ended by a failing query has not seen the requested state. -/
theorem unseen_of_failure (hm : scm.openSCManager = true) (ho : scm.openService 0 = true)
    (hq : scm.queryServiceStatus 0 0 = some status) (hopp : status.dwCurrentState = opposite bRun)
    (ha : scm.accepts bRun = true) (hn : Logged.EndsAt (waitRound scm (requested bRun)) 1 n)
    (hfuel : n < 1 + fuel) (hfail : scm.queryServiceStatus 0 n = none) {st : SvcStatus}
    (hlast : lastObserved (serviceControl scm fuel strSvrName bRun).log = some st) :
    st.dwCurrentState ≠ requested bRun := by
  obtain ⟨call, hcall, hc⟩ := exists_of_lastObserved hlast
  rw [serviceControl_open hm ho hq, changeState_log hopp ha] at hcall
  rcases List.mem_append.mp hcall with hcall | hcall
  · -- the first status is the opposite one
    have hfirst : call.observed = none ∨ call.observed = some status := by
      simp only [List.mem_cons, List.not_mem_nil, or_false] at hcall
      rcases hcall with rfl | rfl | rfl
      · exact .inl rfl
      · exact .inl rfl
      · exact .inr rfl
    rcases hfirst with hnone | hsome
    · rw [hc] at hnone
      cases hnone
    · obtain rfl := Option.some.inj (hc.symm.trans hsome)
      rw [hopp]
      exact opposite_ne_requested bRun
  · rcases List.mem_append.mp hcall with hcall | hcall
    · rw [not_observed_request hcall] at hc
      cases hc
    · exact not_seen_of_failure hn hfuel hfail hcall hc

theorem queriesHold_of_reports (hm : scm.openSCManager = true) (ho : scm.openService 0 = true)
    (hq : scm.queryServiceStatus 0 0 = some status) (hopp : status.dwCurrentState = opposite bRun)
    (ha : scm.accepts bRun = true) (hrep : ReportsState scm strSvrName bRun) :
    scm.QueriesHold (requested bRun) := by
  intro n hpos hfail
  by_contra hno
  have hseen : ∀ i st, 1 ≤ i → i < n → scm.queryServiceStatus 0 i = some st →
      st.dwCurrentState ≠ requested bRun ∧ st.dwWaitHint ≠ infinite :=
    fun i st hi hlt hst => not_or.mp fun hstop => hno ⟨i, st, hi, hlt, hst, hstop⟩
  obtain ⟨m, hends, hnone⟩ := endsAt_failure hpos hfail hseen
  have hlt : m < 1 + m := by omega
  have hloop : (waitFor scm (requested bRun) m).result = .ok () := Logged.loop_ok_iff.mpr ⟨m, hlt, hends⟩
  have hok : (serviceControl scm m strSvrName bRun).result = .ok dtkOk := by
    rw [serviceControl_open hm ho hq]
    exact (changeState_ok hopp ha).mpr hloop
  obtain ⟨st, hlast, hst⟩ := hrep m hok
  exact unseen_of_failure hm ho hq hopp ha hends hlt hnone hlast hst

/-- In the states that are neither running nor stopped nothing is done. -/
theorem not_reports_of_other (hm : scm.openSCManager = true) (ho : scm.openService 0 = true)
    (hq : scm.queryServiceStatus 0 0 = some status) (hreq : status.dwCurrentState ≠ requested bRun)
    (hopp : status.dwCurrentState ≠ opposite bRun) : ¬ ReportsState scm strSvrName bRun := by
  intro hrep
  have hok : (serviceControl scm 0 strSvrName bRun).result = .ok dtkOk := by
    rw [serviceControl_open hm ho hq, changeState_other hopp]
    rfl
  obtain ⟨st, hlast, hst⟩ := hrep 0 hok
  rw [serviceControl_open hm ho hq, changeState_other hopp] at hlast
  obtain rfl := Option.some.inj hlast
  exact hreq hst

/-- The last status of a call that has waited. -/
theorem lastObserved_waited (hm : scm.openSCManager = true) (ho : scm.openService 0 = true)
    (hq : scm.queryServiceStatus 0 0 = some status) (hopp : status.dwCurrentState = opposite bRun)
    (hhold : scm.accepts bRun = true → scm.QueriesHold (requested bRun))
    (hok : (serviceControl scm fuel strSvrName bRun).result = .ok dtkOk) :
    ∃ st, lastObserved (serviceControl scm fuel strSvrName bRun).log = some st ∧
      st.dwCurrentState = requested bRun := by
  rw [serviceControl_open hm ho hq] at hok ⊢
  cases ha : scm.accepts bRun with
  | false =>
    rw [changeState_refused hopp ha] at hok
    cases hok
  | true =>
    obtain ⟨n, hlt, hends⟩ := Logged.loop_ok_iff.mp ((changeState_ok hopp ha).mp hok)
    obtain ⟨st, hst, hstate⟩ := ends_state (hhold ha) hends
    refine ⟨st, ?_, hstate⟩
    rw [changeState_log hopp ha, lastObserved_append, lastObserved_append,
      lastObserved_waitFor hends hlt hst]
    rfl

/-- **What `DTK_OK` of `ServiceControl` says**: the last status is the requested one, unless the first
one is neither running nor stopped, or a query fails in the loop. -/
theorem reportsState_iff (scm : Scm) (strSvrName : Text) (bRun : Bool) :
    ReportsState scm strSvrName bRun ↔
      (scm.openSCManager = true → scm.openService 0 = true →
        ∀ status, scm.queryServiceStatus 0 0 = some status →
          status.dwCurrentState = requested bRun ∨ status.dwCurrentState = opposite bRun ∧
            (scm.accepts bRun = true → scm.QueriesHold (requested bRun))) := by
  constructor
  · intro hrep hm ho status hq
    by_cases hreq : status.dwCurrentState = requested bRun
    · exact .inl hreq
    by_cases hopp : status.dwCurrentState = opposite bRun
    · exact .inr ⟨hopp, fun ha => queriesHold_of_reports hm ho hq hopp ha hrep⟩
    · exact absurd hrep (not_reports_of_other hm ho hq hreq hopp)
  · intro hcond fuel hok
    by_cases hreach : scm.openSCManager = true → scm.openService 0 = true →
        scm.queryServiceStatus 0 0 = none
    · rw [serviceControl_unreached hreach] at hok
      cases hok
    push Not at hreach
    obtain ⟨hm, ho, hq⟩ := hreach
    obtain ⟨status, hq⟩ := Option.ne_none_iff_exists'.mp hq
    rcases hcond hm ho status hq with hreq | ⟨hopp, hhold⟩
    · rw [serviceControl_open hm ho hq,
        changeState_other fun h => opposite_ne_requested bRun (h.symm.trans hreq)]
      exact ⟨status, rfl, hreq⟩
    · exact lastObserved_waited hm ho hq hopp hhold hok

end Reports

/-- The answers where everything is opened and every request is accepted. -/
def Scm.answering (query : ℕ → Option SvcStatus) : Scm :=
  ⟨true, fun _ => true, fun _ => query, fun _ => true, fun _ => true⟩

/-- A paused service is not stopped, and one whose status cannot be had after the stop control was
last seen running. -/
theorem stop_unreported :
    ¬ ReportsState (.answering fun _ => some ⟨.paused, 0⟩) [] false ∧
    ¬ ReportsState (.answering fun k => if k = 0 then some ⟨.running, 0⟩ else none) [] false := by
  constructor
  · intro h
    obtain ⟨status, hlast, hst⟩ := h 0 rfl
    cases hlast
    cases hst
  · intro h
    obtain ⟨status, hlast, hst⟩ := h 1 rfl
    cases hlast
    cases hst

/-! ## When the call returns -/

/-- The call gets to its loop. -/
def Scm.Waits (scm : Scm) (bRun : Bool) : Prop :=
  scm.openSCManager = true ∧ scm.openService 0 = true ∧ scm.accepts bRun = true ∧
    ∃ status, scm.queryServiceStatus 0 0 = some status ∧ status.dwCurrentState = opposite bRun

/-- From the `N`-th query on, which comes after the request, the service is in the state `settled`. -/
def Scm.Settles (scm : Scm) (settled : ServiceState) (N : ℕ) : Prop :=
  (settled = .running ∨ settled = .stopped) ∧ 1 ≤ N ∧
    ∀ k, N ≤ k → ∃ status, scm.queryServiceStatus 0 k = some status ∧ status.dwCurrentState = settled

def Returns (scm : Scm) (strSvrName : Text) (bRun : Bool) : Prop :=
  ∃ fuel iRet, (serviceControl scm fuel strSvrName bRun).result = .ok iRet

/-- The `n`-th query shows the state or fails. -/
def Scm.Shows (scm : Scm) (awaited : ServiceState) (n : ℕ) : Prop :=
  ∀ status, scm.queryServiceStatus 0 n = some status → status.dwCurrentState = awaited

/-- None of the queries up to the `n`-th puts the loop to sleep for ever. -/
def Scm.WakesUpTo (scm : Scm) (n : ℕ) : Prop :=
  ∀ i status, 1 ≤ i → i ≤ n → scm.queryServiceStatus 0 i = some status → status.dwWaitHint ≠ infinite

section Returns
variable {scm : Scm} {awaited settled : ServiceState} {N n : ℕ} {bRun : Bool}

theorem returns_iff (h : scm.Waits bRun) (strSvrName : Text) :
    Returns scm strSvrName bRun ↔ ∃ n, Logged.EndsAt (waitRound scm (requested bRun)) 1 n := by
  obtain ⟨hm, ho, ha, status, hq, hopp⟩ := h
  rw [← Logged.exists_loop_ok_iff (e := .looping)]
  constructor
  · rintro ⟨fuel, iRet, hx⟩
    refine ⟨fuel, ?_⟩
    rw [serviceControl_open hm ho hq] at hx
    rw [changeState_opposite hopp, Logged.bind_result, request_result, ok_bind, ha,
      if_neg (by decide : ¬ true = false), Logged.bind_result] at hx
    obtain ⟨u, hu, -⟩ := bind_eq_ok.mp hx
    exact hu
  · rintro ⟨fuel, hloop⟩
    refine ⟨fuel, dtkOk, ?_⟩
    rw [serviceControl_open hm ho hq]
    exact (changeState_ok hopp ha).mpr hloop

/-- The loop ends at the first query that shows the state or fails. -/
theorem exists_endsAt_iff : (∃ n, Logged.EndsAt (waitRound scm awaited) 1 n) ↔
    ∃ n, 1 ≤ n ∧ scm.Shows awaited n ∧ scm.WakesUpTo n := by
  constructor
  · rintro ⟨n, hn⟩
    obtain ⟨hpos, hends, hbefore⟩ := endsAt_iff.mp hn
    refine ⟨n, hpos, fun st hst => (hends st hst).2, fun i st hi hle hst => ?_⟩
    rcases Nat.eq_or_lt_of_le hle with rfl | hlt
    · exact (hends st hst).1
    · obtain ⟨st', hst', hwake, -⟩ := hbefore i hi hlt
      obtain rfl := Option.some.inj (hst.symm.trans hst')
      exact hwake
  · rintro ⟨n, hpos, hshows, hwakes⟩
    classical
    have hex : ∃ m, 1 ≤ m ∧ scm.Shows awaited m := ⟨n, hpos, hshows⟩
    have hle : Nat.find hex ≤ n := Nat.find_min' hex ⟨hpos, hshows⟩
    obtain ⟨hm, hfirst⟩ := Nat.find_spec hex
    refine ⟨Nat.find hex, endsAt_iff.mpr ⟨hm, fun st hst => ?_, fun i hi hlt => ?_⟩⟩
    · exact ⟨hwakes _ st hm hle hst, hfirst st hst⟩
    · have hnot : ¬ scm.Shows awaited i := fun h => Nat.find_min hex hlt ⟨hi, h⟩
      unfold Scm.Shows at hnot
      push Not at hnot
      obtain ⟨st, hst, hne⟩ := hnot
      exact ⟨st, hst, hwakes i st hi (by omega) hst, hne⟩

/-- **When `ServiceControl` returns** from waiting for a service that settles: it settles in the state
that is waited for, or a query before that shows this state or fails, with no endless sleep on the way. -/
theorem returns_settled_iff (hw : scm.Waits bRun) (hs : scm.Settles settled N) (strSvrName : Text) :
    Returns scm strSvrName bRun ↔
      settled = requested bRun ∧ scm.WakesUpTo N ∨
        ∃ n, 1 ≤ n ∧ n < N ∧ scm.Shows (requested bRun) n ∧ scm.WakesUpTo n := by
  obtain ⟨-, hpos, hset⟩ := hs
  rw [returns_iff hw, exists_endsAt_iff]
  constructor
  · rintro ⟨n, hn, hshows, hwakes⟩
    rcases Nat.lt_or_ge n N with hlt | hge
    · exact .inr ⟨n, hn, hlt, hshows, hwakes⟩
    · obtain ⟨st, hst, rfl⟩ := hset n hge
      exact .inl ⟨hshows st hst, fun i st' hi hle => hwakes i st' hi (hle.trans hge)⟩
  · rintro (⟨rfl, hwakes⟩ | ⟨n, hn, -, hshows, hwakes⟩)
    · refine ⟨N, hpos, fun st hst => ?_, hwakes⟩
      obtain ⟨st', hst', hstate⟩ := hset N (Nat.le_refl N)
      obtain rfl := Option.some.inj (hst.symm.trans hst')
      exact hstate
    · exact ⟨n, hn, hshows, hwakes⟩

end Returns

/-- A service that is starting once and running from then on. -/
theorem returns_settled_sample :
    Returns (.answering fun k => some ⟨if k = 0 then .stopped else if k = 1 then .startPending
      else .running, 0⟩) [] true :=
  (returns_settled_iff (N := 2) ⟨rfl, rfl, rfl, _, rfl, rfl⟩
    ⟨.inl (rfl : ServiceState.running = .running), by decide, fun k hk => ⟨_, rfl, by
      show (if k = 0 then _ else if k = 1 then _ else _) = _
      rw [if_neg (by omega), if_neg (by omega)]⟩⟩ []).mpr
    (.inl ⟨rfl, fun _ _ _ _ h => by
      cases h
      exact (by decide : (0 : UInt32) ≠ infinite)⟩)

/-- A service that was started and has stopped again is waited for without an end. -/
theorem start_waits_forever :
    (Scm.answering fun _ => some ⟨.stopped, 0⟩).Waits true ∧
    (Scm.answering fun _ => some ⟨.stopped, 0⟩).Settles .stopped 1 ∧
    ¬ Returns (.answering fun _ => some ⟨.stopped, 0⟩) [] true := by
  have hw : (Scm.answering fun _ => some ⟨.stopped, 0⟩).Waits true := ⟨rfl, rfl, rfl, _, rfl, rfl⟩
  refine ⟨hw, ⟨.inr rfl, Nat.le_refl 1, fun _ _ => ⟨_, rfl, rfl⟩⟩, fun h => ?_⟩
  obtain ⟨n, -, hshows, -⟩ := exists_endsAt_iff.mp ((returns_iff hw []).mp h)
  cases hshows _ rfl

end AppUtil.WinApi
