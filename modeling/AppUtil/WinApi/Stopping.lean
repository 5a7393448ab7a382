import AppUtil.Lib.Run
import AppUtil.WinApi.Scm

/-! # What `StopService` does to its list

The loop erases and marks the entries of the vector it runs over, and stops at the first entry whose
status cannot be had or whose service does not take the stop control. -/
namespace AppUtil.WinApi
open AppUtil.Lib
set_option autoImplicit false

/-- The service of the entry reports that it is running. -/
def Scm.runs (scm : Scm) (n : ℕ) : Bool :=
  (scm.queryServiceStatus n 0).any fun status => status.dwCurrentState = .running

/-- The loop is left because of the entry. -/
def Scm.EntryFails (scm : Scm) (n : ℕ) : Prop :=
  scm.openService n = true ∧
    (scm.queryServiceStatus n 0 = none ∨ scm.runs n = true ∧ scm.controlService n = false)

def Scm.markOf (scm : Scm) (n : ℕ) : ℤ := if scm.runs n then svrStatusRun else svrStatusStop

/-- The call is a stop control for the entry. -/
def ScmCall.stops (n : ℕ) : ScmCall → Bool
  | .controlService (.service m) _ => m = n
  | _ => false

section Stopping
variable {scm : Scm} {n m : ℕ}

/-! ## One entry -/

theorem stopEntry_ok (ho : scm.openService n = true) (h : ¬ scm.EntryFails n) :
    (stopEntry scm n).result = .ok (some (scm.markOf n)) := by
  unfold Scm.EntryFails Scm.runs at h
  unfold stopEntry Scm.markOf Scm.runs queryServiceStatus
  cases hq : scm.queryServiceStatus n 0 with
  | none => exact absurd ⟨ho, .inl hq⟩ h
  | some status =>
    rw [hq] at h
    by_cases hrun : status.dwCurrentState = .running
    · have hsent : scm.controlService n = true := by
        by_contra hs
        exact h ⟨ho, .inr ⟨by simp [hrun], by simpa using hs⟩⟩
      simp [controlService, hrun, hsent]
    · simp [hrun]

theorem stopEntry_fails (h : scm.EntryFails n) : (stopEntry scm n).result = .ok none := by
  obtain ⟨-, hfail⟩ := h
  unfold Scm.runs at hfail
  unfold stopEntry queryServiceStatus
  cases hq : scm.queryServiceStatus n 0 with
  | none => rfl
  | some status =>
    rw [hq] at hfail
    obtain ⟨hrun, hsent⟩ := hfail.resolve_left nofun
    have hstate : status.dwCurrentState = .running := by simpa using hrun
    simp [controlService, hstate, hsent]

theorem stopEntry_stops :
    (stopEntry scm n).log.countP (ScmCall.stops m) = if m = n ∧ scm.runs n = true then 1 else 0 := by
  unfold stopEntry Scm.runs queryServiceStatus
  cases hq : scm.queryServiceStatus n 0 with
  | none => simp [ScmCall.stops, Logged.bind_log_of_ok]
  | some status =>
    by_cases hrun : status.dwCurrentState = .running
    · by_cases hmn : n = m
      · simp [ScmCall.stops, Logged.bind_log_of_ok, controlService, hrun, hmn]
      · simp [ScmCall.stops, Logged.bind_log_of_ok, controlService, hrun, hmn, Ne.symm hmn]
    · simp [ScmCall.stops, Logged.bind_log_of_ok, hrun]

/-! ## The loop -/

variable {hSvc : Option ScHandle} {it : SvrInfo} {rest : List SvrInfo}

theorem stopLoop_erase (ho : scm.openService n = false) :
    stopLoop scm n hSvc (it :: rest) =
      ⟨.openService it.strSvrName none :: (stopLoop scm (n + 1) none rest).log,
        (stopLoop scm (n + 1) none rest).result⟩ := by
  conv_lhs => unfold stopLoop
  unfold openService
  rw [ho]
  rfl

theorem stopLoop_fails (h : scm.EntryFails n) :
    stopLoop scm n hSvc (it :: rest) =
      ⟨.openService it.strSvrName (some (.service n)) :: (stopEntry scm n).log,
        .ok (dtkError, some (.service n), it :: rest)⟩ := by
  conv_lhs => unfold stopLoop
  unfold openService
  rw [h.1, Logged.bind_of_ok rfl, if_pos rfl, if_neg nofun, Logged.bind_of_ok (stopEntry_fails h)]
  show (Logged.mk (_ :: ((stopEntry scm n).log ++ [])) _ : Calls _) = _
  rw [List.append_nil]
  rfl

theorem stopLoop_next (ho : scm.openService n = true) (h : ¬ scm.EntryFails n) {log : List ScmCall}
    {iRet : ℤ} {hSvc' : Option ScHandle} {left : List SvrInfo}
    (hrest : stopLoop scm (n + 1) (some (.service n)) rest = ⟨log, .ok (iRet, hSvc', left)⟩) :
    stopLoop scm n hSvc (it :: rest) =
      ⟨.openService it.strSvrName (some (.service n)) :: ((stopEntry scm n).log ++ log),
        .ok (iRet, hSvc', { it with iState := scm.markOf n } :: left)⟩ := by
  conv_lhs => unfold stopLoop
  unfold openService
  rw [ho, Logged.bind_of_ok rfl, if_pos rfl, if_neg nofun, Logged.bind_of_ok (stopEntry_ok ho h)]
  dsimp only
  rw [hrest]
  show (Logged.mk (_ :: ((stopEntry scm n).log ++ ([] ++ (log ++ [])))) _ : Calls _) = _
  rw [List.append_nil, List.nil_append]
  rfl

/-- What is left of an entry that the loop has gone past. -/
def Scm.kept (scm : Scm) (e : SvrInfo × ℕ) : Option SvrInfo :=
  if scm.openService e.2 then some { e.1 with iState := scm.markOf e.2 } else none

/-- The loop has gone past `k` of the entries, numbered from `n` on. -/
structure GonePast (scm : Scm) (n : ℕ) (l : List SvrInfo) (k : ℕ) (iRet : ℤ) (left : List SvrInfo)
    (log : List ScmCall) : Prop where
  le : k ≤ l.length
  before : ∀ i, i < k → ¬ scm.EntryFails (n + i)
  list : left = ((l.take k).zipIdx n).filterMap scm.kept ++ l.drop k
  stops : ∀ m, m ≠ n + k → log.countP (ScmCall.stops m) =
    if n ≤ m ∧ m < n + k ∧ scm.openService m = true ∧ scm.runs m = true then 1 else 0
  ends : iRet = dtkOk ∧ k = l.length ∨ iRet = dtkError ∧ k < l.length ∧ scm.EntryFails (n + k)

theorem GonePast.cons {k : ℕ} {iRet : ℤ} {left left' : List SvrInfo} {log : List ScmCall}
    (h : GonePast scm (n + 1) rest k iRet left log) (hn : ¬ scm.EntryFails n) (first : List ScmCall)
    (hlist : left' = (scm.kept (it, n)).toList ++ left)
    (hfirst : ∀ m, first.countP (ScmCall.stops m) =
      if m = n ∧ scm.openService n = true ∧ scm.runs n = true then 1 else 0) :
    GonePast scm n (it :: rest) (k + 1) iRet left' (first ++ log) where
  le := Nat.succ_le_succ h.le
  before i hi := by
    cases i with
    | zero => exact hn
    | succ i =>
      rw [show n + (i + 1) = n + 1 + i by omega]
      exact h.before i (by omega)
  list := by
    rw [hlist, h.list, List.take_succ_cons, List.drop_succ_cons, List.zipIdx_cons]
    cases hkept : scm.kept (it, n) with
    | none => rw [List.filterMap_cons_none hkept, Option.toList_none, List.nil_append]
    | some e => rw [List.filterMap_cons_some hkept, Option.toList_some, List.cons_append, List.cons_append,
        List.nil_append]
  stops m hm := by
    rw [List.countP_append, hfirst, h.stops m (by omega)]
    by_cases hmn : m = n
    · subst hmn
      have hlate : ¬ (m + 1 ≤ m ∧ m < m + 1 + k ∧ scm.openService m = true ∧ scm.runs m = true) :=
        fun hc => absurd hc.1 (Nat.not_succ_le_self m)
      rw [if_neg hlate, Nat.add_zero]
      refine if_congr ?_ rfl rfl
      exact ⟨fun hc => ⟨Nat.le_refl m, by omega, hc.2⟩, fun hc => ⟨rfl, hc.2.2⟩⟩
    · rw [if_neg (fun hc => hmn hc.1), Nat.zero_add]
      refine if_congr ?_ rfl rfl
      exact ⟨fun hc => ⟨by omega, by omega, hc.2.2⟩, fun hc => ⟨by omega, by omega, hc.2.2⟩⟩
  ends := by
    rw [show n + (k + 1) = n + 1 + k by omega, List.length_cons]
    rcases h.ends with ⟨hr, hk⟩ | ⟨hr, hk, hf⟩
    · exact .inl ⟨hr, by omega⟩
    · exact .inr ⟨hr, by omega, hf⟩

/-- The loop ends at the first entry that fails, or behind the last. -/
theorem stopLoop_spec (scm : Scm) (n : ℕ) (hSvc : Option ScHandle) (l : List SvrInfo) :
    ∃ log iRet hSvc' left k, stopLoop scm n hSvc l = ⟨log, .ok (iRet, hSvc', left)⟩ ∧
      GonePast scm n l k iRet left log := by
  induction l generalizing n hSvc with
  | nil =>
    refine ⟨[], dtkOk, hSvc, [], 0, rfl, Nat.le_refl 0, fun i hi => absurd hi (Nat.not_lt_zero i), rfl,
      fun m _ => ?_, .inl ⟨rfl, rfl⟩⟩
    rw [if_neg fun hc => absurd hc.2.1 (Nat.not_lt.mpr hc.1)]
    rfl
  | cons it rest ih =>
    cases ho : scm.openService n with
    | false =>
      obtain ⟨log, iRet, hSvc', left, k, hrest, h⟩ := ih (n + 1) none
      have hn : ¬ scm.EntryFails n := by
        rintro ⟨hopen, -⟩
        rw [ho] at hopen
        cases hopen
      refine ⟨_, iRet, hSvc', left, k + 1, by rw [stopLoop_erase ho, hrest]; rfl,
        h.cons hn [.openService it.strSvrName none] ?_ fun m => ?_⟩
      · simp [Scm.kept, ho]
      · simp [ScmCall.stops, ho]
    | true =>
      by_cases hf : scm.EntryFails n
      · refine ⟨_, dtkError, _, it :: rest, 0, stopLoop_fails hf, Nat.zero_le _,
          fun i hi => absurd hi (Nat.not_lt_zero i), rfl, fun m hm => ?_,
          .inr ⟨rfl, Nat.succ_pos _, hf⟩⟩
        have hnone : ¬ (n ≤ m ∧ m < n + 0 ∧ scm.openService m = true ∧ scm.runs m = true) :=
          fun hc => absurd hc.2.1 (Nat.not_lt.mpr hc.1)
        rw [List.countP_cons, stopEntry_stops, if_neg fun hc => hm hc.1, if_neg hnone]
        rfl
      · obtain ⟨log, iRet, hSvc', left, k, hrest, h⟩ := ih (n + 1) (some (.service n))
        refine ⟨_, iRet, hSvc', _, k + 1, stopLoop_next ho hf hrest,
          h.cons hf (.openService it.strSvrName (some (.service n)) :: (stopEntry scm n).log)
            ?_ fun m => ?_⟩
        · simp [Scm.kept, ho]
        · rw [List.countP_cons, stopEntry_stops]
          simp [ScmCall.stops, ho]

theorem finish_stops {α : Type} (hSvc hSC : Option ScHandle) (iRet : α) :
    (finish hSvc hSC iRet).log.countP (ScmCall.stops m) = 0 := by
  rw [finish_eq, closeIfNull_eq, closeIfNull_eq]
  cases hSvc <;> cases hSC <;> rfl

/-- The function is its loop, and neither the handles nor the manager make a difference to the list. -/
theorem stopService_spec (h : scm.openSCManager = true) (l : List SvrInfo) :
    ∃ log iRet left k, stopService scm l = ⟨log, .ok (iRet, left)⟩ ∧ GonePast scm 0 l k iRet left log := by
  obtain ⟨log, iRet, hSvc', left, k, hloop, hk⟩ := stopLoop_spec scm 0 none l
  refine ⟨.openSCManager (some .manager) :: (log ++ (finish hSvc' (some .manager) (iRet, left)).log),
    iRet, left, k, ?_, hk.le, hk.before, hk.list, fun m hm => ?_, hk.ends⟩
  · unfold stopService openSCManager
    rw [h, Logged.bind_of_ok rfl, if_pos rfl, if_neg nofun, hloop, Logged.bind_of_ok rfl]
    dsimp only
    rw [finish_eq]
    rfl
  · rw [List.countP_cons, List.countP_append, finish_stops, hk.stops m hm]
    rfl

end Stopping

/-! ## The list -/

/-- An entry is erased when its service cannot be opened, and else marked by whether a stop control was
sent to it. -/
def marked (scm : Scm) (log : List ScmCall) (e : SvrInfo × ℕ) : Option SvrInfo :=
  if scm.openService e.2 then
    some { e.1 with iState := if log.any (ScmCall.stops e.2) then svrStatusRun else svrStatusStop }
  else none

def filtered (scm : Scm) (log : List ScmCall) (l : List SvrInfo) : List SvrInfo :=
  l.zipIdx.filterMap (marked scm log)

/-- Each of the first `k` entries whose service was opened and is running caused one stop control. -/
def StopsOnce (scm : Scm) (log : List ScmCall) (k : ℕ) : Prop :=
  ∀ i, i < k → scm.openService i = true → scm.runs i = true → log.countP (ScmCall.stops i) = 1

/-- `StopService` filters and marks its list up to its end, or up to the entry because of which it
returns `DTK_ERROR`. -/
def FiltersInPlace (scm : Scm) (l : List SvrInfo) : Prop :=
  ∃ log iRet left, stopService scm l = ⟨log, .ok (iRet, left)⟩ ∧ (iRet = dtkOk ∨ iRet = dtkError) ∧
    (iRet = dtkOk → left = filtered scm log l ∧ StopsOnce scm log l.length) ∧
    (iRet = dtkError → ∃ k, k < l.length ∧ scm.EntryFails k ∧ (∀ i, i < k → ¬ scm.EntryFails i) ∧
      left = filtered scm log (l.take k) ++ l.drop k ∧ StopsOnce scm log k ∧
      ∀ i, k < i → log.countP (ScmCall.stops i) = 0)

section Filters
variable {scm : Scm} {l left : List SvrInfo} {k : ℕ} {iRet : ℤ} {log : List ScmCall}

theorem GonePast.stopsOnce (h : GonePast scm 0 l k iRet left log) : StopsOnce scm log k := by
  intro i hi ho hrun
  rw [h.stops i (by omega), if_pos ⟨Nat.zero_le i, by omega, ho, hrun⟩]

/-- A stop control goes to the running services. -/
theorem GonePast.marked_eq (h : GonePast scm 0 l k iRet left log) {i : ℕ} (hi : i < k) (it : SvrInfo) :
    marked scm log (it, i) = scm.kept (it, i) := by
  unfold marked Scm.kept Scm.markOf
  cases ho : scm.openService i with
  | false => rfl
  | true =>
    have hcount := h.stops i (by omega)
    have hany : log.any (ScmCall.stops i) = scm.runs i := by
      rw [Bool.eq_iff_iff, List.any_eq_true, ← List.countP_pos_iff, hcount]
      cases hrun : scm.runs i with
      | false => simp
      | true => simp [ho, hi]
    rw [hany]

theorem GonePast.list_eq (h : GonePast scm 0 l k iRet left log) :
    left = filtered scm log (l.take k) ++ l.drop k := by
  rw [h.list]
  refine congrArg (· ++ l.drop k) (List.filterMap_congr fun e he => ?_)
  have hlt := List.snd_lt_of_mem_zipIdx he
  rw [List.length_take] at hlt
  exact (h.marked_eq (by omega) e.1).symm

end Filters

/-- **`StopService` filters and marks the list in place.** -/
theorem stopService_filters (scm : Scm) (h : scm.openSCManager = true) (l : List SvrInfo) :
    FiltersInPlace scm l := by
  obtain ⟨log, iRet, left, k, hx, hk⟩ := stopService_spec h l
  refine ⟨log, iRet, left, hx, ?_, fun hok => ?_, fun herr => ?_⟩
  · exact hk.ends.imp And.left And.left
  · rcases hk.ends with ⟨-, rfl⟩ | ⟨herr, -⟩
    · have hlist := hk.list_eq
      rw [List.take_length, List.drop_length, List.append_nil] at hlist
      exact ⟨hlist, hk.stopsOnce⟩
    · rw [hok] at herr
      cases herr
  · rcases hk.ends with ⟨hok, -⟩ | ⟨-, hlt, hfail⟩
    · rw [herr] at hok
      cases hok
    · refine ⟨k, hlt, Nat.zero_add k ▸ hfail, fun i hi => Nat.zero_add i ▸ hk.before i hi, hk.list_eq,
        hk.stopsOnce, fun i hi => ?_⟩
      rw [hk.stops i (by omega), if_neg fun hc => absurd hc.2.1 (by omega)]

/-- The first service is missing, the second takes the stop control, and the third does not. -/
theorem stopService_filters_sample :
    FiltersInPlace ⟨true, fun n => n ≠ 0, fun _ _ => some ⟨.running, 0⟩, fun n => n = 1, fun _ => true⟩
      [⟨['a'], 0⟩, ⟨['b'], 0⟩, ⟨['c'], 0⟩] :=
  stopService_filters _ rfl _

end AppUtil.WinApi
