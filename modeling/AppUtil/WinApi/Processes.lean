import AppUtil.Lib.HandleLogs
import AppUtil.Ports.Refresh

/-! # The processes of the machine (`CWinApiWrap`)

Between any two moments other programs begin and end processes as they like, and a process id can be given
anew. Each function is a program over the handles that it is given; the functions go on to the next moment
where they have a process id and no handle to hold its process. -/
namespace AppUtil.WinApi
open AppUtil.Lib AppUtil.Lib.FirstStays
open AppUtil.Ports (ProcessEntry toInt)
set_option autoImplicit false

/-- A process, with a number that no other process is ever given. -/
structure Process extends ProcessEntry where
  number : ℕ
  path : Text
  deriving DecidableEq, Repr

/-- What runs at each moment, no two with one id, and which calls succeed then; `delivered` is how many
entries of a snapshot `Process32First` and `Process32Next` deliver. -/
structure Machine where
  table : ℕ → List Process
  pids : ∀ t, ((table t).map (·.th32ProcessID)).Nodup
  createSnapshot : ℕ → Bool
  delivered : ℕ → ℕ
  services : ℕ → SystemCalls
  openProcessToken : ℕ → Bool
  lookupPrivilegeValue : ℕ → Bool
  adjustTokenPrivileges : ℕ → Bool
  openProcess : ℕ → Bool
  queryFullProcessImageName : ℕ → Bool
  terminateProcess : ℕ → Bool

/-- What is opened: by the moment, and a process by itself. -/
inductive ProcHandle where
  | snapshot (t : ℕ)
  | manager (t : ℕ)
  | buffer (t : ℕ)
  | token (t : ℕ)
  | process (t : ℕ) (p : Process)
  deriving DecidableEq, Repr

abbrev ProcCall := Lifetime.Event ProcHandle

abbrev ProcCalls := Logged ProcCall Empty

section Calls

def opened (h : ProcHandle) : ProcCalls Unit := Logged.step (.born h none) (.ok ())
def used (h : ProcHandle) : ProcCalls Unit := Logged.step (.used h) (.ok ())
def closed (h : ProcHandle) : ProcCalls Unit := Logged.step (.died h) (.ok ())

variable (m : Machine) (t : ℕ)

/-- The entries that the snapshot of the moment delivers. -/
def Machine.seen : List Process := (m.table t).take (m.delivered t)

/-- The process that has the id at the moment. -/
def Machine.process (pid : UInt32) : Option Process := (m.table t).find? fun p => p.th32ProcessID = pid

/-- `OpenProcess`. -/
def openProcess (pid : UInt32) : ProcCalls (Option Process) :=
  match m.process t pid with
  | none => pure none
  | some p =>
    if m.openProcess t then do
      opened (.process t p)
      pure (some p)
    else pure none

/-- The loop of `GetProcInfo`, with a `Process32Next` in each pass. -/
def enumerate : List Process → SvrMap → ProcCalls SvrMap
  | [], mapProcInfo => pure mapProcInfo
  | p :: rest, mapProcInfo => do
    used (.snapshot t)
    enumerate rest (mapProcInfo.insertIfNew (toInt p.th32ProcessID) p.szExeFile)

/-- `GetProcInfo`. -/
def getProcInfo (mapProcInfo : SvrMap) : ProcCalls (ℤ × SvrMap) :=
  if m.createSnapshot t = false then pure (dtkError, mapProcInfo)
  else do
    opened (.snapshot t)
    used (.snapshot t)
    let mapProcInfo ← enumerate t (m.seen t) mapProcInfo
    closed (.snapshot t)
    pure (dtkOk, mapProcInfo)

/-- `GetSvrInfo` with the handle of the manager and its buffer. -/
def getSvrInfoCalls (mapSvrInfo : SvrMap) : ProcCalls (ℤ × SvrMap) :=
  if (m.services t).openSCManager = false then pure (dtkError, mapSvrInfo)
  else do
    opened (.manager t)
    used (.manager t)
    if (m.services t).newBuf = false then do
      closed (.manager t)
      pure (dtkError, mapSvrInfo)
    else do
      opened (.buffer t)
      used (.manager t)
      used (.buffer t)
      closed (.manager t)
      closed (.buffer t)
      pure (getSvrInfo (m.services t) mapSvrInfo)

/-- `GetProcPathByPid`. The buffer takes 255 characters. -/
def getProcPathByPid (dwProcessID : UInt32) : ProcCalls (ℤ × Text) :=
  if m.openProcessToken t = false then pure (dtkError, [])
  else do
    opened (.token t)
    if m.lookupPrivilegeValue t = false then do
      closed (.token t)
      pure (dtkError, [])
    else do
      used (.token t)
      if m.adjustTokenPrivileges t = false then do
        closed (.token t)
        pure (dtkError, [])
      else do
        let hProcess ← openProcess m t dwProcessID
        match hProcess with
        | none => do
          closed (.token t)
          pure (dtkError, [])
        | some p => do
          used (.process t p)
          closed (.token t)
          if m.queryFullProcessImageName t ∧ p.path.length < 256 then pure (dtkOk, p.path) else pure (dtkError, [])

/-- `GetPidByAppName`, with what it leaves in `iPid`. -/
def getPidByAppName (strAppName : Text) (iPid : ℤ) : ProcCalls (ℤ × ℤ) := do
  let (iRet, mapProcInfo) ← getProcInfo m t ∅
  if iRet ≠ dtkOk then pure (dtkError, iPid) else pure (dtkOk, findPid mapProcInfo strAppName)

/-- `GetAppSetupPath`, with what it leaves in `strPath`. -/
def getAppSetupPath (strAppName strPath : Text) : ProcCalls (ℤ × Text) := do
  let (_, iPid) ← getPidByAppName m t strAppName (-1)
  if iPid < 0 then pure (dtkError, strPath)
  else do
    let (iRet, szPath) ← getProcPathByPid m (t + 1) (UInt32.ofInt iPid)
    if iRet ≠ dtkOk then pure (dtkError, strPath) else pure (dtkOk, szPath)

/-- `GetSetupPathBySvrName` with its handles. -/
def getSetupPathBySvrNameCalls (strSvrName strPath : Text) : ProcCalls (ℤ × Text) := do
  let (iRet, mapSvrInfo) ← getSvrInfoCalls m t ∅
  if iRet ≠ dtkOk then pure (dtkError, strPath)
  else do
    let iPid := findPid mapSvrInfo strSvrName
    if iPid < 0 then pure (dtkError, strPath)
    else if iPid = 0 then pure (dtkError, strPath)
    else do
      let (iRet, szPath) ← getProcPathByPid m (t + 1) (UInt32.ofInt iPid)
      if iRet ≠ dtkOk then pure (dtkError, strPath) else pure (dtkOk, szPath)

/-- `KillProcessByAppName`, with the process that it has terminated. -/
def killProcessByAppName (strAppName : Text) : ProcCalls (ℤ × Option Process) := do
  let (iRet, iPid) ← getPidByAppName m t strAppName 0
  if iRet ≠ dtkOk then pure (dtkError, none)
  else do
    let hHandle ← openProcess m (t + 1) (UInt32.ofInt iPid)
    match hHandle with
    | none => pure (dtkError, none)
    | some p => do
      used (.process (t + 1) p)
      if m.terminateProcess (t + 1) = false then pure (dtkError, none) else pure (dtkOk, some p)

end Calls

/-! ## What the functions return -/

section Results
variable (m : Machine) (t : ℕ) {map : SvrMap} {name path : Text} {pid : UInt32} {p : Process}

/-- The list that `GetProcInfo` is given. -/
def Machine.processes : Option (List ProcessEntry) :=
  if m.createSnapshot t then some ((m.seen t).map (·.toProcessEntry)) else none

/-- The path that `GetProcPathByPid` is given. -/
def Machine.processPath (pid : UInt32) : Option Text :=
  if m.openProcessToken t ∧ m.lookupPrivilegeValue t ∧ m.adjustTokenPrivileges t ∧ m.openProcess t ∧
      m.queryFullProcessImageName t then
    (m.process t pid).bind fun p => if p.path.length < 256 then some p.path else none
  else none

theorem used_bind {α : Type} (h : ProcHandle) (f : Unit → ProcCalls α) :
    (used h >>= f).result = (f ()).result := rfl

theorem closed_bind {α : Type} (h : ProcHandle) (f : Unit → ProcCalls α) :
    (closed h >>= f).result = (f ()).result := rfl

theorem enumerate_result (list : List Process) (map : SvrMap) : (enumerate t list map).result =
    .ok (insertAll map ((list.map (·.toProcessEntry)).map ProcessEntry.entry)) := by
  induction list generalizing map with
  | nil => rfl
  | cons p rest ih => exact ih _

theorem bind_of_result {α β : Type} {x : ProcCalls α} {a : α} (h : x.result = .ok a) (f : α → ProcCalls β) :
    (x >>= f).result = (f a).result := by
  rw [Logged.bind_of_ok h]

theorem getProcInfo_result :
    (getProcInfo m t map).result = .ok (Ports.getProcInfo (m.processes t) map) := by
  unfold getProcInfo Machine.processes
  cases m.createSnapshot t with
  | false => rfl
  | true => exact bind_of_result (enumerate_result t (m.seen t) map) _

theorem getSvrInfoCalls_result :
    (getSvrInfoCalls m t map).result = .ok (getSvrInfo (m.services t) map) := by
  unfold getSvrInfoCalls getSvrInfo
  cases (m.services t).openSCManager with
  | false => rfl
  | true =>
    cases (m.services t).newBuf with
    | false => rfl
    | true => rfl

theorem openProcess_result :
    (openProcess m t pid).result = .ok (if m.openProcess t then m.process t pid else none) := by
  unfold openProcess
  cases m.process t pid with
  | none => simp
  | some p =>
    cases m.openProcess t with
    | false => rfl
    | true => rfl

theorem getProcPathByPid_result : (getProcPathByPid m t pid).result =
    .ok (match m.processPath t pid with | none => (dtkError, []) | some szPath => (dtkOk, szPath)) := by
  unfold getProcPathByPid Machine.processPath
  cases m.openProcessToken t with
  | false => rfl
  | true =>
    cases m.lookupPrivilegeValue t with
    | false => rfl
    | true =>
      cases m.adjustTokenPrivileges t with
      | false => rfl
      | true =>
        refine (bind_of_result (openProcess_result m t) _).trans ?_
        cases m.openProcess t with
        | false => rfl
        | true =>
          cases m.process t pid with
          | none =>
            cases m.queryFullProcessImageName t with
            | false => rfl
            | true => rfl
          | some p =>
            cases m.queryFullProcessImageName t with
            | false => rfl
            | true =>
              refine (used_bind _ _).trans ((closed_bind _ _).trans ?_)
              by_cases hlen : p.path.length < 256
              · simp [hlen]
              · simp [hlen]

theorem getPidByAppName_result (iPid : ℤ) : (getPidByAppName m t name iPid).result =
    .ok (if m.createSnapshot t then (dtkOk, findPid (Ports.getProcInfo (m.processes t) ∅).2 name)
      else (dtkError, iPid)) := by
  refine (bind_of_result (getProcInfo_result m t) _).trans ?_
  unfold Machine.processes
  cases m.createSnapshot t with
  | false => rfl
  | true => rfl

/-- The path of the process, in place of the call for it. -/
theorem getSetupPathBySvrNameCalls_result : (getSetupPathBySvrNameCalls m t name path).result =
    .ok (getSetupPathBySvrName { m.services t with getProcPathByPid := m.processPath (t + 1) } name path) := by
  refine (bind_of_result (getSvrInfoCalls_result m t) _).trans ?_
  unfold getSetupPathBySvrName
  have hsame : getSvrInfo { m.services t with getProcPathByPid := m.processPath (t + 1) } ∅ =
      getSvrInfo (m.services t) ∅ := rfl
  rw [hsame]
  cases getSvrInfo (m.services t) ∅ with
  | mk iRet mapSvrInfo =>
    dsimp only
    split
    · rfl
    · split
      · rfl
      · split
        · rfl
        · refine (bind_of_result (getProcPathByPid_result m (t + 1)) _).trans ?_
          cases m.processPath (t + 1) (UInt32.ofInt (findPid mapSvrInfo name)) with
          | none => rfl
          | some szPath => rfl

end Results

/-! ## Which process is meant -/

section Meant
variable {m : Machine} {t : ℕ} {name path : Text} {pid : UInt32} {p q : Process}

/-- The id of the processes with the name that is least as an `int`, and all ones where no process that the
snapshot delivers has the name. -/
def Machine.PidFor (m : Machine) (t : ℕ) (name : Text) (pid : UInt32) : Prop :=
  (∃ q ∈ m.seen t, q.szExeFile = name ∧ q.th32ProcessID = pid ∧
    ∀ r ∈ m.seen t, r.szExeFile = name → toInt pid ≤ toInt r.th32ProcessID) ∨
  ((∀ q ∈ m.seen t, q.szExeFile ≠ name) ∧ pid = 0xFFFFFFFF)

theorem ofInt_toInt (x : UInt32) : UInt32.ofInt (toInt x) = x := by
  apply UInt32.toNat_inj.mp
  have hlt := x.toNat_lt
  have hofNat : ∀ n : ℕ, (UInt32.ofNat n).toNat = n % 4294967296 := fun n => UInt32.toNat_ofNat
  have hint : toInt x = if 2 * x.toNat < 4294967296 then (x.toNat : ℤ) else (x.toNat : ℤ) - 4294967296 :=
    BitVec.toInt_eq_toNat_cond x.toBitVec
  have hdef : UInt32.ofInt (toInt x) = UInt32.ofNat (toInt x % 4294967296).toNat := rfl
  rw [hdef, hofNat, hint]
  split
  · omega
  · omega

theorem seen_eq (hp : p ∈ m.table t) (hq : q ∈ m.table t) (h : p.th32ProcessID = q.th32ProcessID) : p = q :=
  List.inj_on_of_nodup_map (m.pids t) hp hq h

theorem process_eq_some_iff : m.process t pid = some p ↔ p ∈ m.table t ∧ p.th32ProcessID = pid := by
  unfold Machine.process
  constructor
  · intro h
    exact ⟨List.mem_of_find?_eq_some h, by simpa using List.find?_some h⟩
  · rintro ⟨hp, rfl⟩
    have hsome : ((m.table t).find? fun q => q.th32ProcessID = p.th32ProcessID).isSome := by
      rw [List.find?_isSome]
      exact ⟨p, hp, by simp⟩
    obtain ⟨q, hq⟩ := Option.isSome_iff_exists.mp hsome
    have hpid : q.th32ProcessID = p.th32ProcessID := by simpa using List.find?_some hq
    rw [hq, seen_eq (List.mem_of_find?_eq_some hq) hp hpid]

/-- The entries of the map that the functions search. -/
def Machine.entries (m : Machine) (t : ℕ) : List (ℤ × Text) :=
  ((m.seen t).map (·.toProcessEntry)).map ProcessEntry.entry

theorem mem_entries_iff {k : ℤ} :
    (k, name) ∈ m.entries t ↔ ∃ q ∈ m.seen t, toInt q.th32ProcessID = k ∧ q.szExeFile = name := by
  simp [Machine.entries, ProcessEntry.entry]

theorem nodup_entries : ((m.entries t).map Prod.fst).Nodup := by
  have hseen : ((m.seen t).map (·.th32ProcessID)).Nodup :=
    (m.pids t).sublist ((List.take_sublist _ _).map _)
  have hmap : (m.entries t).map Prod.fst = ((m.seen t).map (·.th32ProcessID)).map toInt := by
    simp [Machine.entries, ProcessEntry.entry]
  rw [hmap]
  exact hseen.map fun x y h => Ports.toInt_inj.mp h

theorem pidFor_unique {pid' : UInt32} (h : m.PidFor t name pid) (h' : m.PidFor t name pid') : pid = pid' := by
  rcases h with ⟨q, hq, hname, rfl, hleast⟩ | ⟨hnone, rfl⟩
  · rcases h' with ⟨r, hr, hname', rfl, hleast'⟩ | ⟨hnone', -⟩
    · exact Ports.toInt_inj.mp (Int.le_antisymm (hleast r hr hname') (hleast' q hq hname))
    · exact absurd hname (hnone' q hq)
  · rcases h' with ⟨r, hr, hname', -, -⟩ | ⟨-, rfl⟩
    · exact absurd hname' (hnone r hr)
    · rfl

/-- What the search of the map gives. -/
theorem exists_pidFor (m : Machine) (t : ℕ) (name : Text) :
    ∃ pid, m.PidFor t name pid ∧ findPid (insertAll ∅ (m.entries t)) name = toInt pid := by
  have hmap : ∀ {k : ℤ} {v : Text},
      (insertAll (∅ : SvrMap) (m.entries t))[k]? = some v ↔ (k, v) ∈ m.entries t :=
    getElem?_insertAll_eq_some_iff nodup_entries
  unfold findPid
  cases hkey : keyOf (insertAll ∅ (m.entries t)) name with
  | none =>
    have hnone : ∀ q ∈ m.seen t, q.szExeFile ≠ name := by
      intro q hq hname
      obtain ⟨k, hk⟩ := exists_keyOf (hmap.mpr (mem_entries_iff.mpr ⟨q, hq, rfl, hname⟩))
      rw [hkey] at hk
      cases hk
    exact ⟨0xFFFFFFFF, .inr ⟨hnone, rfl⟩, rfl⟩
  | some k =>
    obtain ⟨q, hq, rfl, hname⟩ := mem_entries_iff.mp (hmap.mp (getElem?_of_keyOf hkey))
    refine ⟨q.th32ProcessID, .inl ⟨q, hq, hname, rfl, fun r hr hr' => ?_⟩, rfl⟩
    have hne := keyOf_least hkey (hmap.mpr (mem_entries_iff.mpr ⟨r, hr, rfl, hr'⟩))
    exact Std.isLE_compare.mp (Ordering.isLE_iff_ne_gt.mpr hne)

theorem processes_of_snapshot (h : m.createSnapshot t = true) :
    (Ports.getProcInfo (m.processes t) ∅).2 = insertAll ∅ (m.entries t) := by
  unfold Machine.processes
  rw [if_pos h]
  rfl

end Meant

section Functions
variable (m : Machine) (t : ℕ)

/-- The end of `KillProcessByAppName`, with the process that has the id. -/
theorem killProcessByAppName_result (name : Text) (h : m.createSnapshot t = true) :
    ∃ pid, m.PidFor t name pid ∧ (killProcessByAppName m t name).result =
      .ok (match (if m.openProcess (t + 1) then m.process (t + 1) pid else none) with
        | none => (dtkError, none)
        | some p => if m.terminateProcess (t + 1) = false then (dtkError, none) else (dtkOk, some p)) := by
  obtain ⟨pid, hpid, hfind⟩ := exists_pidFor m t name
  refine ⟨pid, hpid, ?_⟩
  unfold killProcessByAppName
  rw [bind_of_result (getPidByAppName_result m t 0), if_pos h, processes_of_snapshot h, hfind]
  dsimp only
  rw [if_neg (fun h => h rfl), ofInt_toInt]
  refine (bind_of_result (openProcess_result m (t + 1)) _).trans ?_
  split
  · rfl
  · cases m.terminateProcess (t + 1) with
    | false => rfl
    | true => rfl

theorem killProcessByAppName_error (name : Text) (h : m.createSnapshot t = false) :
    (killProcessByAppName m t name).result = .ok (dtkError, none) := by
  unfold killProcessByAppName
  rw [bind_of_result (getPidByAppName_result m t 0), h]
  rfl

/-- **KillProcessByAppName** ends, where its calls succeed, the process that has by then the id that was meant
when the snapshot was made. -/
theorem killProcessByAppName_eq_ok_iff (name : Text) (p : Process) :
    (killProcessByAppName m t name).result = .ok (dtkOk, some p) ↔
      m.createSnapshot t = true ∧ m.openProcess (t + 1) = true ∧ m.terminateProcess (t + 1) = true ∧
        p ∈ m.table (t + 1) ∧ m.PidFor t name p.th32ProcessID := by
  cases hsnap : m.createSnapshot t with
  | false =>
    rw [killProcessByAppName_error m t name hsnap]
    simp
  | true =>
    obtain ⟨pid, hpid, hresult⟩ := killProcessByAppName_result m t name hsnap
    rw [hresult]
    constructor
    · intro h
      split at h
      · simp [dtkOk, dtkError] at h
      · rename_i q hq
        split at h
        · simp [dtkOk, dtkError] at h
        · rename_i hterm
          obtain ⟨hopen, hfound⟩ : m.openProcess (t + 1) = true ∧ m.process (t + 1) pid = some q := by
            simpa using hq
          obtain ⟨hmem, rfl⟩ := process_eq_some_iff.mp hfound
          obtain rfl : q = p := by simpa using h
          exact ⟨rfl, hopen, by simpa using hterm, hmem, hpid⟩
    · rintro ⟨-, hopen, hterm, hmem, hmeant⟩
      obtain rfl := pidFor_unique hpid hmeant
      rw [if_pos hopen, process_eq_some_iff.mpr ⟨hmem, rfl⟩, hterm]
      rfl

theorem processPath_eq_some_iff {pid : UInt32} {szPath : Text} : m.processPath t pid = some szPath ↔
    (m.openProcessToken t ∧ m.lookupPrivilegeValue t ∧ m.adjustTokenPrivileges t ∧ m.openProcess t ∧
      m.queryFullProcessImageName t) ∧
    ∃ p ∈ m.table t, p.th32ProcessID = pid ∧ p.path = szPath ∧ szPath.length < 256 := by
  unfold Machine.processPath
  split
  · rename_i hcalls
    rw [Option.bind_eq_some_iff, and_iff_right hcalls]
    refine exists_congr fun p => ?_
    rw [process_eq_some_iff, and_assoc]
    refine and_congr_right fun _ => and_congr_right fun _ => ?_
    split
    · rename_i hlen
      constructor
      · rintro ⟨⟩
        exact ⟨rfl, hlen⟩
      · rintro ⟨rfl, -⟩
        rfl
    · rename_i hlen
      constructor
      · nofun
      · rintro ⟨rfl, hlen'⟩
        exact absurd hlen' hlen
  · rename_i hcalls
    constructor
    · nofun
    · intro h
      exact absurd h.1 hcalls

/-- `GetAppSetupPath`. -/
theorem getAppSetupPath_result (name path : Text) (h : m.createSnapshot t = true) :
    ∃ pid, m.PidFor t name pid ∧ (getAppSetupPath m t name path).result =
      .ok (if toInt pid < 0 then (dtkError, path)
        else match m.processPath (t + 1) pid with
          | none => (dtkError, path)
          | some szPath => (dtkOk, szPath)) := by
  obtain ⟨pid, hpid, hfind⟩ := exists_pidFor m t name
  refine ⟨pid, hpid, ?_⟩
  unfold getAppSetupPath
  rw [bind_of_result (getPidByAppName_result m t (-1)), if_pos h, processes_of_snapshot h, hfind]
  dsimp only
  split
  · rfl
  · rw [ofInt_toInt]
    refine (bind_of_result (getProcPathByPid_result m (t + 1)) _).trans ?_
    cases m.processPath (t + 1) pid with
    | none => rfl
    | some szPath => rfl

theorem getAppSetupPath_eq_ok_iff (name path szPath : Text) :
    (getAppSetupPath m t name path).result = .ok (dtkOk, szPath) ↔
      m.createSnapshot t = true ∧
        ∃ pid, m.PidFor t name pid ∧ 0 ≤ toInt pid ∧ m.processPath (t + 1) pid = some szPath := by
  cases hsnap : m.createSnapshot t with
  | false =>
    have hresult : (getAppSetupPath m t name path).result = .ok (dtkError, path) := by
      unfold getAppSetupPath
      rw [bind_of_result (getPidByAppName_result m t (-1)), hsnap]
      rfl
    rw [hresult]
    simp [dtkOk, dtkError]
  | true =>
    obtain ⟨pid, hpid, hresult⟩ := getAppSetupPath_result m t name path hsnap
    rw [hresult]
    constructor
    · intro h
      split at h
      · simp [dtkOk, dtkError] at h
      · rename_i hneg
        split at h
        · simp [dtkOk, dtkError] at h
        · rename_i hpath
          obtain rfl := (Prod.mk.inj (Except.ok.inj h)).2
          exact ⟨rfl, pid, hpid, Int.not_lt.mp hneg, hpath⟩
    · rintro ⟨-, pid', hpid', hpos, hpath⟩
      obtain rfl := pidFor_unique hpid hpid'
      rw [if_neg (Int.not_lt.mpr hpos), hpath]

end Functions

end AppUtil.WinApi
