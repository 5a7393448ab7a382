import Mathlib.Data.Int.Notation
import Mathlib.Data.List.Nodup
import AppUtil.Lib.FirstStays

/-! # The services of the machine (`CWinApiWrap`)

`GetSvrInfo` keeps one service for each process, and several services may share one. -/
namespace AppUtil.WinApi
open AppUtil.Lib.FirstStays
set_option autoImplicit false

def dtkOk : ℤ := 0
def dtkError : ℤ := -1

/-- A `std::string`. -/
abbrev Text := List Char

/-- `ENUM_SERVICE_STATUS_PROCESS`. -/
structure ServiceStatus where
  lpServiceName : Text
  dwProcessId : UInt32
  deriving DecidableEq, Repr

/-- What the service control manager returns: no name twice, and process ids from the lower half. -/
structure ServiceList where
  services : List ServiceStatus
  names : (services.map (·.lpServiceName)).Nodup
  pids : ∀ s ∈ services, s.dwProcessId.toNat < 0x80000000

/-- The calls of the system: `enumServicesStatusEx` is `none` where it fails, and `getProcPathByPid` where
it returns an error. -/
structure SystemCalls where
  openSCManager : Bool
  newBuf : Bool
  enumServicesStatusEx : Option ServiceList
  getProcPathByPid : UInt32 → Option Text

/-- `std::map<int, std::string>`. -/
abbrev SvrMap := Std.TreeMap ℤ Text

/-- The entry that `make_pair` makes, with the process id as an `int`. -/
def ServiceStatus.entry (s : ServiceStatus) : ℤ × Text := (s.dwProcessId.toInt32.toInt, s.lpServiceName)

/-- `GetSvrInfo`. -/
def getSvrInfo (os : SystemCalls) (mapSvrInfo : SvrMap) : ℤ × SvrMap :=
  if os.openSCManager = false then (dtkError, mapSvrInfo)
  else if os.newBuf = false then (dtkError, mapSvrInfo)
  else
    match os.enumServicesStatusEx with
    | none => (dtkError, mapSvrInfo)
    | some list => (dtkOk, insertAll mapSvrInfo (list.services.map ServiceStatus.entry))

/-- The loop of `GetSetupPathBySvrName`. -/
def findPid (mapSvrInfo : SvrMap) (strSvrName : Text) : ℤ := (keyOf mapSvrInfo strSvrName).getD (-1)

/-- `GetSetupPathBySvrName`, with what it leaves in `strPath`. -/
def getSetupPathBySvrName (os : SystemCalls) (strSvrName strPath : Text) : ℤ × Text :=
  let (iRet, mapSvrInfo) := getSvrInfo os ∅
  if iRet ≠ dtkOk then (dtkError, strPath)
  else
    let iPid := findPid mapSvrInfo strSvrName
    if iPid < 0 then (dtkError, strPath)
    else if iPid = 0 then (dtkError, strPath)
    else
      match os.getProcPathByPid (UInt32.ofInt iPid) with
      | none => (dtkError, strPath)
      | some szPath => (dtkOk, szPath)

/-! ## The map -/

section Lookup
variable {list : ServiceList} {s t : ServiceStatus} {name : Text} {k : ℤ}

/-- The map made of a list. -/
def ServiceList.map (list : ServiceList) : SvrMap := insertAll ∅ (list.services.map ServiceStatus.entry)

theorem toInt_of_small {x : UInt32} (h : x.toNat < 0x80000000) : x.toInt32.toInt = x.toNat := by
  show x.toBitVec.toInt = x.toBitVec.toNat
  apply BitVec.toInt_eq_toNat_of_lt
  have hbits : x.toBitVec.toNat < 0x80000000 := h
  omega

theorem ServiceList.eq_of_name (hs : s ∈ list.services) (ht : t ∈ list.services)
    (h : s.lpServiceName = t.lpServiceName) : s = t :=
  List.inj_on_of_nodup_map list.names hs ht h

theorem ServiceList.key (hs : s ∈ list.services) : s.entry.1 = s.dwProcessId.toNat :=
  toInt_of_small (list.pids s hs)

theorem ServiceList.pid_of_key (hs : s ∈ list.services) (ht : t ∈ list.services)
    (h : s.entry.1 = t.entry.1) : s.dwProcessId = t.dwProcessId := by
  rw [ServiceList.key hs, ServiceList.key ht] at h
  exact UInt32.toNat_inj.mp (Int.ofNat_inj.mp h)

theorem ServiceList.getElem?_map (k : ℤ) : list.map[k]? =
    ((list.services.map ServiceStatus.entry).find? fun e => e.1 = k).map Prod.snd := by
  rw [ServiceList.map, getElem?_insertAll, Std.TreeMap.getElem?_emptyc, Option.none_or]

theorem ServiceList.exists_of_map (h : list.map[k]? = some name) :
    ∃ s ∈ list.services, s.entry = (k, name) := by
  rw [ServiceList.getElem?_map] at h
  obtain ⟨e, hfind, rfl⟩ := Option.map_eq_some_iff.mp h
  obtain ⟨s, hs, rfl⟩ := List.mem_map.mp (List.mem_of_find?_eq_some hfind)
  have hk : s.entry.1 = k := by simpa using List.find?_some hfind
  exact ⟨s, hs, Prod.ext hk rfl⟩

/-- A service that has its process for itself is in the map. -/
theorem ServiceList.map_of_alone (hs : s ∈ list.services)
    (halone : ∀ t ∈ list.services, t.dwProcessId = s.dwProcessId → t = s) :
    list.map[s.entry.1]? = some s.lpServiceName := by
  rw [ServiceList.getElem?_map]
  cases hfind : (list.services.map ServiceStatus.entry).find? fun e => e.1 = s.entry.1 with
  | none =>
    have hne := List.find?_eq_none.mp hfind s.entry (List.mem_map_of_mem hs)
    exact absurd (decide_eq_true rfl) hne
  | some e =>
    obtain ⟨t, ht, rfl⟩ := List.mem_map.mp (List.mem_of_find?_eq_some hfind)
    have hkey : t.entry.1 = s.entry.1 := by simpa using List.find?_some hfind
    rw [halone t ht (ServiceList.pid_of_key ht hs hkey)]
    rfl

theorem findPid_of_map (hs : s ∈ list.services) (h : list.map[s.entry.1]? = some s.lpServiceName) :
    findPid list.map s.lpServiceName = s.dwProcessId.toNat := by
  have hkey : keyOf list.map s.lpServiceName = some s.entry.1 := by
    apply keyOf_eq_some h
    intro k hk
    obtain ⟨t, ht, heq⟩ := ServiceList.exists_of_map hk
    obtain rfl := ServiceList.eq_of_name ht hs (congrArg Prod.snd heq)
    exact (congrArg Prod.fst heq).symm
  rw [findPid, hkey, Option.getD_some, ServiceList.key hs]

theorem map_of_findPid (hs : s ∈ list.services)
    (h : findPid list.map s.lpServiceName = s.dwProcessId.toNat) :
    list.map[s.entry.1]? = some s.lpServiceName := by
  unfold findPid at h
  cases hkey : keyOf list.map s.lpServiceName with
  | none =>
    rw [hkey, Option.getD_none] at h
    omega
  | some k =>
    rw [hkey, Option.getD_some] at h
    rw [ServiceList.key hs, ← h]
    exact getElem?_of_keyOf hkey

end Lookup

/-! ## Which services are found -/

/-- Every running service is found by its name, and a name that is not that of a running service is
refused. -/
def FindsRunning (list : ServiceList) : Prop :=
  (∀ s ∈ list.services, s.dwProcessId ≠ 0 →
    findPid list.map s.lpServiceName = s.dwProcessId.toNat) ∧
  ∀ name, (∀ s ∈ list.services, s.lpServiceName = name → s.dwProcessId = 0) →
    ∀ getProcPathByPid strPath,
      (getSetupPathBySvrName ⟨true, true, some list, getProcPathByPid⟩ name strPath).1 = dtkError

/-- A name that is not that of a running service is refused, whatever else is in the list. -/
theorem refused_of_not_running {list : ServiceList} {name : Text}
    (h : ∀ s ∈ list.services, s.lpServiceName = name → s.dwProcessId = 0)
    (getProcPathByPid : UInt32 → Option Text) (strPath : Text) :
    (getSetupPathBySvrName ⟨true, true, some list, getProcPathByPid⟩ name strPath).1 = dtkError := by
  have hpid : findPid list.map name < 0 ∨ findPid list.map name = 0 := by
    unfold findPid
    cases hkey : keyOf list.map name with
    | none => exact .inl (by decide)
    | some k =>
      obtain ⟨s, hs, heq⟩ := ServiceList.exists_of_map (getElem?_of_keyOf hkey)
      have hzero := h s hs (congrArg Prod.snd heq)
      have hk : s.entry.1 = k := congrArg Prod.fst heq
      rw [ServiceList.key hs, hzero] at hk
      exact .inr hk.symm
  show (if findPid list.map name < 0 then (dtkError, strPath) else _).1 = dtkError
  split
  · rfl
  next hneg => exact congrArg Prod.fst (if_pos (hpid.resolve_left hneg))

/-- **Every running service can be found by name** exactly when no two of them share a process. -/
theorem findsRunning_iff (list : ServiceList) :
    FindsRunning list ↔ ∀ s ∈ list.services, ∀ t ∈ list.services,
      s.dwProcessId ≠ 0 → s.dwProcessId = t.dwProcessId → s = t := by
  constructor
  · rintro ⟨hfound, -⟩ s hs t ht hrun hsame
    have hmaps := map_of_findPid hs (hfound s hs hrun)
    have hmapt := map_of_findPid ht (hfound t ht (hsame ▸ hrun))
    have hkey : s.entry.1 = t.entry.1 := by
      rw [ServiceList.key hs, ServiceList.key ht, hsame]
    rw [hkey, hmapt] at hmaps
    exact (ServiceList.eq_of_name ht hs (Option.some.inj hmaps)).symm
  · intro halone
    refine ⟨fun s hs hrun => ?_, fun name => refused_of_not_running⟩
    apply findPid_of_map hs
    apply ServiceList.map_of_alone hs
    intro t ht hsame
    exact (halone s hs t ht hrun hsame.symm).symm

/-- Two services in one process. -/
def sharedProcess : ServiceList where
  services := [⟨['a'], 4⟩, ⟨['b'], 4⟩]
  names := by decide
  pids := by decide

/-- The second is not found, though it runs. -/
theorem shared_not_found :
    findPid sharedProcess.map ['b'] = -1 ∧ ¬ FindsRunning sharedProcess := by
  have hmiss : findPid sharedProcess.map ['b'] = -1 := by rfl
  refine ⟨hmiss, fun h => ?_⟩
  have hfound := h.1 ⟨['b'], 4⟩ (by decide) (by decide)
  rw [hmiss] at hfound
  cases hfound

end AppUtil.WinApi
