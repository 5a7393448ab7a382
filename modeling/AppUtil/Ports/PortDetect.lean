import AppUtil.WinApi.Services
import AppUtil.Lib.Formatting

/-! # The port lists (`CPortDetect`)

Both functions join a table of ports with the processes and the services of the machine and insert what
they find into the map of the caller, where an entry that is already there stays. -/
namespace AppUtil.Ports
open AppUtil.WinApi AppUtil.Lib.FirstStays AppUtil.Lib.Formatting
set_option autoImplicit false

/-- `PMT_PROCESS_NAME_LEN` and `PMT_SERVICE_NAME_LEN`. -/
abbrev processNameLen : ℕ := 256
abbrev serviceNameLen : ℕ := 128

/-- `MIB_TCPROW_OWNER_PID`. -/
structure TcpRow where
  dwState : UInt32
  dwLocalPort : UInt32
  dwOwningPid : UInt32
  deriving DecidableEq, Repr

/-- `MIB_UDPROW_OWNER_PID`. -/
structure UdpRow where
  dwLocalPort : UInt32
  dwOwningPid : UInt32
  deriving DecidableEq, Repr

/-- `PORT_DETAIL_ST`. -/
structure PortDetail where
  iProtocol : ℤ
  iLocalPort : UInt16
  szProcessName : Buffer processNameLen
  szSvrName : Buffer serviceNameLen
  deriving DecidableEq

/-- `PROCESSENTRY32`. -/
structure ProcessEntry where
  th32ProcessID : UInt32
  szExeFile : Text
  deriving DecidableEq, Repr

/-- `std::map<int, PORT_DETAIL_ST>`. -/
abbrev PortMap := Std.TreeMap ℤ PortDetail

/-- What the calls of one function return. `insufficient`: the first `GetExtendedTcpTable` returns
`ERROR_INSUFFICIENT_BUFFER`. A list is `none` where a call that is needed for it fails. -/
structure TableCalls (ρ : Type) where
  newTable : Bool
  insufficient : Bool
  newAgain : Bool
  getExtendedTable : Option (List ρ)
  processes : Option (List ProcessEntry)
  services : Option (List ServiceStatus)

/-- An `int` of the map for a process id. -/
def toInt (dwProcessId : UInt32) : ℤ := dwProcessId.toInt32.toInt

def ProcessEntry.entry (p : ProcessEntry) : ℤ × Text := (toInt p.th32ProcessID, p.szExeFile)

/-- `GetProcInfo`. -/
def getProcInfo (processes : Option (List ProcessEntry)) (mapProcInfo : SvrMap) : ℤ × SvrMap :=
  match processes with
  | none => (dtkError, mapProcInfo)
  | some list => (dtkOk, insertAll mapProcInfo (list.map ProcessEntry.entry))

/-- `GetSvrInfo`, for any list of services. -/
def getSvrInfo (services : Option (List ServiceStatus)) (mapSvrInfo : SvrMap) : ℤ × SvrMap :=
  match services with
  | none => (dtkError, mapSvrInfo)
  | some list => (dtkOk, insertAll mapSvrInfo (list.map ServiceStatus.entry))

/-- The services that the calls of the service control manager return. -/
def enumerated (os : SystemCalls) : Option (List ServiceStatus) :=
  if os.openSCManager && os.newBuf then os.enumServicesStatusEx.map (·.services) else none

theorem getSvrInfo_enumerated (os : SystemCalls) (mapSvrInfo : SvrMap) :
    getSvrInfo (enumerated os) mapSvrInfo = WinApi.getSvrInfo os mapSvrInfo := by
  obtain ⟨open', buf, list, path⟩ := os
  cases open' <;> cases buf <;> cases list <;> rfl

def ntohs (netshort : UInt16) : UInt16 := (netshort <<< 8) ||| (netshort >>> 8)

def tcpStateListen : UInt32 := 2

/-- What the function does in its own way for the rows of its table. -/
structure PortKind (ρ : Type) where
  iProtocol : ℤ
  skips : ρ → Bool
  dwLocalPort : ρ → UInt32
  dwOwningPid : ρ → UInt32

/-- `PMT_PORT_PROTO_TCP`; only the ports that are listened on. -/
def tcp : PortKind TcpRow := ⟨1, fun row => row.dwState ≠ tcpStateListen, (·.dwLocalPort), (·.dwOwningPid)⟩

/-- `PMT_PORT_PROTO_UDP`. -/
def udp : PortKind UdpRow := ⟨2, fun _ => false, (·.dwLocalPort), (·.dwOwningPid)⟩

namespace PortKind
variable {ρ : Type} (kind : PortKind ρ)

def localPort (row : ρ) : UInt16 := ntohs (kind.dwLocalPort row).toUInt16

def key (row : ρ) : ℤ := (kind.localPort row).toNat

/-- The `stPort` of a row. -/
def detail (mapProcInfo mapSvrInfo : SvrMap) (row : ρ) : PortDetail :=
  let stPort : PortDetail := ⟨kind.iProtocol, kind.localPort row, .zero _, .zero _⟩
  let iPid := toInt (kind.dwOwningPid row)
  match mapSvrInfo[iPid]? with
  | some name => { stPort with szSvrName := stPort.szSvrName.snprintf (cstr name) }
  | none =>
    match mapProcInfo[iPid]? with
    | some name => { stPort with szProcessName := stPort.szProcessName.snprintf (cstr name) }
    | none => stPort

/-- The loop over the rows. -/
def insertRows (mapProcInfo mapSvrInfo : SvrMap) (mapPort : PortMap) : List ρ → PortMap
  | [] => mapPort
  | row :: table =>
    if kind.skips row then insertRows mapProcInfo mapSvrInfo mapPort table
    else
      insertRows mapProcInfo mapSvrInfo
        (mapPort.insertIfNew (kind.key row) (kind.detail mapProcInfo mapSvrInfo row)) table

/-- What `GetTcpPortList` and `GetUdpPortList` have in common, with the map they leave. -/
def portList (calls : TableCalls ρ) (mapPort : PortMap) : ℤ × PortMap :=
  if calls.newTable = false then (dtkError, mapPort)
  else if calls.insufficient = true ∧ calls.newAgain = false then (dtkError, mapPort)
  else
    match calls.getExtendedTable with
    | none => (dtkError, mapPort)
    | some table =>
      let (iProc, mapProcInfo) := getProcInfo calls.processes ∅
      if iProc ≠ dtkOk then (dtkError, mapPort)
      else
        let (iSvr, mapSvrInfo) := getSvrInfo calls.services ∅
        if iSvr ≠ dtkOk then (dtkError, mapPort)
        else (dtkOk, kind.insertRows mapProcInfo mapSvrInfo mapPort table)

end PortKind

/-- `GetTcpPortList`. -/
def getTcpPortList : TableCalls TcpRow → PortMap → ℤ × PortMap := tcp.portList

/-- `GetUdpPortList`. -/
def getUdpPortList : TableCalls UdpRow → PortMap → ℤ × PortMap := udp.portList

/-! ## What the tables say -/

/-- The tables of one call. -/
structure Snapshots (ρ : Type) where
  table : List ρ
  processes : List ProcessEntry
  services : List ServiceStatus

/-- The tables, if no call fails. -/
def TableCalls.snapshots {ρ : Type} (calls : TableCalls ρ) : Option (Snapshots ρ) :=
  if calls.newTable && (!calls.insufficient || calls.newAgain) then
    calls.getExtendedTable.bind fun table => calls.processes.bind fun processes =>
      calls.services.map fun services => ⟨table, processes, services⟩
  else none

namespace Snapshots
variable {ρ : Type} (kind : PortKind ρ) (snap : Snapshots ρ)

/-- The first service with the process id. -/
def svrName (pid : UInt32) : Option Text :=
  (snap.services.find? fun s => s.dwProcessId = pid).map (·.lpServiceName)

/-- The first process with the process id. -/
def processName (pid : UInt32) : Option Text :=
  (snap.processes.find? fun p => p.th32ProcessID = pid).map (·.szExeFile)

/-- The first row for the port that is not skipped. -/
def firstRow (port : ℤ) : Option ρ :=
  (snap.table.filter fun row => !kind.skips row).find? fun row => kind.key row = port

/-- The entry names the owner of the row. -/
def NamesOwner (pid : UInt32) (entry : PortDetail) : Prop :=
  match snap.svrName pid with
  | some name => entry.szSvrName.Reads (cstr name) ∧ entry.szProcessName.Reads []
  | none => entry.szSvrName.Reads [] ∧ entry.szProcessName.Reads (cstr ((snap.processName pid).getD []))

/-- The entry is that of the row. -/
structure Carries (row : ρ) (entry : PortDetail) : Prop where
  protocol : entry.iProtocol = kind.iProtocol
  port : entry.iLocalPort = kind.localPort row
  owner : snap.NamesOwner (kind.dwOwningPid row) entry

/-- The name of the owner and the NUL behind it have room in the entry. -/
def OwnerFits (pid : UInt32) : Prop :=
  match snap.svrName pid with
  | some name => (cstr name).length < serviceNameLen
  | none => (cstr ((snap.processName pid).getD [])).length < processNameLen

def mapProcInfo : SvrMap := insertAll ∅ (snap.processes.map ProcessEntry.entry)

def mapSvrInfo : SvrMap := insertAll ∅ (snap.services.map ServiceStatus.entry)

def detail (row : ρ) : PortDetail := kind.detail snap.mapProcInfo snap.mapSvrInfo row

end Snapshots

/-- The map lists the tables: it holds what comes out of an empty one, the keys are the ports of the
rows, and each entry is that of the first row for its port. -/
structure ListsTables {ρ : Type} (kind : PortKind ρ) (snap : Snapshots ρ) (fresh mapPort : PortMap) : Prop where
  renewed : ∀ k : ℤ, mapPort[k]? = fresh[k]?
  keys : ∀ k : ℤ, k ∈ mapPort ↔ ∃ row ∈ snap.table, kind.skips row = false ∧ kind.key row = k
  entries : ∀ (k : ℤ) entry, mapPort[k]? = some entry →
    ∃ row, snap.firstRow kind k = some row ∧ snap.Carries kind row entry

/-- Where the function returns DTK_OK the map lists the tables of this call. -/
def Reflects {ρ : Type} (kind : PortKind ρ) (list : TableCalls ρ → PortMap → ℤ × PortMap)
    (calls : TableCalls ρ) (incoming : PortMap) : Prop :=
  (list calls incoming).1 = dtkOk →
    ∃ snap, calls.snapshots = some snap ∧
      ListsTables kind snap (list calls ∅).2 (list calls incoming).2

end AppUtil.Ports
