import AppUtil.Ports.PortDetect

/-! # Whether a port list is up to date

Nothing that the caller has left in the map is replaced, and a name that fills its buffer has no end
there. -/
namespace AppUtil.Ports
open AppUtil.WinApi AppUtil.Lib.FirstStays AppUtil.Lib.Formatting
set_option autoImplicit false

/-! ## The maps of the snapshots -/

theorem toInt_inj {x y : UInt32} : toInt x = toInt y ↔ x = y := by
  constructor
  · intro h
    have hbits : x.toBitVec = y.toBitVec := BitVec.toInt_inj.mp h
    exact UInt32.toBitVec_inj.mp hbits
  · exact congrArg toInt

section Snapshots
variable {ρ : Type} {kind : PortKind ρ} {snap : Snapshots ρ} {calls : TableCalls ρ}
  {incoming : PortMap} {k : ℤ} {row : ρ} {entry : PortDetail}

/-- A list put into an empty map is searched by its keys. -/
theorem getElem?_of_entries {σ : Type} (list : List σ) (pidOf : σ → UInt32) (nameOf : σ → Text) (pid : UInt32) :
    (insertAll (∅ : SvrMap) (list.map fun s => (toInt (pidOf s), nameOf s)))[toInt pid]? =
      (list.find? fun s => pidOf s = pid).map nameOf := by
  rw [getElem?_insertAll, Std.TreeMap.getElem?_emptyc, Option.none_or, List.find?_map, Option.map_map]
  have hsame : ((fun e : ℤ × Text => decide (e.1 = toInt pid)) ∘ fun s => (toInt (pidOf s), nameOf s)) =
      fun s => decide (pidOf s = pid) := by
    funext s
    exact decide_eq_decide.mpr toInt_inj
  rw [hsame]
  rfl

theorem Snapshots.getElem?_mapSvrInfo (pid : UInt32) : snap.mapSvrInfo[toInt pid]? = snap.svrName pid :=
  getElem?_of_entries snap.services (·.dwProcessId) (·.lpServiceName) pid

theorem Snapshots.getElem?_mapProcInfo (pid : UInt32) :
    snap.mapProcInfo[toInt pid]? = snap.processName pid :=
  getElem?_of_entries snap.processes (·.th32ProcessID) (·.szExeFile) pid

/-! ## The map that is left -/

/-- The rows that are not skipped, as entries. -/
theorem PortKind.insertRows_eq (mapProcInfo mapSvrInfo : SvrMap) (table : List ρ) (mapPort : PortMap) :
    kind.insertRows mapProcInfo mapSvrInfo mapPort table =
      insertAll mapPort ((table.filter fun row => !kind.skips row).map fun row =>
        (kind.key row, kind.detail mapProcInfo mapSvrInfo row)) := by
  induction table generalizing mapPort with
  | nil => rfl
  | cons row table ih =>
    rw [PortKind.insertRows]
    cases hskip : kind.skips row with
    | true =>
      rw [if_pos rfl, ih, List.filter_cons_of_neg (by rw [hskip]; decide)]
    | false =>
      rw [if_neg (by decide), ih, List.filter_cons_of_pos (by rw [hskip]; rfl), List.map_cons, insertAll]

/-- What the loop leaves of the incoming map. -/
def Snapshots.ports (kind : PortKind ρ) (snap : Snapshots ρ) (incoming : PortMap) : PortMap :=
  kind.insertRows snap.mapProcInfo snap.mapSvrInfo incoming snap.table

theorem Snapshots.getElem?_ports (k : ℤ) : (snap.ports kind incoming)[k]? =
    incoming[k]?.or ((snap.firstRow kind k).map (snap.detail kind)) := by
  rw [Snapshots.ports, PortKind.insertRows_eq, getElem?_insertAll, List.find?_map, Option.map_map]
  rfl

theorem Snapshots.getElem?_ports_empty (k : ℤ) :
    (snap.ports kind ∅)[k]? = (snap.firstRow kind k).map (snap.detail kind) := by
  rw [Snapshots.getElem?_ports, Std.TreeMap.getElem?_emptyc, Option.none_or]

theorem Snapshots.exists_firstRow_iff : (∃ row, snap.firstRow kind k = some row) ↔
    ∃ row ∈ snap.table, kind.skips row = false ∧ kind.key row = k := by
  unfold Snapshots.firstRow
  rw [← Option.isSome_iff_exists, List.find?_isSome]
  simp [and_assoc]

/-- The function fails, or has all its tables and leaves their entries. -/
theorem PortKind.portList_eq : kind.portList calls incoming =
    (calls.snapshots.map fun snap => (dtkOk, snap.ports kind incoming)).getD (dtkError, incoming) := by
  obtain ⟨newTable, insufficient, newAgain, table, processes, services⟩ := calls
  cases newTable <;> cases insufficient <;> cases newAgain <;> cases table <;> cases processes <;>
    cases services <;> rfl

theorem PortKind.portList_ok (h : (kind.portList calls incoming).1 = dtkOk) :
    ∃ snap, calls.snapshots = some snap := by
  rw [PortKind.portList_eq] at h
  cases hsnap : calls.snapshots with
  | none =>
    rw [hsnap] at h
    have hne : dtkError = dtkOk := h
    exact absurd hne (by decide)
  | some snap => exact ⟨snap, rfl⟩

theorem PortKind.portList_of_snapshots (h : calls.snapshots = some snap) (incoming : PortMap) :
    kind.portList calls incoming = (dtkOk, snap.ports kind incoming) := by
  rw [PortKind.portList_eq, h]
  rfl

/-! ## The entry of a row -/

/-- The owner is named exactly where its name has room. -/
theorem Snapshots.namesOwner_detail_iff :
    snap.NamesOwner (kind.dwOwningPid row) (snap.detail kind row) ↔ snap.OwnerFits (kind.dwOwningPid row) := by
  unfold Snapshots.NamesOwner Snapshots.OwnerFits Snapshots.detail PortKind.detail
  dsimp only
  rw [Snapshots.getElem?_mapSvrInfo, Snapshots.getElem?_mapProcInfo]
  cases snap.svrName (kind.dwOwningPid row) with
  | some name =>
    exact (and_iff_left (Buffer.reads_zero (by decide))).trans
      (Buffer.reads_snprintf_iff (nul_notMem_cstr name))
  | none =>
    cases snap.processName (kind.dwOwningPid row) with
    | some name =>
      exact (and_iff_right (Buffer.reads_zero (by decide))).trans
        (Buffer.reads_snprintf_iff (nul_notMem_cstr name))
    | none =>
      -- nothing is written, and nothing is what there is to name
      exact iff_of_true ⟨Buffer.reads_zero (by decide), Buffer.reads_zero (by decide)⟩ (by decide)

theorem Snapshots.carries_detail_iff :
    snap.Carries kind row (snap.detail kind row) ↔ snap.OwnerFits (kind.dwOwningPid row) := by
  have hprotocol : (snap.detail kind row).iProtocol = kind.iProtocol ∧
      (snap.detail kind row).iLocalPort = kind.localPort row := by
    unfold Snapshots.detail PortKind.detail
    dsimp only
    split
    · exact ⟨rfl, rfl⟩
    · split <;> exact ⟨rfl, rfl⟩
  exact ⟨fun h => namesOwner_detail_iff.mp h.owner,
    fun h => ⟨hprotocol.1, hprotocol.2, namesOwner_detail_iff.mpr h⟩⟩

/-! ## When the list is up to date -/

/-- The map that comes in holds nothing but entries that this call would make. -/
def Snapshots.UpToDate (kind : PortKind ρ) (snap : Snapshots ρ) (incoming : PortMap) : Prop :=
  ∀ (k : ℤ) entry, incoming[k]? = some entry →
    ∃ row, snap.firstRow kind k = some row ∧ snap.detail kind row = entry

/-- The first row for each port has an owner whose name has room. -/
def Snapshots.OwnersFit (kind : PortKind ρ) (snap : Snapshots ρ) : Prop :=
  ∀ k row, snap.firstRow kind k = some row → snap.OwnerFits (kind.dwOwningPid row)

theorem Snapshots.renewed_iff :
    (∀ k : ℤ, (snap.ports kind incoming)[k]? = (snap.ports kind ∅)[k]?) ↔ snap.UpToDate kind incoming := by
  constructor
  · intro h k entry hentry
    have hk := h k
    rw [Snapshots.getElem?_ports, Snapshots.getElem?_ports_empty, hentry, Option.some_or] at hk
    exact Option.map_eq_some_iff.mp hk.symm
  · intro h k
    rw [Snapshots.getElem?_ports, Snapshots.getElem?_ports_empty]
    cases hk : incoming[k]? with
    | none => rw [Option.none_or]
    | some entry =>
      obtain ⟨row, hrow, rfl⟩ := h k entry hk
      rw [Option.some_or, hrow, Option.map_some]

/-- Of the tables alone: what comes out of an empty map. -/
theorem Snapshots.listsTables_iff :
    ListsTables kind snap (snap.ports kind ∅) (snap.ports kind incoming) ↔
      snap.UpToDate kind incoming ∧ snap.OwnersFit kind := by
  constructor
  · intro h
    refine ⟨renewed_iff.mp h.renewed, fun k row hrow => ?_⟩
    have hentry : (snap.ports kind incoming)[k]? = some (snap.detail kind row) := by
      rw [h.renewed, getElem?_ports_empty, hrow, Option.map_some]
    obtain ⟨row', hrow', hcarries⟩ := h.entries k _ hentry
    obtain rfl := Option.some.inj (hrow.symm.trans hrow')
    exact carries_detail_iff.mp hcarries
  · rintro ⟨hfresh, hfit⟩
    have hrenewed := renewed_iff.mpr hfresh
    refine ⟨hrenewed, fun k => ?_, fun k entry hentry => ?_⟩
    · rw [← exists_firstRow_iff, ← Std.TreeMap.isSome_getElem?_iff_mem, hrenewed, getElem?_ports_empty,
        Option.isSome_map, Option.isSome_iff_exists]
    · rw [hrenewed, getElem?_ports_empty] at hentry
      obtain ⟨row, hrow, rfl⟩ := Option.map_eq_some_iff.mp hentry
      exact ⟨row, hrow, carries_detail_iff.mpr (hfit k row hrow)⟩

theorem PortKind.reflects_iff : Reflects kind kind.portList calls incoming ↔
    ∀ snap, calls.snapshots = some snap → snap.UpToDate kind incoming ∧ snap.OwnersFit kind := by
  constructor
  · intro h snap hsnap
    obtain ⟨snap', hsnap', hlists⟩ := h (congrArg Prod.fst (portList_of_snapshots hsnap incoming))
    obtain rfl := Option.some.inj (hsnap.symm.trans hsnap')
    rw [portList_of_snapshots hsnap, portList_of_snapshots hsnap] at hlists
    exact Snapshots.listsTables_iff.mp hlists
  · intro h hok
    obtain ⟨snap, hsnap⟩ := portList_ok hok
    refine ⟨snap, hsnap, ?_⟩
    rw [portList_of_snapshots hsnap, portList_of_snapshots hsnap]
    exact Snapshots.listsTables_iff.mpr (h snap hsnap)

end Snapshots

/-- **A port list reflects the tables of its call** exactly when the map that comes in holds nothing that
this call would not put there, and no name of an owner fills its buffer. -/
theorem portLists_reflect_iff (tcpCalls : TableCalls TcpRow) (udpCalls : TableCalls UdpRow)
    (incoming : PortMap) :
    (Reflects tcp getTcpPortList tcpCalls incoming ↔
      ∀ snap, tcpCalls.snapshots = some snap → snap.UpToDate tcp incoming ∧ snap.OwnersFit tcp) ∧
    (Reflects udp getUdpPortList udpCalls incoming ↔
      ∀ snap, udpCalls.snapshots = some snap → snap.UpToDate udp incoming ∧ snap.OwnersFit udp) :=
  ⟨PortKind.reflects_iff, PortKind.reflects_iff⟩

/-- No port is listened on, and the map still has one of an earlier call. -/
def quietMachine : TableCalls TcpRow where
  newTable := true
  insufficient := false
  newAgain := true
  getExtendedTable := some []
  processes := some []
  services := some []

def staleEntry : PortDetail := ⟨1, 80, .zero _, .zero _⟩

def stalePorts : PortMap := (∅ : PortMap).insertIfNew 80 staleEntry

theorem stale_port_stays : (getTcpPortList quietMachine stalePorts).1 = dtkOk ∧
    (getTcpPortList quietMachine stalePorts).2[(80 : ℤ)]? = some staleEntry ∧
    ¬ Reflects tcp getTcpPortList quietMachine stalePorts := by
  have hstale : stalePorts[(80 : ℤ)]? = some staleEntry := by
    rw [stalePorts, Std.TreeMap.getElem?_insertIfNew]
    rfl
  refine ⟨rfl, hstale, fun h => ?_⟩
  obtain ⟨snap, hsnap, hlists⟩ := h rfl
  cases hsnap
  have hkey := (hlists.keys 80).mp (Std.TreeMap.isSome_getElem?_iff_mem.mp (by
    show (stalePorts[(80 : ℤ)]?).isSome = true
    rw [hstale]
    rfl))
  obtain ⟨row, hrow, -⟩ := hkey
  exact List.not_mem_nil hrow

end AppUtil.Ports
