import AppUtil.Mq.BrokerUrl
import AppUtil.Ports.Refresh

/-! # Texts in fixed buffers

The address of the web service (`CWsClient::SetWsAddr`) is formatted like the broker url, and like the
names in a port list. A text that has as many characters as its buffer, or more, is cut there and has no
end. -/
namespace AppUtil.Ws
open AppUtil.Lib.Formatting AppUtil.WinApi AppUtil.Ports
set_option autoImplicit false

def urlScheme : Text := "http://".toList
def urlPath : Text := "/ws/testService".toList

/-- What the format makes of the address and the port. -/
def wsText (strIp : Text) (iPort : ℤ) : Text :=
  urlScheme ++ (cstr strIp ++ ':' :: (decimal iPort ++ urlPath))

def szUrl (strIp : Text) (iPort : ℤ) : Buffer 512 := (Buffer.zero 512).snprintf (wsText strIp iPort)

/-- `m_strWsAddr` after `SetWsAddr`. -/
def wsAddr (strIp : Text) (iPort : ℤ) (beyond : Text) : Text := (szUrl strIp iPort).read beyond

section Buffers
variable {strIp : Text} {iPort : ℤ}

theorem nul_notMem_wsText : nul ∉ wsText strIp iPort := by
  have hscheme : nul ∉ urlScheme := by decide
  have hpath : nul ∉ urlPath := by decide
  have hport : nul ∉ ':' :: (decimal iPort ++ urlPath) :=
    List.not_mem_cons_of_ne_of_not_mem (by decide) (List.not_mem_append (nul_notMem_decimal _) hpath)
  exact List.not_mem_append hscheme (List.not_mem_append (nul_notMem_cstr _) hport)

theorem wsText_length :
    (wsText strIp iPort).length = (cstr strIp).length + (decimal iPort).length + 23 := by
  have hscheme : urlScheme.length = 7 := by decide
  have hpath : urlPath.length = 15 := by decide
  rw [wsText, List.length_append, List.length_append, List.length_cons, List.length_append, hscheme, hpath]
  omega

theorem wsAddr_complete_iff (beyond : Text) :
    (szUrl strIp iPort).Terminated ∧ wsAddr strIp iPort beyond = wsText strIp iPort ↔
      (cstr strIp).length + (decimal iPort).length < 489 := by
  unfold wsAddr szUrl
  rw [Buffer.terminated_and_read_iff nul_notMem_wsText, wsText_length]
  omega

/-- The name that a row's entry is given fits, if it is given one. -/
def NameFits (mapProcInfo mapSvrInfo : SvrMap) (dwOwningPid : UInt32) : Prop :=
  match mapSvrInfo[toInt dwOwningPid]? with
  | some name => (cstr name).length < serviceNameLen
  | none => ∀ name, mapProcInfo[toInt dwOwningPid]? = some name → (cstr name).length < processNameLen

theorem terminated_zero {n : ℕ} (h : 0 < n) : (Buffer.zero n).Terminated := (Buffer.reads_zero h).1

theorem detail_terminated_iff {ρ : Type} (kind : PortKind ρ) (mapProcInfo mapSvrInfo : SvrMap) (row : ρ) :
    (kind.detail mapProcInfo mapSvrInfo row).szSvrName.Terminated ∧
      (kind.detail mapProcInfo mapSvrInfo row).szProcessName.Terminated ↔
    NameFits mapProcInfo mapSvrInfo (kind.dwOwningPid row) := by
  unfold NameFits PortKind.detail
  dsimp only
  cases mapSvrInfo[toInt (kind.dwOwningPid row)]? with
  | some name =>
    exact (and_iff_left (terminated_zero (by decide))).trans
      (Buffer.terminated_snprintf_iff (nul_notMem_cstr name))
  | none =>
    cases mapProcInfo[toInt (kind.dwOwningPid row)]? with
    | none => exact iff_of_true ⟨terminated_zero (by decide), terminated_zero (by decide)⟩ nofun
    | some name =>
      refine (and_iff_right (terminated_zero (by decide))).trans
        ((Buffer.terminated_snprintf_iff (nul_notMem_cstr name)).trans ⟨fun h name' hname => ?_, fun h => h name rfl⟩)
      obtain rfl := Option.some.inj hname
      exact h

end Buffers

/-- **Each formatted text is complete and has its end** exactly when it is shorter than its buffer; and the
connections of the manager dial different urls, each complete, exactly when this is so for all their servers
and no two of these agree up to a NUL. -/
theorem formatted_iff (strBrokerUrl strIp : Text) (iPort : ℤ) (mapProcInfo mapSvrInfo : SvrMap)
    (tcpRow : TcpRow) (udpRow : UdpRow) (s : Mq.MqMgr) (beyond : Text → Text) :
    ((Mq.szURI strBrokerUrl).Terminated ∧
        Mq.brokerUrl strBrokerUrl (beyond strBrokerUrl) = Mq.brokerText strBrokerUrl ↔
      (cstr strBrokerUrl).length < 153) ∧
    ((szUrl strIp iPort).Terminated ∧ wsAddr strIp iPort (beyond strIp) = wsText strIp iPort ↔
      (cstr strIp).length + (decimal iPort).length < 489) ∧
    ((tcp.detail mapProcInfo mapSvrInfo tcpRow).szSvrName.Terminated ∧
        (tcp.detail mapProcInfo mapSvrInfo tcpRow).szProcessName.Terminated ↔
      NameFits mapProcInfo mapSvrInfo tcpRow.dwOwningPid) ∧
    ((udp.detail mapProcInfo mapSvrInfo udpRow).szSvrName.Terminated ∧
        (udp.detail mapProcInfo mapSvrInfo udpRow).szProcessName.Terminated ↔
      NameFits mapProcInfo mapSvrInfo udpRow.dwOwningPid) ∧
    (s.DialsApart beyond ↔
      (∀ strMQSvr ∈ s.mapConn, (cstr strMQSvr).length < 153) ∧
      ∀ strMQSvr ∈ s.mapConn, ∀ strMQSvr' ∈ s.mapConn, strMQSvr ≠ strMQSvr' →
        cstr strMQSvr ≠ cstr strMQSvr') :=
  ⟨Mq.brokerUrl_complete_iff _, wsAddr_complete_iff _, detail_terminated_iff tcp mapProcInfo mapSvrInfo tcpRow,
    detail_terminated_iff udp mapProcInfo mapSvrInfo udpRow, s.dialsApart_iff beyond⟩

/-- A server of 250 characters and one more. -/
def longServer (last : Char) : Text := List.replicate 250 'a' ++ [last]

theorem cstr_longServer {last : Char} (h : last ≠ nul) : cstr (longServer last) = longServer last := by
  have hrepeat : nul ∉ List.replicate 250 'a' :=
    fun hmem => absurd (List.eq_of_mem_replicate hmem) (by decide)
  have hlast : nul ∉ [last] := fun hmem => h (List.mem_singleton.mp hmem).symm
  exact cstr_of_notMem (List.not_mem_append hrepeat hlast)

/-- The buffer has no end, and two servers have the same url. -/
theorem long_servers_cut : ¬ (Mq.szURI (longServer '1')).Terminated ∧ longServer '1' ≠ longServer '2' ∧
    Mq.brokerUrl (longServer '1') [] = Mq.brokerUrl (longServer '2') [] := by
  have hlength : ∀ last ≠ nul, 256 ≤ (Mq.brokerText (longServer last)).length := by
    intro last hlast
    rw [Mq.brokerText_length, cstr_longServer hlast, longServer, List.length_append, List.length_replicate,
      List.length_singleton]
    omega
  have htake : ∀ last ≠ nul, (Mq.brokerText (longServer last)).take 256 =
      Mq.uriScheme ++ List.replicate 250 'a' := by
    intro last hlast
    rw [Mq.brokerText, cstr_longServer hlast, longServer, List.append_assoc, ← List.append_assoc]
    refine List.take_left' ?_
    rw [List.length_append, List.length_replicate]
    rfl
  refine ⟨?_, fun h => ?_, ?_⟩
  · rw [Mq.szURI, Buffer.terminated_snprintf_iff Mq.nul_notMem_brokerText]
    exact not_lt.mpr (hlength '1' (by decide))
  · exact absurd (List.append_cancel_left h) (by decide)
  · have hsame : Mq.szURI (longServer '1') = Mq.szURI (longServer '2') :=
      Buffer.snprintf_eq_of_take (hlength '1' (by decide)) (hlength '2' (by decide))
        ((htake '1' (by decide)).trans (htake '2' (by decide)).symm)
    rw [Mq.brokerUrl, hsame]
    rfl

end AppUtil.Ws
