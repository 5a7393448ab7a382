import AppUtil.Lib.Formatting
import AppUtil.Mq.Manager

/-! # The broker url of a connection (`MqConnection::MqConnection`)

The url that a connection dials is formatted into 256 characters on the stack and read from there.
What stands behind them is `beyond`. -/
namespace AppUtil.Mq
open AppUtil.Lib.Formatting
set_option autoImplicit false

def uriScheme : Str := "tcp://".toList

def uriOptions : Str :=
  "?connectionTimeout=5000&soTimeout=10000&maxReconnectAttempts=1&wireFormat.maxInactivityDuration=0".toList

/-- What the format makes of the server. -/
def brokerText (strBrokerUrl : Str) : Str := uriScheme ++ (cstr strBrokerUrl ++ uriOptions)

def szURI (strBrokerUrl : Str) : Buffer 256 := (Buffer.zero 256).snprintf (brokerText strBrokerUrl)

/-- `m_strBrokerUrl`. -/
def brokerUrl (strBrokerUrl beyond : Str) : Str := (szURI strBrokerUrl).read beyond

section BrokerUrl
variable {strBrokerUrl strMQSvr strMQSvr' : Str}

theorem nul_notMem_brokerText : nul ∉ brokerText strBrokerUrl := by
  have hscheme : nul ∉ uriScheme := by decide
  have hoptions : nul ∉ uriOptions := by decide
  exact List.not_mem_append hscheme (List.not_mem_append (nul_notMem_cstr _) hoptions)

theorem brokerText_length : (brokerText strBrokerUrl).length = (cstr strBrokerUrl).length + 103 := by
  have hscheme : uriScheme.length = 6 := by decide
  have hoptions : uriOptions.length = 97 := by decide
  rw [brokerText, List.length_append, List.length_append, hscheme, hoptions]
  omega

theorem brokerText_inj : brokerText strMQSvr = brokerText strMQSvr' ↔ cstr strMQSvr = cstr strMQSvr' := by
  unfold brokerText
  rw [List.append_cancel_left_eq, List.append_cancel_right_eq]

/-- The url is complete for servers of less than 153 characters. -/
theorem brokerUrl_complete_iff (beyond : Str) :
    (szURI strBrokerUrl).Terminated ∧ brokerUrl strBrokerUrl beyond = brokerText strBrokerUrl ↔
      (cstr strBrokerUrl).length < 153 := by
  unfold brokerUrl szURI
  rw [Buffer.terminated_and_read_iff nul_notMem_brokerText, brokerText_length]
  omega

end BrokerUrl

/-! ## The connections of the manager -/

namespace MqMgr

/-- Each connection of the manager was made with its server's url in its buffer, and no two of them dial
the same; `beyond` is what stood behind the buffer when the connection to the server was made. -/
def DialsApart (s : MqMgr) (beyond : Str → Str) : Prop :=
  (∀ strMQSvr ∈ s.mapConn, (szURI strMQSvr).Terminated ∧
    brokerUrl strMQSvr (beyond strMQSvr) = brokerText strMQSvr) ∧
  ∀ strMQSvr ∈ s.mapConn, ∀ strMQSvr' ∈ s.mapConn, strMQSvr ≠ strMQSvr' →
    brokerUrl strMQSvr (beyond strMQSvr) ≠ brokerUrl strMQSvr' (beyond strMQSvr')

theorem dialsApart_iff (s : MqMgr) (beyond : Str → Str) : s.DialsApart beyond ↔
    (∀ strMQSvr ∈ s.mapConn, (cstr strMQSvr).length < 153) ∧
    ∀ strMQSvr ∈ s.mapConn, ∀ strMQSvr' ∈ s.mapConn, strMQSvr ≠ strMQSvr' →
      cstr strMQSvr ≠ cstr strMQSvr' := by
  constructor
  · rintro ⟨hcomplete, hapart⟩
    refine ⟨fun svr hsvr => (brokerUrl_complete_iff _).mp (hcomplete svr hsvr), ?_⟩
    intro svr hsvr svr' hsvr' hne hsame
    apply hapart svr hsvr svr' hsvr' hne
    rw [(hcomplete svr hsvr).2, (hcomplete svr' hsvr').2]
    exact brokerText_inj.mpr hsame
  · rintro ⟨hfits, hapart⟩
    have hcomplete : ∀ svr ∈ s.mapConn, (szURI svr).Terminated ∧
        brokerUrl svr (beyond svr) = brokerText svr :=
      fun svr hsvr => (brokerUrl_complete_iff _).mpr (hfits svr hsvr)
    refine ⟨hcomplete, fun svr hsvr svr' hsvr' hne hsame => hapart svr hsvr svr' hsvr' hne ?_⟩
    rw [(hcomplete svr hsvr).2, (hcomplete svr' hsvr').2] at hsame
    exact brokerText_inj.mp hsame

end MqMgr

end AppUtil.Mq
