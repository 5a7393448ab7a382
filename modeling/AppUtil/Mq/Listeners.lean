import AppUtil.Mq.CallLog
import AppUtil.Mq.Consumers

/-! # Receiving messages (`MqConsumer::onMessage`)

The library calls the object that `setMessageListener` was given, for as long as the CMS consumer and
its session are there. Between the operations of the manager any message may come to any consumer. -/
namespace AppUtil.Mq
open AppUtil.Lib AppUtil.Lib.Lifetime
open AppUtil.Lib.Formatting (cstr)
set_option autoImplicit false

/-- A message as `onMessage` meets it: whether it is a `BytesMessage`, its body, and what throws. -/
structure Message where
  isBytes : Bool
  body : Str
  bytesThrows : Bool
  lengthThrows : Bool
  cbThrows : Bool
  deriving DecidableEq, Repr

/-- A call of `m_pMsgCb`. -/
structure CbCall where
  pfnMsgCb : ℕ
  pMsg : Str
  uMsgLen : ℕ
  pUser : ℕ
  deriving DecidableEq, Repr

/-- What one `onMessage` did: the callback it made, and whether the buffer of the body is still
allocated afterwards. -/
structure Reception where
  call : Option CbCall
  bufferKept : Bool
  deriving DecidableEq, Repr

/-- `MqConsumer::onMessage`. An exception jumps over `delete[]`. -/
def MqEndpoint.onMessage (ep : MqEndpoint) (message : Message) : Reception :=
  if message.isBytes = false then
    ⟨none, false⟩
  else if message.bytesThrows then
    ⟨none, false⟩
  else
    match ep.pMsgCb with
    | none => ⟨none, false⟩
    | some pfnMsgCb =>
      if message.lengthThrows then
        ⟨none, true⟩
      else
        ⟨some ⟨pfnMsgCb, message.body, message.body.length, ep.pUser⟩, message.cbThrows⟩

/-- A call of `AddConsumer` that made an object, and the address of the object. -/
structure Request where
  ptr : ℕ
  strUrl : Str
  pfnMsgCb : Option ℕ
  pUser : ℕ
  deriving DecidableEq, Repr

/-- The object that the operation made for a consumer, if it did. -/
def MqMgr.newRequests (s s' : MqMgr) : Op → List Request
  | .addConsumer u cb user _ =>
    if s'.mem.ends.next = s.mem.ends.next then [] else [⟨s.mem.ends.next, u, cb, user⟩]
  | _ => []

/-- The CMS consumer whose `setMessageListener` the operation called, with the object it was given. -/
def MqMgr.newListeners (s s' : MqMgr) : Op → List (ℕ × ℕ)
  | .addConsumer _ _ _ env =>
    if env.create = .created then
      ((s'.mem.ends.cell s.mem.ends.next).bind MqEndpoint.pCp).toList.map fun x => (x, s.mem.ends.next)
    else []
  | _ => []

/-- The session that made the producer or consumer. -/
def sessionOf (x : ℕ) : List CmsCall → Option ℕ
  | [] => none
  | .createEndpoint _ s e _ :: log => if e = x then some s else sessionOf x log
  | _ :: log => sessionOf x log

/-- The consumer has been deleted, or its session has. -/
def gone (log : List CmsCall) (x : ℕ) : Bool :=
  decide (.deleteEndpoint x ∈ log) ||
    match sessionOf x log with
    | some s => decide (.deleteSession s ∈ log)
    | none => false

/-- The manager, and the listeners that the library knows of. -/
structure Listening where
  mgr : MqMgr
  requests : List Request
  listeners : List (ℕ × ℕ)
  received : List (ℕ × Reception)

/-- An operation of the manager, or a message for a CMS consumer. -/
inductive Listening.Event where
  | call (op : Op)
  | deliver (x : ℕ) (message : Message)
  deriving DecidableEq, Repr

namespace Listening

def start (closeThrows : ℕ → Bool) : Listening := ⟨MqMgr.init closeThrows, [], [], []⟩

/-- The object that the library calls for a message to the consumer. -/
def listener (w : Listening) (x : ℕ) : Option ℕ :=
  if gone w.mgr.mem.cms.log x then none else (w.listeners.find? fun l => l.1 = x).map Prod.snd

def exec (w : Listening) : Event → Except Fault Listening
  | .call op => do
    let s ← w.mgr.exec op
    pure { w with
      mgr := s
      requests := w.mgr.newRequests s op ++ w.requests
      listeners := w.mgr.newListeners s op ++ w.listeners }
  | .deliver x message =>
    match w.listener x with
    | none => .ok w
    | some e => do
      let ep ← w.mgr.mem.ends.deref e
      pure { w with received := (x, ep.onMessage message) :: w.received }

end Listening

/-! ## What the library may rely on -/

/-- A listener is the object of a request for the destination of its consumer. It is there, and has
the consumer, until the consumer is closed, and is gone afterwards. -/
structure Heard (m : Mem) (requests : List Request) (listeners : List (ℕ × ℕ)) : Prop where
  asked : ∀ rq ∈ requests, rq.ptr < m.ends.next ∧ ∀ ep, m.ends.cell rq.ptr = some ep →
    ep.pMsgCb = rq.pfnMsgCb ∧ ep.pUser = rq.pUser
  one : ∀ rq ∈ requests, ∀ rq' ∈ requests, rq.ptr = rq'.ptr → rq = rq'
  made : ∀ x e, (x, e) ∈ listeners → ∃ rq ∈ requests, rq.ptr = e ∧
    ∃ dst s d, parseMqUri rq.strUrl = some dst ∧ .createEndpoint .consumer s x d ∈ m.cms.log ∧
      .createDestination s d dst.nType (cstr dst.strDstName) ∈ m.cms.log
  live : ∀ x e, (x, e) ∈ listeners → .close x ∉ m.cms.log →
    ∃ ep, m.ends.cell e = some ep ∧ ep.pCp = some x
  dead : ∀ x e, (x, e) ∈ listeners → .close x ∈ m.cms.log → m.ends.cell e = none
  deleted : ∀ x, .close x ∈ m.cms.log → m.cms.closeThrows x = false → .deleteEndpoint x ∈ m.cms.log

namespace Heard
variable {m m' : Mem} {requests : List Request} {listeners : List (ℕ × ℕ)}

theorem old (h : Heard m requests listeners) {x e : ℕ} (hx : (x, e) ∈ listeners) :
    e < m.ends.next := by
  obtain ⟨rq, hrq, rfl, -⟩ := h.made x e hx
  exact (h.asked rq hrq).1

theorem made_mono (h : Heard m requests listeners) (hsub : m.cms.log ⊆ m'.cms.log) {x e : ℕ}
    (hx : (x, e) ∈ listeners) : ∃ rq ∈ requests, rq.ptr = e ∧
      ∃ dst s d, parseMqUri rq.strUrl = some dst ∧ .createEndpoint .consumer s x d ∈ m'.cms.log ∧
        .createDestination s d dst.nType (cstr dst.strDstName) ∈ m'.cms.log := by
  obtain ⟨rq, hrq, hptr, dst, s, d, hp, hcp, hdst⟩ := h.made x e hx
  exact ⟨rq, hrq, hptr, dst, s, d, hp, hsub hcp, hsub hdst⟩

/-- What leaves has been closed, and nothing else has: a closed consumer of a listener was its. -/
theorem shrinks (h : Heard m requests listeners) (hw : m.Wired) (hs : Mem.Shrinks m m') :
    Heard m' requests listeners := by
  refine ⟨fun rq hrq => ?_, h.one, fun x e hx => h.made_mono hs.log.subset hx, fun x e hx hn => ?_,
    fun x e hx hc => ?_, fun x hc ht => hs.log.deletes h.deleted hc ht⟩
  · obtain ⟨hlt, hep⟩ := h.asked rq hrq
    rw [hs.endsNext]
    exact ⟨hlt, fun ep he => hep ep (hs.ends rq.ptr ep he)⟩
  · obtain ⟨ep, he, hcp⟩ := h.live x e hx fun hc => hn (hs.log.subset hc)
    cases he' : m'.ends.cell e with
    | none => exact absurd (hs.closed e ep x he hcp he') hn
    | some ep' =>
      obtain rfl := Option.some.inj ((hs.ends e ep' he').symm.trans he)
      exact ⟨ep', rfl, hcp⟩
  · by_cases hold : .close x ∈ m.cms.log
    · cases he' : m'.ends.cell e with
      | none => rfl
      | some ep' =>
        have hnone := h.dead x e hx hold
        rw [hs.ends e ep' he'] at hnone
        cases hnone
    · -- no other object holds the consumer that has been closed
      obtain ⟨a, ap, ha, hxa, hgone⟩ := (hs.log.closes hc).resolve_left hold
      obtain ⟨ep, he, hcp⟩ := h.live x e hx hold
      obtain rfl := hw.oneHolder a e ap ep x ha he (Or.inr hxa) (Or.inr hcp)
      exact hgone

/-- Nothing is closed that has not been made. -/
theorem close_old (hw : m.Wired) {x : ℕ} (hx : .close x ∈ m.cms.log) : x < m.cms.next := by
  have hborn : Born m.cms.events (.child x) := by
    have hmem := List.mem_map_of_mem (f := CmsCall.event m.cms.closeThrows) hx
    simp only [CmsCall.event] at hmem
    by_cases ht : m.cms.closeThrows x = true
    · rw [if_pos ht] at hmem
      exact hw.disciplined.born_of_died hmem
    · rw [if_neg ht] at hmem
      exact hw.disciplined.born_of_used hmem
  obtain ⟨p, hp⟩ := hborn
  exact hw.fresh _ p hp

theorem gains (h : Heard m requests listeners) {kind : EndKind} {strName : Str} {nType : MqMsgMode}
    {cb : Option ℕ} {user : ℕ} (hg : Mem.Gains m kind strName nType cb user m') :
    Heard m' requests listeners := by
  have hsame : ∀ {e}, e < m.ends.next → m'.ends.cell e = m.ends.cell e :=
    fun hlt => hg.other _ (Nat.ne_of_lt hlt)
  have hclose : ∀ {x}, .close x ∈ m'.cms.log → .close x ∈ m.cms.log :=
    fun hx => (hg.log.closes hx).resolve_right id
  refine ⟨fun rq hrq => ?_, h.one, fun x e hx => h.made_mono hg.log.subset hx, fun x e hx hn => ?_,
    fun x e hx hc => ?_, fun x hc ht => hg.log.deletes h.deleted hc ht⟩
  · obtain ⟨hlt, hep⟩ := h.asked rq hrq
    rw [hg.endsNext, hsame hlt]
    exact ⟨by omega, hep⟩
  · rw [hsame (h.old hx)]
    exact h.live x e hx fun hc => hn (hg.log.subset hc)
  · rw [hsame (h.old hx)]
    exact h.dead x e hx (hclose hc)

/-- A new consumer and its listener. -/
theorem gains_consumer (h : Heard m requests listeners) (hw : m.Wired) {u : Str} {d : Dst}
    {cb : Option ℕ} {user : ℕ} (hp : parseMqUri u = some d)
    (hg : Mem.Gains m .consumer d.strDstName d.nType cb user m') {new : List (ℕ × ℕ)}
    (hnew : ∀ x e, (x, e) ∈ new → e = m.ends.next ∧ ∃ ep, m'.ends.cell e = some ep ∧ ep.pCp = some x) :
    Heard m' (⟨m.ends.next, u, cb, user⟩ :: requests) (new ++ listeners) := by
  have h' := h.gains hg
  obtain ⟨ep, hep, hcb, huser, hmade⟩ := hg.self
  have hmem : ∀ {x e}, (x, e) ∈ new → e = m.ends.next ∧ ep.pCp = some x := by
    intro x e hx
    obtain ⟨rfl, ep', hep', hcp⟩ := hnew x e hx
    obtain rfl := Option.some.inj (hep.symm.trans hep')
    exact ⟨rfl, hcp⟩
  refine ⟨fun rq hrq => ?_, fun rq hrq rq' hrq' hptr => ?_, fun x e hx => ?_, fun x e hx hn => ?_,
    fun x e hx hc => ?_, h'.deleted⟩
  · rcases List.mem_cons.mp hrq with rfl | hrq
    · refine ⟨by rw [hg.endsNext]; exact Nat.lt_succ_self _, fun ep' hep' => ?_⟩
      obtain rfl := Option.some.inj (hep.symm.trans hep')
      exact ⟨hcb, huser⟩
    · exact h'.asked rq hrq
  · -- the address is new
    have hne : ∀ rq ∈ requests, rq.ptr ≠ m.ends.next := fun rq hrq => Nat.ne_of_lt (h.asked rq hrq).1
    rcases List.mem_cons.mp hrq with rfl | hrq
    · rcases List.mem_cons.mp hrq' with rfl | hrq'
      · rfl
      · exact absurd hptr.symm (hne rq' hrq')
    · rcases List.mem_cons.mp hrq' with rfl | hrq'
      · exact absurd hptr (hne rq hrq)
      · exact h.one rq hrq rq' hrq' hptr
  · rcases List.mem_append.mp hx with hx | hx
    · obtain ⟨rfl, hcp⟩ := hmem hx
      obtain ⟨-, s, k, hend, hdst⟩ := hmade x hcp
      exact ⟨_, List.mem_cons_self .., rfl, d, s, k, hp, hend, hdst⟩
    · obtain ⟨rq, hrq, hrest⟩ := h'.made x e hx
      exact ⟨rq, List.mem_cons_of_mem _ hrq, hrest⟩
  · rcases List.mem_append.mp hx with hx | hx
    · obtain ⟨rfl, hcp⟩ := hmem hx
      exact ⟨ep, hep, hcp⟩
    · exact h'.live x e hx hn
  · rcases List.mem_append.mp hx with hx | hx
    · obtain ⟨-, hcp⟩ := hmem hx
      have hold := close_old hw ((hg.log.closes hc).resolve_right id)
      exact absurd hold (Nat.not_lt.mpr (hmade x hcp).1)
    · exact h'.dead x e hx hc

end Heard

namespace MqMgr
variable {s s' : MqMgr}

/-! ## Operations of the manager -/

/-- What takes a connection down deletes its endpoints. -/
theorem takeDown_shrinks {c : ℕ} (ho : s.mem.Owned)
    (hx : (do
      let m ← s.mem.disConn c
      { s with mem := m }.deleteConn c) = Except.ok s') : Mem.Shrinks s.mem s'.mem := by
  obtain ⟨m, hm, hdel⟩ := bind_eq_ok.mp hx
  obtain ⟨m₀, hd₀, -⟩ := bind_eq_ok.mp hm
  obtain ⟨co, hc, -⟩ := bind_eq_ok.mp hd₀
  have hc := Heap.deref_eq_ok.mp hc
  apply (Mem.disConn_shrinks hc (ho.nodup c co hc) (ho.live c co hc) hm).trans
  obtain ⟨conns, -, hdel⟩ := bind_eq_ok.mp hdel
  cases hdel
  exact .of_ends rfl (.refl _ _)

theorem addConnection_shrinks {svr : Str} {env : Env} {p : Option ℕ}
    (hx : s.addConnection svr env = .ok (p, s')) : Mem.Shrinks s.mem s'.mem := by
  unfold addConnection at hx
  cases hl : s.mapConn.lookup svr with
  | some c =>
    simp only [hl] at hx
    cases hx
    exact .refl _
  | none =>
    simp only [hl] at hx
    by_cases hnew : env.newConn = false
    · rw [if_pos hnew] at hx
      cases hx
      exact .refl _
    · rw [if_neg hnew] at hx
      obtain ⟨⟨bRet, m₁⟩, hconn, hx⟩ := bind_eq_ok.mp hx
      have hshrink : Mem.Shrinks s.mem m₁ := by
        set m₀ : Mem := { s.mem with conns := s.mem.conns.alloc MqConnection.new } with hm₀
        have hstart : Mem.Shrinks s.mem m₀ := .of_ends rfl (.refl _ _)
        exact hstart.trans (Mem.conn_shrinks hconn)
      cases bRet with
      | true =>
        cases hx
        exact hshrink
      | false =>
        obtain ⟨m₂, hdis, hx⟩ := bind_eq_ok.mp hx
        obtain ⟨s₂, hdelc, hx⟩ := bind_eq_ok.mp hx
        obtain ⟨-, rfl⟩ := Prod.mk.inj (Except.ok.inj hx)
        apply hshrink.trans
        -- the new connection has no endpoints
        have hc₀ : (s.mem.conns.alloc MqConnection.new).cell s.mem.conns.next = some MqConnection.new :=
          Heap.alloc_cell_next ..
        obtain ⟨m₁', k, ss, hconn', -, -, -, hcell⟩ :=
          Mem.conn_ok (m := { s.mem with conns := s.mem.conns.alloc MqConnection.new }) env.conn hc₀
        obtain ⟨-, rfl⟩ := Prod.mk.inj (Except.ok.inj (hconn.symm.trans hconn'))
        have hc₁ := (hcell s.mem.conns.next).trans (if_pos rfl)
        refine (Mem.disConn_shrinks hc₁ List.nodup_nil nofun hdis).trans ?_
        obtain ⟨conns, -, hdelc⟩ := bind_eq_ok.mp hdelc
        cases hdelc
        exact .of_ends rfl (.refl _ _)

theorem delEnd_owned {m : Mem} {kind : EndKind} {strName : Str} {nType : MqMsgMode} {c : ℕ}
    {co : MqConnection} {r : Bool} (ho : s.mem.Owned) (hc : s.mem.conns.cell c = some co)
    (hx : s.mem.delEnd c kind strName nType = .ok (r, m)) : m.Owned := by
  cases hfind : (co.list kind).find? (s.mem.isMatch strName nType) with
  | none =>
    rw [Mem.delEnd_none kind hc (ho.live c co hc) hfind] at hx
    cases Except.ok.inj hx
    exact ho
  | some e =>
    obtain ⟨m', hx', hr⟩ := Mem.delEnd_some kind hc (ho.live c co hc) hfind
    obtain ⟨-, rfl⟩ := Prod.mk.inj (Except.ok.inj (hx.symm.trans hx'))
    exact ho.removed hc (List.mem_of_find?_eq_some hfind) hr

theorem delFromConn_shrinks (hs : s.Owned) {kind : EndKind} {d : Dst}
    (hx : s.delFromConn kind d = .ok s') : Mem.Shrinks s.mem s'.mem := by
  cases hl : s.mapConn.lookup d.strMQSvr with
  | none =>
    simp only [delFromConn, hl] at hx
    cases hx
    exact .refl _
  | some c =>
    obtain ⟨co, hc⟩ := hs.connLive _ c hl
    rw [delFromConn_eq hl] at hx
    obtain ⟨⟨r, m⟩, hdel, hx⟩ := bind_eq_ok.mp hx
    have hshrink := Mem.delEnd_shrinks kind hc (hs.mem.live c co hc) hdel
    cases r with
    | false =>
      cases hx
      exact hshrink
    | true =>
      apply hshrink.trans
      obtain ⟨m₁, hdis, hx⟩ := bind_eq_ok.mp hx
      obtain ⟨s₂, hdelc, hx⟩ := bind_eq_ok.mp hx
      have hdown : Mem.Shrinks m s₂.mem := by
        apply takeDown_shrinks (s := { s with mem := m }) (c := c) (delEnd_owned hs.mem hc hdel)
        rw [hdis, ok_bind]
        exact hdelc
      cases hx
      exact hdown

theorem delProducer_shrinks (hs : s.Owned) {u : Str} {r : ℤ} (hx : s.delProducer u = .ok (r, s')) :
    Mem.Shrinks s.mem s'.mem := by
  unfold delProducer at hx
  cases hp : parseMqUri u with
  | none =>
    simp only [hp] at hx
    cases hx
    exact .refl _
  | some d =>
    simp only [hp] at hx
    obtain ⟨s₁, hdel, hx⟩ := bind_eq_ok.mp hx
    have hshrink := delFromConn_shrinks hs hdel
    cases hx
    exact hshrink

theorem delConsumer_shrinks (hs : s.Owned) {u : Str} {r : ℤ} (hx : s.delConsumer u = .ok (r, s')) :
    Mem.Shrinks s.mem s'.mem := by
  unfold delConsumer at hx
  cases hp : parseMqUri u with
  | none =>
    simp only [hp] at hx
    cases hx
    exact .refl _
  | some d =>
    simp only [hp] at hx
    obtain ⟨s₁, hdel, hx⟩ := bind_eq_ok.mp hx
    cases hx
    exact delFromConn_shrinks hs hdel

theorem onException_shrinks (hs : s.Owned) {svr : Str} (hx : s.onException svr = .ok s') :
    Mem.Shrinks s.mem s'.mem := by
  unfold onException at hx
  cases hl : s.mapConn.lookup svr with
  | none =>
    simp only [hl] at hx
    cases hx
    exact .refl _
  | some c =>
    simp only [hl] at hx
    obtain ⟨co, hc⟩ := hs.connLive _ c hl
    obtain ⟨m, hm, hx⟩ := bind_eq_ok.mp hx
    cases hx
    exact Mem.disConn_shrinks hc (hs.mem.nodup c co hc) (hs.mem.live c co hc) hm

theorem sendOn_shrinks {pPro : Option ℕ} {msg : Str} {env : Env} {r : ℤ}
    (hx : s.sendOn pPro msg env = .ok (r, s')) : Mem.Shrinks s.mem s'.mem := by
  cases pPro with
  | none => cases hx
  | some p =>
    obtain ⟨⟨b, m⟩, hsend, hx⟩ := bind_eq_ok.mp hx
    cases hx
    exact Mem.sendMsg_shrinks hsend

/-- Either nothing is added, or one endpoint is to what is left when the connection is there. -/
theorem addTo_gains (hs : s.Owned) (hw : s.mem.Wired) {kind : EndKind} {d : Dst} {cb : Option ℕ}
    {user : ℕ} {env : Env} {p : Option ℕ} (hx : s.addTo kind d cb user env = .ok (p, s')) :
    ∃ m, m.Wired ∧ Mem.Shrinks s.mem m ∧ ((p = none ∧ s'.mem = m) ∨
      (p = some m.ends.next ∧ Mem.Gains m kind d.strDstName d.nType cb user s'.mem)) := by
  obtain ⟨⟨pConn, s₁⟩, hconn, hx⟩ := bind_eq_ok.mp hx
  refine ⟨s₁.mem, addConnection_wired hs hw hconn, addConnection_shrinks hconn, ?_⟩
  cases pConn with
  | none =>
    cases hx
    exact Or.inl ⟨rfl, rfl⟩
  | some c =>
    obtain ⟨⟨e, m⟩, hadd, hx⟩ := bind_eq_ok.mp hx
    cases hx
    exact Mem.addEnd_gains kind d.strDstName d.nType cb user hadd

/-- What `AddProducer` does to the memory. -/
theorem addProducer_changes (hs : s.Owned) (hw : s.mem.Wired) {u : Str} {env : Env} {r : ℤ}
    (hx : s.addProducer u env = .ok (r, s')) : ∃ m, m.Wired ∧ Mem.Shrinks s.mem m ∧
      (s'.mem = m ∨ ∃ d : Dst, Mem.Gains m .producer d.strDstName d.nType none 0 s'.mem) := by
  cases hp : parseMqUri u with
  | none =>
    simp only [addProducer, hp] at hx
    cases hx
    exact ⟨s.mem, hw, .refl _, Or.inl rfl⟩
  | some d =>
    cases hu : s.mapProcucer.lookup u with
    | some pPro =>
      simp only [addProducer, hp, hasProducer, hu] at hx
      cases hx
      exact ⟨s.mem, hw, .refl _, Or.inl rfl⟩
    | none =>
      rw [addProducer_eq env hp hu] at hx
      obtain ⟨⟨p, s₁⟩, hadd, hx⟩ := bind_eq_ok.mp hx
      have hmem : s'.mem = s₁.mem := by
        cases p with
        | none =>
          cases hx
          rfl
        | some p =>
          cases hx
          rfl
      obtain ⟨m, hwm, hshrink, ⟨-, hsame⟩ | ⟨-, hg⟩⟩ := addTo_gains hs hw hadd
      · exact ⟨m, hwm, hshrink, Or.inl (hmem.trans hsame)⟩
      · exact ⟨m, hwm, hshrink, Or.inr ⟨d, hmem ▸ hg⟩⟩

/-- `SendMsg` is `AddProducer`, if it is called at all, and calls to the library. -/
theorem sendMsg_changes (hs : s.Owned) (hw : s.mem.Wired) {u msg : Str} {env : Env} {r : ℤ}
    (hx : s.sendMsg u msg env = .ok (r, s')) : ∃ s₁ : MqMgr, s₁.mem.Wired ∧
      (s₁ = s ∨ ∃ r₁, s.addProducer u env = .ok (r₁, s₁)) ∧ Mem.Shrinks s₁.mem s'.mem := by
  obtain ⟨⟨r₁, s₁⟩, hcached, hx⟩ := bind_eq_ok.mp hx
  unfold sendCached at hcached
  cases hu : s.mapProcucer.lookup u with
  | some pPro =>
    simp only [hu] at hcached
    obtain ⟨⟨r₂, s₂⟩, hon, hr⟩ := bind_eq_ok.mp hcached
    cases hr
    cases hx
    exact ⟨s, hw, Or.inl rfl, sendOn_shrinks hon⟩
  | none =>
    simp only [hu] at hcached
    cases hcached
    obtain ⟨⟨r₂, s₂⟩, hadd, hx⟩ := bind_eq_ok.mp hx
    refine ⟨s₂, addProducer_wired hs hw hadd, Or.inr ⟨r₂, hadd⟩, ?_⟩
    by_cases hr : r₂ ≠ dtkOk
    · simp only [if_pos hr] at hx
      cases hx
      exact .refl _
    · simp only [if_neg hr] at hx
      unfold sendAgain subscript at hx
      cases hu₂ : s₂.mapProcucer.lookup u with
      | some pPro =>
        simp only [hu₂] at hx
        exact sendOn_shrinks hx
      | none =>
        simp only [hu₂] at hx
        cases hx

theorem addConsumer_changes (hs : s.Owned) (hw : s.mem.Wired) {u : Str} {cb : Option ℕ} {user : ℕ}
    {env : Env} {r : ℤ} (hx : s.addConsumer u cb user env = .ok (r, s')) :
    ∃ m, m.Wired ∧ Mem.Shrinks s.mem m ∧ (s'.mem = m ∨ ∃ d, parseMqUri u = some d ∧
      Mem.Gains m .consumer d.strDstName d.nType cb user s'.mem) := by
  by_cases hcb : cb = none
  · simp only [addConsumer, hcb, if_true] at hx
    cases hx
    exact ⟨s.mem, hw, .refl _, Or.inl rfl⟩
  · cases hp : parseMqUri u with
    | none =>
      simp only [addConsumer, hcb, hp, if_false] at hx
      cases hx
      exact ⟨s.mem, hw, .refl _, Or.inl rfl⟩
    | some d =>
      cases hf : s.firstMatch .consumer d with
      | some e =>
        simp only [addConsumer, hcb, hp, hasConsumer_ok hs, hf, if_false] at hx
        cases hx
        exact ⟨s.mem, hw, .refl _, Or.inl rfl⟩
      | none =>
        rw [addConsumer_eq hs user env hcb hp hf] at hx
        obtain ⟨⟨p, s₁⟩, hadd, hx⟩ := bind_eq_ok.mp hx
        cases hx
        obtain ⟨m, hwm, hshrink, ⟨-, hsame⟩ | ⟨-, hg⟩⟩ := addTo_gains hs hw hadd
        · exact ⟨m, hwm, hshrink, Or.inl hsame⟩
        · exact ⟨m, hwm, hshrink, Or.inr ⟨d, rfl, hg⟩⟩

/-- An operation only adds calls to the log. -/
theorem exec_extends {op : Op} (hs : s.Owned) (hw : s.mem.Wired) (hx : s.exec op = .ok s') :
    Cms.Extends (fun _ => True) s.mem.cms s'.mem.cms := by
  have hshrinks : ∀ {m m' : Mem}, Mem.Shrinks m m' → Cms.Extends (fun _ => True) m.cms m'.cms :=
    fun hshrink => hshrink.log.mono fun _ _ => trivial
  have hgains : ∀ {m m' : Mem} {kind d cb user}, Mem.Gains m kind (Dst.strDstName d) d.nType cb user m' →
      Cms.Extends (fun _ => True) m.cms m'.cms := fun hg => hg.log.mono fun _ _ => trivial
  have hadded : ∀ {u : Str} {env : Env} {r : ℤ} {s₁ : MqMgr}, s.addProducer u env = .ok (r, s₁) →
      Cms.Extends (fun _ => True) s.mem.cms s₁.mem.cms := by
    intro u env r s₁ hr
    obtain ⟨m, -, hshrink, hsame | ⟨d, hg⟩⟩ := addProducer_changes hs hw hr
    · exact hsame ▸ hshrinks hshrink
    · exact (hshrinks hshrink).trans (hgains hg)
  cases op with
  | addProducer u env =>
    obtain ⟨⟨r, s₁⟩, hr, rfl⟩ := map_eq_ok.mp hx
    exact hadded hr
  | delProducer u =>
    obtain ⟨⟨r, s₁⟩, hr, rfl⟩ := map_eq_ok.mp hx
    exact hshrinks (delProducer_shrinks hs hr)
  | sendMsg u msg env =>
    obtain ⟨⟨r, s₁⟩, hr, rfl⟩ := map_eq_ok.mp hx
    obtain ⟨s₂, -, rfl | ⟨r₂, hadd⟩, hshrink⟩ := sendMsg_changes hs hw hr
    · exact hshrinks hshrink
    · exact (hadded hadd).trans (hshrinks hshrink)
  | addConsumer u cb user env =>
    obtain ⟨⟨r, s₁⟩, hr, rfl⟩ := map_eq_ok.mp hx
    obtain ⟨m, -, hshrink, hsame | ⟨d, -, hg⟩⟩ := addConsumer_changes hs hw hr
    · exact hsame ▸ hshrinks hshrink
    · exact (hshrinks hshrink).trans (hgains hg)
  | delConsumer u =>
    obtain ⟨⟨r, s₁⟩, hr, rfl⟩ := map_eq_ok.mp hx
    exact hshrinks (delConsumer_shrinks hs hr)
  | onException svr => exact hshrinks (onException_shrinks hs hx)

variable {requests : List Request} {listeners : List (ℕ × ℕ)}

theorem addProducer_heard (hs : s.Owned) (hw : s.mem.Wired) (h : Heard s.mem requests listeners)
    {u : Str} {env : Env} {r : ℤ} (hx : s.addProducer u env = .ok (r, s')) :
    Heard s'.mem requests listeners := by
  obtain ⟨m, -, hshrink, hsame | ⟨d, hg⟩⟩ := addProducer_changes hs hw hx
  · exact hsame ▸ h.shrinks hw hshrink
  · exact (h.shrinks hw hshrink).gains hg

theorem sendMsg_heard (hs : s.Owned) (hw : s.mem.Wired) (h : Heard s.mem requests listeners)
    {u msg : Str} {env : Env} {r : ℤ} (hx : s.sendMsg u msg env = .ok (r, s')) :
    Heard s'.mem requests listeners := by
  obtain ⟨s₁, hw₁, rfl | ⟨r₁, hadd⟩, hshrink⟩ := sendMsg_changes hs hw hx
  · exact h.shrinks hw hshrink
  · exact (addProducer_heard hs hw h hadd).shrinks hw₁ hshrink

theorem addConsumer_heard (hs : s.Owned) (hw : s.mem.Wired) (h : Heard s.mem requests listeners)
    {u : Str} {cb : Option ℕ} {user : ℕ} {env : Env} {r : ℤ}
    (hx : s.addConsumer u cb user env = .ok (r, s')) :
    Heard s'.mem (s.newRequests s' (.addConsumer u cb user env) ++ requests)
      (s.newListeners s' (.addConsumer u cb user env) ++ listeners) := by
  obtain ⟨m, hwm, hshrink, hsame | ⟨d, hp, hg⟩⟩ := addConsumer_changes hs hw hx
  · -- where no object is made there is nothing new
    have hnext : s'.mem.ends.next = s.mem.ends.next := by rw [hsame, hshrink.endsNext]
    have hnone : s'.mem.ends.cell s.mem.ends.next = none :=
      (s'.mem.ends.fresh _ (Nat.le_of_eq hnext)).1
    have h' : Heard s'.mem requests listeners := hsame ▸ h.shrinks hw hshrink
    simpa [newRequests, newListeners, hnext, hnone] using h'
  · have hnext : s'.mem.ends.next = s.mem.ends.next + 1 := by
      rw [hg.endsNext, hshrink.endsNext]
    have hrequests : s.newRequests s' (.addConsumer u cb user env) =
        [⟨m.ends.next, u, cb, user⟩] := by
      simp [newRequests, hnext, hshrink.endsNext]
    rw [hrequests]
    refine (h.shrinks hw hshrink).gains_consumer hwm hp hg fun x e hmem => ?_
    simp only [newListeners] at hmem
    by_cases hc : env.create = .created
    · rw [if_pos hc] at hmem
      obtain ⟨y, hy, heq⟩ := List.mem_map.mp hmem
      cases heq
      obtain ⟨ep, hep, hcp⟩ := Option.bind_eq_some_iff.mp (Option.mem_toList.mp hy)
      exact ⟨hshrink.endsNext.symm, ep, hep, hcp⟩
    · rw [if_neg hc] at hmem
      cases hmem

theorem exec_heard {op : Op} (hs : s.Owned) (hw : s.mem.Wired) (h : Heard s.mem requests listeners)
    (hx : s.exec op = .ok s') :
    Heard s'.mem (s.newRequests s' op ++ requests) (s.newListeners s' op ++ listeners) := by
  cases op with
  | addProducer u env =>
    obtain ⟨⟨r, s₁⟩, hr, rfl⟩ := map_eq_ok.mp hx
    exact addProducer_heard hs hw h hr
  | delProducer u =>
    obtain ⟨⟨r, s₁⟩, hr, rfl⟩ := map_eq_ok.mp hx
    exact h.shrinks hw (delProducer_shrinks hs hr)
  | sendMsg u msg env =>
    obtain ⟨⟨r, s₁⟩, hr, rfl⟩ := map_eq_ok.mp hx
    exact sendMsg_heard hs hw h hr
  | addConsumer u cb user env =>
    obtain ⟨⟨r, s₁⟩, hr, rfl⟩ := map_eq_ok.mp hx
    exact addConsumer_heard hs hw h hr
  | delConsumer u =>
    obtain ⟨⟨r, s₁⟩, hr, rfl⟩ := map_eq_ok.mp hx
    exact h.shrinks hw (delConsumer_shrinks hs hr)
  | onException svr => exact h.shrinks hw (onException_shrinks hs hx)

/-! ## Where the objects are registered -/

/-- What is registered after an operation was so before, unless it has just been made. -/
theorem registered_back {op : Op} (hs : s.Owned) (hx : s.exec op = .ok s') {kind : EndKind} {d : Dst}
    {e : ℕ} (he : s'.Registered kind d e) (hlt : e < s.mem.ends.next) : s.Registered kind d e := by
  have hcases := exec_cases hs op
  rw [hx] at hcases
  have hnew : ∀ {s₁ : MqMgr} {k d'}, EndAdded s k d' s₁ → s₁.Registered kind d e → s.Registered kind d e :=
    fun ha he => ((ha.registered kind d e).mp he).resolve_right fun h => absurd h.2.2 (Nat.ne_of_lt hlt)
  cases hcases with
  | idle _ hidle => exact he
  | refused _ _ hsup hq hdel => exact (hq.registered kind d e).mp he
  | addedProducer u env d s₁ hp hn ha => exact hnew ha he
  | addedConsumer u cb user env d _ hcb hp hn ha => exact hnew ha he
  | tookProducer u d s₁ hp ht => exact ((ht.registered kind _ e).mp he).1
  | tookConsumer u d _ hp ht => exact ((ht.registered kind _ e).mp he).1
  | sent u msg env p ep _ hu hl hsent => exact (hsent.registered kind d e).mp he
  | addedAndSent u msg env d s₁ _ hp hn ha hsent =>
    exact hnew ha ((hsent.registered kind _ e).mp he)
  | failed svr _ hf => exact ((hf.registered kind d e).mp he).1

/-- An object that is there is registered as the consumer that was asked for. -/
def Answers (s : MqMgr) (requests : List Request) : Prop :=
  ∀ rq ∈ requests, ∀ ep, s.mem.ends.cell rq.ptr = some ep → rq.pfnMsgCb ≠ none ∧
    ∃ d, parseMqUri rq.strUrl = some d ∧ s.Registered .consumer d rq.ptr

theorem exec_answers {op : Op} (hs : s.Owned) (h : Heard s.mem requests listeners)
    (ha : s.Answers requests) (hx : s.exec op = .ok s') :
    s'.Answers (s.newRequests s' op ++ requests) := by
  have hs' := exec_owned hs hx
  intro rq hrq ep hep
  obtain ⟨kind, d, hreg⟩ := hs'.registered_of_live hep
  rcases List.mem_append.mp hrq with hnew | hold
  · -- only `AddConsumer` makes one, and it registers it
    have hcases := exec_cases hs op
    rw [hx] at hcases
    cases op with
    | addConsumer u cb user env =>
      simp only [newRequests] at hnew
      by_cases hnext : s'.mem.ends.next = s.mem.ends.next
      · rw [if_pos hnext] at hnew
        cases hnew
      · rw [if_neg hnext] at hnew
        obtain rfl := List.mem_singleton.mp hnew
        cases hcases with
        | idle _ hidle => exact absurd rfl hnext
        | refused _ _ hsup hq hdel => exact absurd hq.endsNext hnext
        | addedConsumer u cb user env d _ hcb hp hn hadd =>
          exact ⟨hcb, d, hp, (hadd.registered _ _ _).mpr (Or.inr ⟨rfl, rfl, rfl⟩)⟩
    | _ => cases hnew
  · have hback := registered_back hs hx hreg (h.asked rq hold).1
    obtain ⟨ep₀, hep₀⟩ := hback.live
    obtain ⟨hcb, d', hp, hreg'⟩ := ha rq hold ep₀ hep₀
    obtain ⟨rfl, rfl⟩ := hs.registered_inj hreg' hback
    exact ⟨hcb, d', hp, hreg⟩

end MqMgr

end AppUtil.Mq
