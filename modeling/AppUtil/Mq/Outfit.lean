import AppUtil.Mq.Teardown

/-! # What the endpoints hold

The contents of an endpoint are settled when it is added: they depend on the session that its
connection has then and on the calls inside `Create`, and no operation changes them again until the
endpoint is deleted. -/
namespace AppUtil.Mq
open AppUtil.Lib
set_option autoImplicit false

/-- `Create` got as far as the CMS producer or consumer. -/
def CreateOutcome.MakesCp (out : CreateOutcome) : Prop := out = .created ∨ out = .configureThrows

/-- The endpoint has a session and a CMS producer or consumer. -/
def MqEndpoint.Equipped (ep : MqEndpoint) : Prop := ep.pSession ≠ none ∧ ep.pCp ≠ none

namespace Mem

theorem create_equips {m m' : Mem} {kind : EndKind} {e : ℕ} {ep : MqEndpoint}
    {pSession : Option ℕ} {out : CreateOutcome} (he : m.ends.cell e = some ep) (hbare : ep.Bare)
    (hx : m.create kind e pSession out = .ok m') :
    ∃ ep', m'.ends.cell e = some ep' ∧
      (ep'.Equipped ↔ pSession ≠ none ∧ out.MakesCp) := by
  cases pSession with
  | none =>
    cases hx
    exact ⟨ep, he, fun h => absurd hbare.2.2 h.1, fun h => absurd rfl h.1⟩
  | some s =>
    simp only [create, Heap.deref_ok he, ok_bind, pure_eq_ok] at hx
    cases out <;> cases hx <;>
      simp [Heap.modify_cell, he, MqEndpoint.Equipped, CreateOutcome.MakesCp, hbare.2.1]

/-- What adding an endpoint leaves at its address. -/
theorem addEnd_equips {m m' : Mem} {c e : ℕ} {co : MqConnection} {kind : EndKind} {strName : Str}
    {nType : MqMsgMode} {cb : Option ℕ} {user : ℕ} {env : Env} (hc : m.conns.cell c = some co)
    (hx : m.addEnd c kind strName nType cb user env = .ok (some e, m')) :
    ∃ ep, m'.ends.cell e = some ep ∧
      (ep.Equipped ↔ co.pSession ≠ none ∧ env.create.MakesCp) := by
  have hnew : env.newEnd = true := by
    by_contra hnew
    rw [Bool.not_eq_true] at hnew
    simp [addEnd, hnew] at hx
  simp only [addEnd, hnew, pushEnd_ok kind strName nType cb user hc, ok_bind, createEnd,
    Bool.true_eq_false, if_false] at hx
  obtain ⟨m₂, hx₂, hr⟩ := bind_eq_ok.mp hx
  obtain ⟨co₁, hc₁, hx₂⟩ := bind_eq_ok.mp hx₂
  cases hr
  have hs₁ : co₁.pSession = co.pSession := by
    have h := Heap.deref_eq_ok.mp hc₁
    rw [Heap.modify_eq_update _ hc, Function.update_self] at h
    rw [← Option.some.inj h, MqConnection.setList_pSession]
  rw [← hs₁]
  exact create_equips (Heap.alloc_cell_next ..) ⟨rfl, rfl, rfl⟩ hx₂

theorem conn_session {m m' : Mem} {c : ℕ} {co : MqConnection} {r : Bool}
    (hc : m.conns.cell c = some co) (hx : m.conn c .connected = .ok (r, m')) :
    ∃ co', m'.conns.cell c = some co' ∧ co'.pSession ≠ none := by
  simp only [conn, Heap.deref_ok hc, ok_bind, pure_eq_ok] at hx
  cases hx
  simp [Heap.modify_cell, hc]

end Mem

namespace MqMgr
variable {s s' : MqMgr}

/-- There is a live endpoint at `e`, with a session and a CMS producer or consumer. -/
def Equipped (s : MqMgr) (e : ℕ) : Prop := ∃ ep, s.mem.ends.cell e = some ep ∧ ep.Equipped

theorem Equipped.congr {e : ℕ} (h : s.Equipped e)
    (hcell : s'.mem.ends.cell e = s.mem.ends.cell e) : s'.Equipped e := by
  obtain ⟨ep, he, hep⟩ := h
  exact ⟨ep, hcell.trans he, hep⟩

/-! ## Adding -/

/-- There is memory for the endpoint and, where there is no connection yet, for the connection. -/
def Adds (s : MqMgr) (svr : Str) (env : Env) : Prop :=
  env.newEnd = true ∧ (s.mapConn.lookup svr = none → env.newConn = true)

/-- The connection to the server has a session, or gets one because it is new and connects. -/
def HasSession (s : MqMgr) (svr : Str) (env : Env) : Prop :=
  match s.mapConn.lookup svr with
  | some c => ∃ co, s.mem.conns.cell c = some co ∧ co.pSession ≠ none
  | none => env.conn = .connected

theorem hasSession_stored {svr : Str} {env : Env} {c : ℕ} {co : MqConnection}
    (hl : s.mapConn.lookup svr = some c) (hc : s.mem.conns.cell c = some co) :
    s.HasSession svr env ↔ co.pSession ≠ none := by
  unfold HasSession
  rw [hl]
  constructor
  · rintro ⟨co', hc', hs⟩
    obtain rfl := Option.some.inj (hc.symm.trans hc')
    exact hs
  · exact fun hs => ⟨co, hc, hs⟩

theorem hasSession_new {svr : Str} {env : Env} (hl : s.mapConn.lookup svr = none) :
    s.HasSession svr env ↔ env.conn = .connected := by
  unfold HasSession
  rw [hl]

/-- The connection that `AddConnection` comes up with, unless `Conn` fails. -/
theorem addConnection_session (hs : s.Owned) {svr : Str} {env : Env} {c : ℕ} {s₁ : MqMgr}
    (hf : ¬ s.ConnFails svr env) (hx : s.addConnection svr env = .ok (some c, s₁)) :
    ∃ co, s₁.mem.conns.cell c = some co ∧ (co.pSession ≠ none ↔ s.HasSession svr env) := by
  cases hl : s.mapConn.lookup svr with
  | some c' =>
    rw [(addConnection_stored hs env hl).1] at hx
    cases hx
    obtain ⟨co, hc⟩ := hs.connLive svr c hl
    exact ⟨co, hc, (hasSession_stored hl hc).symm⟩
  | none =>
    have hnew : env.newConn = true := by
      by_contra hnew
      rw [Bool.not_eq_true] at hnew
      rw [addConnection_noMemory hl hnew] at hx
      cases hx
    have hconn : env.conn = .connected := by
      by_contra hconn
      exact hf ⟨hl, hnew, hconn⟩
    simp only [addConnection, hl, hnew, hconn, Bool.true_eq_false, if_false] at hx
    obtain ⟨⟨r, m₁⟩, hx₁, hx⟩ := bind_eq_ok.mp hx
    obtain ⟨co, hc, hss⟩ := Mem.conn_session (Heap.alloc_cell_next ..) hx₁
    obtain ⟨m₂, k, ss, hx₂, -⟩ := Mem.conn_ok .connected (m := { s.mem with
      conns := s.mem.conns.alloc MqConnection.new }) (Heap.alloc_cell_next ..)
    rw [hx₁] at hx₂
    cases hx₂
    cases hx
    exact ⟨co, hc, fun _ => (hasSession_new hl).mpr hconn, fun _ => hss⟩

/-- The ways adding an endpoint ends, and what is then in the endpoints. -/
inductive Outfitting (s : MqMgr) (kind : EndKind) (d : Dst) (env : Env) :
    Except Fault (Option ℕ × MqMgr) → Prop
  | dead (hadds : s.Adds d.strMQSvr env) (hsess : ¬ s.HasSession d.strMQSvr env) :
      Outfitting s kind d env (.error .useAfterFree)
  | refused (s' : MqMgr) (hadds : ¬ s.Adds d.strMQSvr env) (hq : Quiet s s')
      (hcell : s'.mem.ends.cell = s.mem.ends.cell) : Outfitting s kind d env (.ok (none, s'))
  | added (s' : MqMgr) (hadds : s.Adds d.strMQSvr env) (ha : EndAdded s kind d s')
      (hnext : s'.mem.ends.next = s.mem.ends.next + 1)
      (hcell : ∀ e, e ≠ s.mem.ends.next → s'.mem.ends.cell e = s.mem.ends.cell e)
      (hnew : s'.Equipped s.mem.ends.next ↔
        s.HasSession d.strMQSvr env ∧ env.create.MakesCp) :
      Outfitting s kind d env (.ok (some s.mem.ends.next, s'))

theorem addTo_outfitting (hs : s.Owned) (kind : EndKind) (d : Dst) (cb : Option ℕ) (user : ℕ)
    (env : Env) : Outfitting s kind d env (s.addTo kind d cb user env) := by
  by_cases hf : s.ConnFails d.strMQSvr env
  · cases hend : env.newEnd with
    | true =>
      rw [(addTo_connFails kind cb user hf).1 hend]
      exact .dead ⟨hend, fun _ => hf.2.1⟩ fun h => hf.2.2 ((hasSession_new hf.1).mp h)
    | false =>
      obtain ⟨s₁, he, hu⟩ := (addTo_connFails kind cb user hf).2 hend
      rw [he]
      exact .refused s₁ (fun h => Bool.noConfusion (h.1.symm.trans hend)) (hu.quiet hs) hu.ends
  · by_cases hmem : s.mapConn.lookup d.strMQSvr = none ∧ env.newConn = false
    · rw [addTo_noMemory hmem.1 hmem.2]
      exact .refused s (fun h => Bool.noConfusion ((h.2 hmem.1).symm.trans hmem.2))
        (Quiet.refl hs) rfl
    · obtain ⟨c, s₁, hx, hr⟩ := exists_ready hs hf hmem
      cases hend : env.newEnd with
      | false =>
        rw [addTo_noEnd hx hend]
        exact .refused s₁ (fun h => Bool.noConfusion (h.1.symm.trans hend)) hr.quiet (by rw [hr.ends])
      | true =>
        obtain ⟨co, hc, hss⟩ := addConnection_session hs hf hx
        obtain ⟨m', ep, hx', ha, hname, hmode⟩ :=
          Mem.addEnd_ok kind d.strDstName d.nType cb user hc hend
        obtain ⟨ep', hep', hequip⟩ := Mem.addEnd_equips hc hx'
        obtain ⟨m'', hx'', hadd⟩ := hr.added kind cb user hend
        rw [hr.ends] at hx' hep'
        rw [hx''] at hx'
        cases hx'
        have he : s.addTo kind d cb user env =
            .ok (some s.mem.ends.next, { s₁ with mem := m' }) := by
          simp [addTo, hx, hx'']
        rw [he]
        refine .added _ ⟨hend, fun hl => ?_⟩ hadd (ha.endsNext.trans (by rw [hr.ends]))
          (fun e hne => ?_) ?_
        · by_contra hnew
          exact hmem ⟨hl, Bool.not_eq_true _ ▸ hnew⟩
        · dsimp only
          rw [ha.ends, hr.ends, if_neg hne]
        · rw [← hss, ← hequip]
          constructor
          · rintro ⟨ep₁, hep₁, h⟩
            obtain rfl := Option.some.inj (hep'.symm.trans hep₁)
            exact h
          · exact fun h => ⟨ep', hep', h⟩

/-! ## Deleting -/

theorem closeIfEmpty_cells (hs : s.Owned) {svr : Str} {c : ℕ} {co : MqConnection}
    (hc : s.mem.conns.cell c = some co) (hx : s.closeIfEmpty svr c co.isEmptyConn = .ok s') :
    s'.mem.ends.cell = s.mem.ends.cell := by
  by_cases hempty : co.endpoints = []
  · rw [MqConnection.isEmptyConn_iff.mpr hempty] at hx
    obtain ⟨m, hm, hd, hdel⟩ := takeDown_ok hs hc
    simp only [closeIfEmpty, if_true, hm, ok_bind, hdel] at hx
    cases hx
    funext e
    simp [hd.ends, hempty]
  · have hne : co.isEmptyConn = false := by
      rw [Bool.eq_false_iff, ne_eq, MqConnection.isEmptyConn_iff]
      exact hempty
    rw [hne] at hx
    cases hx
    rfl

/-- Only the endpoint that is found goes. -/
theorem delFromConn_cells (hs : s.Owned) {kind : EndKind} {d : Dst}
    (hx : s.delFromConn kind d = .ok s') (e : ℕ) :
    s'.mem.ends.cell e = if s.firstMatch kind d = some e then none else s.mem.ends.cell e := by
  cases hl : s.mapConn.lookup d.strMQSvr with
  | none =>
    simp only [delFromConn, hl] at hx
    cases hx
    simp [firstMatch, hl]
  | some c =>
    obtain ⟨co, hc⟩ := hs.connLive _ c hl
    have hmatch : s.firstMatch kind d =
        (co.list kind).find? (s.mem.isMatch d.strDstName d.nType) := by
      simp [firstMatch, hl, hc]
    rw [delFromConn_eq hl] at hx
    rw [hmatch]
    cases hfind : (co.list kind).find? (s.mem.isMatch d.strDstName d.nType) with
    | none =>
      rw [Mem.delEnd_none kind hc (hs.mem.live c co hc) hfind, ok_bind] at hx
      rw [closeIfEmpty_cells hs hc hx]
      simp
    | some e' =>
      obtain ⟨m', hx', hr⟩ := Mem.delEnd_some kind hc (hs.mem.live c co hc) hfind
      have hmem := List.mem_of_find?_eq_some hfind
      have hc' : m'.conns.cell c = some (co.setList kind ((co.list kind).erase e')) := by
        rw [hr.conns, if_pos rfl]
      rw [hx', ok_bind] at hx
      rw [closeIfEmpty_cells (s := { s with mem := m' }) (owned_removed hs hc hmem hr) hc' hx]
      simp [hr.ends, eq_comm]

theorem onException_cells (hs : s.Owned) {svr : Str} (hx : s.onException svr = .ok s') (e : ℕ) :
    s'.mem.ends.cell e = s.mem.ends.cell e ∨
      ∃ kind d, s.Registered kind d e ∧ d.strMQSvr = svr := by
  cases hl : s.mapConn.lookup svr with
  | none =>
    simp only [onException, hl] at hx
    cases hx
    exact Or.inl rfl
  | some c =>
    obtain ⟨co, hc⟩ := hs.connLive _ c hl
    obtain ⟨m, hm, hd⟩ := Mem.disConn_ok hc (hs.mem.nodup c co hc) (hs.mem.live c co hc)
    simp only [onException, hl, hm, ok_bind] at hx
    cases hx
    by_cases hmem : e ∈ co.endpoints
    · obtain ⟨ep, hep⟩ := hs.mem.live c co hc e hmem
      obtain ⟨kind, hk⟩ := MqConnection.mem_endpoints.mp hmem
      exact Or.inr ⟨kind, ⟨svr, ep.strName, ep.nMode⟩, ⟨c, co, ep, hl, hc, hk, hep, rfl, rfl⟩, rfl⟩
    · refine Or.inl ?_
      dsimp only
      rw [hd.ends, if_neg hmem]

end MqMgr
end AppUtil.Mq
