import AppUtil.Mq.Wiring
import AppUtil.Mq.Runs

/-! # The order of teardown

Every operation keeps the memory wired to the library. So in every run an endpoint only holds
objects of its connection's current session, and on every path the children of a session are
released before the session, and the session before the connection. -/
namespace AppUtil.Mq.MqMgr
open AppUtil.Lib AppUtil.Lib.Lifetime
set_option autoImplicit false

variable {s s' : MqMgr}

theorem init_wired (closeThrows : ℕ → Bool) : (init closeThrows).mem.Wired := Attached.empty

/-! ## Connections -/

/-- A connection that has nothing of the library may come or go. -/
theorem wired_conn {m m' : Mem} (h : m.Wired) {c : ℕ} (hcms : m'.cms = m.cms)
    (hends : m'.ends.cell = m.ends.cell)
    (hother : ∀ b, b ≠ c → m'.conns.cell b = m.conns.cell b)
    (hold : ∀ co, m.conns.cell c = some co → co.pConnection = none ∧ co.pSession = none)
    (hnew : ∀ co, m'.conns.cell c = some co → co.pConnection = none ∧ co.pSession = none) :
    m'.Wired := by
  unfold Mem.Wired
  rw [hcms, hends]
  refine h.reshape ⟨fun b cb hb hsome => ?_, fun b cb hb hsome => ?_, fun _ _ => Or.inr,
    fun _ _ _ ha _ => ha⟩
  · have hbc : b ≠ c := by
      rintro rfl
      obtain ⟨hk, hs⟩ := hnew cb hb
      exact hsome.elim (fun hn => hn hk) fun hn => hn hs
    exact ⟨cb, by rw [← hother b hbc, hb], rfl, rfl⟩
  · have hbc : b ≠ c := by
      rintro rfl
      obtain ⟨hk, hs⟩ := hold cb hb
      exact hsome.elim (fun hn => hn hk) fun hn => hn hs
    exact ⟨cb, by rw [hother b hbc, hb], rfl, rfl, fun _ he _ => he⟩

/-- What `Fini` and the operations that find a connection empty do to it. -/
theorem takeDown_wired {c : ℕ} (ho : s.mem.Owned) (h : s.mem.Wired)
    (hx : (do
      let m ← s.mem.disConn c
      { s with mem := m }.deleteConn c) = Except.ok s') : s'.mem.Owned ∧ s'.mem.Wired := by
  obtain ⟨m, hm, hdel⟩ := bind_eq_ok.mp hx
  obtain ⟨m₀, hd₀, -⟩ := bind_eq_ok.mp hm
  obtain ⟨co, hc, -⟩ := bind_eq_ok.mp hd₀
  have hc := Heap.deref_eq_ok.mp hc
  have hw := Mem.disConn_wired h hc (ho.nodup c co hc) (ho.live c co hc) hm
  obtain ⟨m', hm', hd⟩ := Mem.disConn_ok hc (ho.nodup c co hc) (ho.live c co hc)
  obtain rfl := Except.ok.inj (hm.symm.trans hm')
  have hnew : m.conns.cell c = some MqConnection.new := by rw [hd.conns, if_pos rfl]
  rw [deleteConn_ok (s := { s with mem := m }) hnew] at hdel
  obtain rfl := Except.ok.inj hdel
  have hother : ∀ b, b ≠ c → (m.conns.remove c).cell b = m.conns.cell b :=
    fun b hb => by rw [Heap.remove_cell, if_neg hb]
  have hgone : (m.conns.remove c).cell c = none := by rw [Heap.remove_cell, if_pos rfl]
  have hold : ∀ cb, m.conns.cell c = some cb → cb = MqConnection.new :=
    fun cb hcb => Option.some.inj (hcb.symm.trans hnew)
  constructor
  · refine (ho.down hc hd).conn_changed hother (fun cb hcb => hold cb hcb ▸ rfl)
      (fun cb hcb => ?_) rfl (List.Subset.refl _)
    rw [hgone] at hcb
    cases hcb
  · refine wired_conn hw rfl rfl hother (fun cb hcb => hold cb hcb ▸ ⟨rfl, rfl⟩) fun cb hcb => ?_
    rw [hgone] at hcb
    cases hcb

theorem addConnection_wired (hs : s.Owned) (h : s.mem.Wired) {svr : Str} {env : Env}
    {p : Option ℕ} (hx : s.addConnection svr env = .ok (p, s')) : s'.mem.Wired := by
  unfold addConnection at hx
  cases hl : s.mapConn.lookup svr with
  | some c =>
    simp only [hl] at hx
    cases hx
    exact h
  | none =>
    simp only [hl] at hx
    by_cases hnew : env.newConn = false
    · rw [if_pos hnew] at hx
      cases hx
      exact h
    · rw [if_neg hnew] at hx
      set m₀ : Mem := { s.mem with conns := s.mem.conns.alloc MqConnection.new } with hm₀
      have hc₀ : m₀.conns.cell s.mem.conns.next = some MqConnection.new := by simp [hm₀]
      have hnone : s.mem.conns.cell s.mem.conns.next = none :=
        (s.mem.conns.fresh _ (Nat.le_refl _)).1
      have hother : ∀ b, b ≠ s.mem.conns.next → m₀.conns.cell b = s.mem.conns.cell b :=
        fun b hb => by simp [hm₀, Heap.alloc_cell, hb]
      have hold : ∀ co, s.mem.conns.cell s.mem.conns.next = some co → co = MqConnection.new :=
        fun co hco => by
          rw [hnone] at hco
          cases hco
      have hco₀ : ∀ co, m₀.conns.cell s.mem.conns.next = some co → co = MqConnection.new :=
        fun co hco => Option.some.inj (hco.symm.trans hc₀)
      have hw₀ : m₀.Wired := wired_conn h rfl rfl hother (fun co hco => hold co hco ▸ ⟨rfl, rfl⟩)
        fun co hco => hco₀ co hco ▸ ⟨rfl, rfl⟩
      have ho₀ : m₀.Owned := hs.mem.conn_changed hother (fun co hco => hold co hco ▸ rfl)
        (fun co hco => hco₀ co hco ▸ rfl) rfl (List.Subset.refl _)
      obtain ⟨⟨bRet, m₁⟩, hconn, hx⟩ := bind_eq_ok.mp hx
      have hw₁ := Mem.conn_wired env.conn hw₀ hc₀ rfl hconn
      cases bRet with
      | true =>
        cases hx
        exact hw₁
      | false =>
        obtain ⟨m₁', k, ss, hconn', -, hends, hdel, hcell⟩ := Mem.conn_ok env.conn hc₀
        obtain ⟨-, rfl⟩ := Prod.mk.inj (Except.ok.inj (hconn.symm.trans hconn'))
        have ho₁ : m₁.Owned := by
          refine ho₀.conn_changed (c := s.mem.conns.next)
            (fun b hb => by rw [hcell, if_neg hb]) (fun co hco => hco₀ co hco ▸ rfl)
            (fun co hco => ?_) (by rw [hends]) (by rw [hdel]; exact List.Subset.refl _)
          rw [hcell, if_pos rfl] at hco
          exact Option.some.inj hco ▸ rfl
        obtain ⟨m₂, hdis, hx⟩ := bind_eq_ok.mp hx
        obtain ⟨s₂, hdelc, hx⟩ := bind_eq_ok.mp hx
        obtain ⟨-, rfl⟩ := Prod.mk.inj (Except.ok.inj hx)
        refine (takeDown_wired (s := { s with mem := m₁ }) (c := s.mem.conns.next) ho₁ hw₁ ?_).2
        rw [show ({ s with mem := m₁ } : MqMgr).mem = m₁ from rfl, hdis, ok_bind]
        exact hdelc

/-! ## Operations -/

theorem addTo_wired (hs : s.Owned) (h : s.mem.Wired) {kind : EndKind} {d : Dst} {cb : Option ℕ}
    {user : ℕ} {env : Env} {p : Option ℕ} (hx : s.addTo kind d cb user env = .ok (p, s')) :
    s'.mem.Wired := by
  obtain ⟨⟨pConn, s₁⟩, hconn, hx⟩ := bind_eq_ok.mp hx
  have hw := addConnection_wired hs h hconn
  cases pConn with
  | none =>
    cases hx
    exact hw
  | some c =>
    obtain ⟨⟨e, m⟩, hadd, hx⟩ := bind_eq_ok.mp hx
    cases hx
    exact Mem.addEnd_wired kind d.strDstName d.nType cb user hw hadd

theorem addProducer_wired (hs : s.Owned) (h : s.mem.Wired) {u : Str} {env : Env} {r : ℤ}
    (hx : s.addProducer u env = .ok (r, s')) : s'.mem.Wired := by
  cases hp : parseMqUri u with
  | none =>
    simp only [addProducer, hp] at hx
    cases hx
    exact h
  | some d =>
    cases hu : s.mapProcucer.lookup u with
    | some pPro =>
      simp only [addProducer, hp, hasProducer, hu] at hx
      cases hx
      exact h
    | none =>
      rw [addProducer_eq env hp hu] at hx
      obtain ⟨⟨p, s₁⟩, hadd, hx⟩ := bind_eq_ok.mp hx
      have hw := addTo_wired hs h hadd
      cases p with
      | none =>
        cases hx
        exact hw
      | some p =>
        cases hx
        exact hw

theorem addConsumer_wired (hs : s.Owned) (h : s.mem.Wired) {u : Str} {cb : Option ℕ} {user : ℕ}
    {env : Env} {r : ℤ} (hx : s.addConsumer u cb user env = .ok (r, s')) : s'.mem.Wired := by
  have hcases := addConsumer_cases hs u cb user env
  by_cases hcb : cb = none
  · simp only [addConsumer, hcb, if_true] at hx
    cases hx
    exact h
  · cases hp : parseMqUri u with
    | none =>
      simp only [addConsumer, hcb, hp, if_false] at hx
      cases hx
      exact h
    | some d =>
      cases hf : s.firstMatch .consumer d with
      | some e =>
        simp only [addConsumer, hcb, hp, hasConsumer_ok hs, hf, if_false] at hx
        cases hx
        exact h
      | none =>
        rw [addConsumer_eq hs user env hcb hp hf] at hx
        obtain ⟨⟨p, s₁⟩, hadd, hx⟩ := bind_eq_ok.mp hx
        cases hx
        exact addTo_wired hs h hadd

theorem sendOn_wired (h : s.mem.Wired) {pPro : Option ℕ} {msg : Str} {env : Env} {r : ℤ}
    (hx : s.sendOn pPro msg env = .ok (r, s')) : s'.mem.Wired := by
  cases pPro with
  | none => cases hx
  | some p =>
    obtain ⟨⟨b, m⟩, hsend, hx⟩ := bind_eq_ok.mp hx
    cases hx
    exact Mem.sendMsg_wired h hsend

theorem sendMsg_wired (hs : s.Owned) (h : s.mem.Wired) {u msg : Str} {env : Env} {r : ℤ}
    (hx : s.sendMsg u msg env = .ok (r, s')) : s'.mem.Wired := by
  obtain ⟨⟨r₁, s₁⟩, hcached, hx⟩ := bind_eq_ok.mp hx
  unfold sendCached at hcached
  cases hu : s.mapProcucer.lookup u with
  | some pPro =>
    simp only [hu] at hcached
    obtain ⟨⟨r₂, s₂⟩, hon, hr⟩ := bind_eq_ok.mp hcached
    cases hr
    cases hx
    exact sendOn_wired h hon
  | none =>
    simp only [hu] at hcached
    cases hcached
    obtain ⟨⟨r₂, s₂⟩, hadd, hx⟩ := bind_eq_ok.mp hx
    have hw := addProducer_wired hs h hadd
    by_cases hr : r₂ ≠ dtkOk
    · simp only [if_pos hr] at hx
      cases hx
      exact hw
    · simp only [if_neg hr] at hx
      unfold sendAgain subscript at hx
      cases hu₂ : s₂.mapProcucer.lookup u with
      | some pPro =>
        simp only [hu₂] at hx
        exact sendOn_wired hw hx
      | none =>
        simp only [hu₂] at hx
        cases hx

theorem delFromConn_wired (hs : s.Owned) (h : s.mem.Wired) {kind : EndKind} {d : Dst}
    (hx : s.delFromConn kind d = .ok s') : s'.mem.Wired := by
  cases hl : s.mapConn.lookup d.strMQSvr with
  | none =>
    simp only [delFromConn, hl] at hx
    cases hx
    exact h
  | some c =>
    obtain ⟨co, hc⟩ := hs.connLive _ c hl
    rw [delFromConn_eq hl] at hx
    obtain ⟨⟨r, m⟩, hdel, hx⟩ := bind_eq_ok.mp hx
    have hw := Mem.delEnd_wired kind h hc (hs.mem.live c co hc) hdel
    have ho : m.Owned := by
      cases hfind : (co.list kind).find? (s.mem.isMatch d.strDstName d.nType) with
      | none =>
        rw [Mem.delEnd_none kind hc (hs.mem.live c co hc) hfind] at hdel
        cases hdel
        exact hs.mem
      | some e =>
        obtain ⟨m', hdel', hr⟩ := Mem.delEnd_some kind hc (hs.mem.live c co hc) hfind
        obtain ⟨-, rfl⟩ := Prod.mk.inj (Except.ok.inj (hdel.symm.trans hdel'))
        exact hs.mem.removed hc (List.mem_of_find?_eq_some hfind) hr
    cases r with
    | false =>
      cases hx
      exact hw
    | true =>
      obtain ⟨m₁, hdis, hx⟩ := bind_eq_ok.mp hx
      obtain ⟨s₂, hdelc, hx⟩ := bind_eq_ok.mp hx
      have hw₂ : s₂.mem.Wired := by
        refine (takeDown_wired (s := { s with mem := m }) (c := c) ho hw ?_).2
        rw [hdis, ok_bind]
        exact hdelc
      cases hx
      exact hw₂

theorem delProducer_wired (hs : s.Owned) (h : s.mem.Wired) {u : Str} {r : ℤ}
    (hx : s.delProducer u = .ok (r, s')) : s'.mem.Wired := by
  unfold delProducer at hx
  cases hp : parseMqUri u with
  | none =>
    simp only [hp] at hx
    cases hx
    exact h
  | some d =>
    simp only [hp] at hx
    obtain ⟨s₁, hdel, hx⟩ := bind_eq_ok.mp hx
    have hw := delFromConn_wired hs h hdel
    cases hx
    exact hw

theorem delConsumer_wired (hs : s.Owned) (h : s.mem.Wired) {u : Str} {r : ℤ}
    (hx : s.delConsumer u = .ok (r, s')) : s'.mem.Wired := by
  unfold delConsumer at hx
  cases hp : parseMqUri u with
  | none =>
    simp only [hp] at hx
    cases hx
    exact h
  | some d =>
    simp only [hp] at hx
    obtain ⟨s₁, hdel, hx⟩ := bind_eq_ok.mp hx
    cases hx
    exact delFromConn_wired hs h hdel

theorem onException_wired (hs : s.Owned) (h : s.mem.Wired) {svr : Str}
    (hx : s.onException svr = .ok s') : s'.mem.Wired := by
  unfold onException at hx
  cases hl : s.mapConn.lookup svr with
  | none =>
    simp only [hl] at hx
    cases hx
    exact h
  | some c =>
    simp only [hl] at hx
    obtain ⟨co, hc⟩ := hs.connLive _ c hl
    obtain ⟨m, hm, hx⟩ := bind_eq_ok.mp hx
    cases hx
    exact Mem.disConn_wired h hc (hs.mem.nodup c co hc) (hs.mem.live c co hc) hm

theorem exec_wired {op : Op} (hs : s.Owned) (h : s.mem.Wired) (hx : s.exec op = .ok s') :
    s'.mem.Wired := by
  cases op with
  | addProducer u env =>
    obtain ⟨⟨r, s₁⟩, hr, rfl⟩ := map_eq_ok.mp hx
    exact addProducer_wired hs h hr
  | delProducer u =>
    obtain ⟨⟨r, s₁⟩, hr, rfl⟩ := map_eq_ok.mp hx
    exact delProducer_wired hs h hr
  | sendMsg u msg env =>
    obtain ⟨⟨r, s₁⟩, hr, rfl⟩ := map_eq_ok.mp hx
    exact sendMsg_wired hs h hr
  | addConsumer u cb user env =>
    obtain ⟨⟨r, s₁⟩, hr, rfl⟩ := map_eq_ok.mp hx
    exact addConsumer_wired hs h hr
  | delConsumer u =>
    obtain ⟨⟨r, s₁⟩, hr, rfl⟩ := map_eq_ok.mp hx
    exact delConsumer_wired hs h hr
  | onException svr => exact onException_wired hs h hx

theorem fini_wired (hs : s.Owned) (h : s.mem.Wired) (hx : s.fini = .ok s') : s'.mem.Wired := by
  obtain ⟨s₁, hloop, hx⟩ := bind_eq_ok.mp hx
  cases hx
  exact (foldlM_inv (P := fun s : MqMgr => s.mem.Owned ∧ s.mem.Wired)
    (fun s x s' _ h hx => takeDown_wired h.1 h.2 hx) ⟨hs.mem, h⟩ hloop).2

theorem reaches_wired {closeThrows : ℕ → Bool} {L : Op → Prop}
    (h : Reaches exec L (init closeThrows) s) : s.Owned ∧ s.mem.Wired :=
  h.inv (P := fun s => s.Owned ∧ s.mem.Wired)
    (fun _ _ _ _ hs hx => ⟨exec_owned hs.1 hx, exec_wired hs.1 hs.2 hx⟩)
    ⟨init_owned closeThrows, init_wired closeThrows⟩

/-! ## The result -/

/-- **Teardown order.** While the connects succeed and no `close()` throws, every operation but
`SendMsg` succeeds in every state that a run reaches; an endpoint in a list holds only objects that
the current session of its connection made, and this session is alive; and the calls of the run,
those of a final `Fini` included, release the children of a session before the session and the
session before its connection, and make, use and release nothing of a session after its death. -/
theorem teardown_order (s : MqMgr) (h : Reaches exec Op.Connects (init fun _ => false) s) :
    (∀ op, op.Connects → ¬ op.IsSendMsg → ∃ s', s.exec op = .ok s') ∧
    (∀ c co e ep x, s.mem.conns.cell c = some co → e ∈ co.endpoints →
      s.mem.ends.cell e = some ep → ep.Holds x →
      ∃ ss, co.pSession = some ss ∧
        Event.born (.child x) (some (.session ss)) ∈ s.mem.cms.events ∧
        Event.died (.child x) ∉ s.mem.cms.events ∧
        Event.died (.session ss) ∉ s.mem.cms.events) ∧
    Ordered s.mem.cms.events ∧
    ∃ s', s.fini = .ok s' ∧ Ordered s'.mem.cms.events := by
  obtain ⟨hs, hw⟩ := reaches_wired h
  refine ⟨fun op hop hsend => ?_, fun c co e ep x hc hmem he hx => ?_, hw.disciplined.ordered, ?_⟩
  · cases hx : s.exec op with
    | ok s' => exact ⟨s', rfl⟩
    | error f => exact absurd (exec_faults hs hop hx).1 hsend
  · obtain ⟨halive, b, cb, ss, hb, hmem', hss, hborn⟩ := hw.held e ep x he hx
    obtain rfl := hs.mem.disjoint b c cb co e hb hc hmem' hmem
    obtain rfl := Option.some.inj (hb.symm.trans hc)
    exact ⟨ss, hss, hborn, halive.2, (hw.session b cb ss hb hss).1.2⟩
  · obtain ⟨s', hx, -⟩ := fini_ok hs
    exact ⟨s', hx, (fini_wired hs hw hx).disciplined.ordered⟩

theorem teardown_order_sample : ∃ s, (init fun _ => false).exec
      (.addProducer (urlOf ⟨['S'], ['D'], .mqModeQueue⟩) .ok) = .ok s ∧
    ∃ s', s.fini = .ok s' ∧ Ordered s'.mem.cms.events := by
  obtain ⟨s, hx⟩ : ∃ s, (init fun _ => false).exec
      (.addProducer (urlOf ⟨['S'], ['D'], .mqModeQueue⟩) .ok) = .ok s := ⟨_, rfl⟩
  have hconn : Op.Connects (.addProducer (urlOf ⟨['S'], ['D'], .mqModeQueue⟩) .ok) := rfl
  obtain ⟨-, -, -, hf⟩ := teardown_order s (.next _ .start hconn hx)
  exact ⟨s, hx, hf⟩

end AppUtil.Mq.MqMgr
