import AppUtil.Mq.Registrations

/-! # Adding endpoints

The ways `AddConnection`, `AddProducer` and `AddConsumer` end from an owned state, and how the
registrations, the cache and the stored connections change each time. What is proved of runs only
uses these. -/
namespace AppUtil.Mq.MqMgr
open AppUtil.Lib
set_option autoImplicit false

variable {s : MqMgr}

theorem StrMap_add_of_none {β : Type} {t : StrMap β} {k : Str} (v : β) (h : t.lookup k = none) :
    StrMap.add t k v = t.insert k v := by
  simp [StrMap.add, h]

theorem lookup_insert {β : Type} (t : StrMap β) (k k' : Str) (v : β) :
    (t.insert k v).lookup k' = if k' = k then some v else t.lookup k' := by
  by_cases h : k' = k
  · subst h; simp
  · simp [AList.lookup_insert_ne h, h]

/-! ## `AddConnection` -/

/-- The environment connects and gives memory. -/
def Supplied (env : Env) : Prop :=
  env.newConn = true ∧ env.conn = .connected ∧ env.newEnd = true

/-- The connection to the server would be a new one, and `Conn` fails on it. -/
def ConnFails (s : MqMgr) (svr : Str) (env : Env) : Prop :=
  s.mapConn.lookup svr = none ∧ env.newConn = true ∧ env.conn ≠ .connected

/-- `s'` is `s` with the connection at `c` stored under the server, as before or newly opened. -/
structure Ready (s : MqMgr) (svr : Str) (c : ℕ) (s' : MqMgr) : Prop where
  owned : s'.Owned
  lookup : ∀ svr', s'.mapConn.lookup svr' = if svr' = svr then some c else s.mapConn.lookup svr'
  cache : s'.mapProcucer = s.mapProcucer
  ends : s'.mem.ends = s.mem.ends
  sends : s'.mem.sends = s.mem.sends
  connDeletions : s'.connDeletions = s.connDeletions
  registered : ∀ kind d e, s'.Registered kind d e ↔ s.Registered kind d e

theorem addConnection_stored (hs : s.Owned) {svr : Str} {c : ℕ} (env : Env)
    (hl : s.mapConn.lookup svr = some c) :
    s.addConnection svr env = .ok (some c, s) ∧ Ready s svr c s := by
  refine ⟨by simp [addConnection, hl], hs, fun svr' => ?_, rfl, rfl, rfl, rfl, fun _ _ _ => Iff.rfl⟩
  by_cases h : svr' = svr
  · rw [if_pos h, h, hl]
  · rw [if_neg h]

theorem addConnection_new (hs : s.Owned) {svr : Str} {env : Env} (hl : s.mapConn.lookup svr = none)
    (hnew : env.newConn = true) (hconn : env.conn = .connected) :
    ∃ c s', s.addConnection svr env = .ok (some c, s') ∧ Ready s svr c s' := by
  set c := s.mem.conns.next with hcdef
  set m₀ : Mem := { s.mem with conns := s.mem.conns.alloc MqConnection.new } with hm₀
  have hc₀ : m₀.conns.cell c = some MqConnection.new := by simp [hm₀, hcdef]
  obtain ⟨m₁, k, ss, hx, hkept, hends, hdel, hcell⟩ := Mem.conn_ok env.conn hc₀
  have ho : Opened s svr { MqConnection.new with pConnection := k, pSession := ss } m₁
      (s.mapConn.insert svr c) := by
    refine ⟨hl, rfl, fun svr' => lookup_insert _ _ _ _, fun b => ?_, hends, hdel⟩
    rw [hcell, ← hcdef]
    by_cases h : b = c
    · simp [h]
    · simp [h, hm₀, Heap.alloc_cell, ← hcdef]
  refine ⟨c, { s with mem := m₁, mapConn := s.mapConn.insert svr c }, ?_,
    ⟨owned_opened hs ho, fun svr' => lookup_insert _ _ _ _, rfl, hends, hkept.sends, rfl,
      registered_opened hs ho⟩⟩
  simp only [addConnection, hl, hnew]
  rw [← hm₀, ← hcdef, hconn] at *
  simp [hx, StrMap_add_of_none c hl]

/-- `s'` is `s` for everybody but the library: what was allocated is gone again. -/
structure Unchanged (s s' : MqMgr) : Prop where
  mapConn : s'.mapConn = s.mapConn
  cache : s'.mapProcucer = s.mapProcucer
  conns : s'.mem.conns.cell = s.mem.conns.cell
  ends : s'.mem.ends.cell = s.mem.ends.cell
  endsNext : s'.mem.ends.next = s.mem.ends.next
  sends : s'.mem.sends = s.mem.sends
  deletions : s'.mem.deletions ⊆ s.mem.deletions

theorem Unchanged.owned {s s' : MqMgr} (h : Unchanged s s') (hs : s.Owned) : s'.Owned :=
  owned_congr hs h.mapConn h.conns h.ends h.deletions

theorem Unchanged.registered {s s' : MqMgr} (h : Unchanged s s') (kind : EndKind) (d : Dst) (e : ℕ) :
    s'.Registered kind d e ↔ s.Registered kind d e :=
  registered_congr h.mapConn h.conns h.ends kind d e

theorem deleteConn_ok {c : ℕ} {co : MqConnection} (hc : s.mem.conns.cell c = some co) :
    s.deleteConn c = .ok { s with
      mem := { s.mem with conns := s.mem.conns.remove c }
      connDeletions := (c, s.mapConn.entries.any fun x => x.2 == c) :: s.connDeletions } := by
  simp [deleteConn, Heap.free_ok hc]

/-- A failed `Conn`: the connection is deleted again and its address is returned. -/
theorem addConnection_fails {svr : Str} {env : Env} (hf : s.ConnFails svr env) :
    ∃ c s', s.addConnection svr env = .ok (some c, s') ∧ Unchanged s s' ∧
      s'.mem.conns.cell c = none := by
  obtain ⟨hl, hnew, hconn⟩ := hf
  set c := s.mem.conns.next with hcdef
  set m₀ : Mem := { s.mem with conns := s.mem.conns.alloc MqConnection.new } with hm₀
  have hc₀ : m₀.conns.cell c = some MqConnection.new := by simp [hm₀, hcdef]
  obtain ⟨m₁, k, ss, hx₁, hkept₁, hends₁, hdel₁, hcell₁⟩ := Mem.conn_ok env.conn hc₀
  set co : MqConnection := { MqConnection.new with pConnection := k, pSession := ss } with hco
  have hc₁ : m₁.conns.cell c = some co := by rw [hcell₁, if_pos rfl]
  have hempty : co.endpoints = [] := rfl
  obtain ⟨m₂, hx₂, hd₂⟩ := Mem.disConn_ok hc₁ (by rw [hempty]; exact List.nodup_nil)
    (by rw [hempty]; simp)
  have hc₂ : m₂.conns.cell c = some MqConnection.new := by rw [hd₂.conns, if_pos rfl]
  have hnone : s.mem.conns.cell c = none := (s.mem.conns.fresh c (Nat.le_refl _)).1
  refine ⟨c, { s with
      mem := { m₂ with conns := m₂.conns.remove c }
      connDeletions := (c, s.mapConn.entries.any fun x => x.2 == c) :: s.connDeletions },
    ?_, ⟨rfl, rfl, ?_, ?_, ?_, ?_, ?_⟩, ?_⟩
  · simp only [addConnection, hl, hnew, Bool.true_eq_false, if_false]
    rw [← hm₀, ← hcdef, hx₁]
    simp only [ok_bind, hconn, decide_false, Bool.false_eq_true, if_false, hx₂, pure_eq_ok]
    rw [deleteConn_ok (s := { s with mem := m₂ }) hc₂]
    rfl
  · funext b
    by_cases h : b = c
    · simp [Heap.remove_cell, h, hnone]
    · simp [Heap.remove_cell, h, hd₂.conns, hcell₁, hm₀, Heap.alloc_cell, ← hcdef]
  · funext e
    simp [hd₂.ends, hempty, hends₁, hm₀]
  · simp [hd₂.kept.endsNext, hkept₁.endsNext, hm₀]
  · simp [hd₂.kept.sends, hkept₁.sends, hm₀]
  · intro d hd
    rcases hd₂.deletions d hd with hd | ⟨hptr, -⟩
    · rw [hdel₁] at hd
      exact hd
    · rw [hempty] at hptr
      cases hptr
  · simp [Heap.remove_cell]

theorem addConnection_noMemory {svr : Str} {env : Env} (hl : s.mapConn.lookup svr = none)
    (hnew : env.newConn = false) : s.addConnection svr env = .ok (none, s) := by
  simp [addConnection, hl, hnew]

/-! ## Adding an endpoint -/

/-- What `AddProducer` and `AddConsumer` have in common: take the connection and add the endpoint
to it. -/
def addTo (s : MqMgr) (kind : EndKind) (d : Dst) (cb : Option ℕ) (user : ℕ) (env : Env) :
    Except Fault (Option ℕ × MqMgr) := do
  let (pConn, s) ← s.addConnection d.strMQSvr env
  match pConn with
  | none => pure (none, s)
  | some c =>
    let (e, m) ← s.mem.addEnd c kind d.strDstName d.nType cb user env
    pure (e, { s with mem := m })

/-- `Conn` fails on the new connection, and an endpoint is then added to its dead address. -/
def DeadConn (s : MqMgr) (svr : Str) (env : Env) : Prop :=
  s.ConnFails svr env ∧ env.newEnd = true

/-- `s'` has the endpoints and the cache of `s`; at most connections without endpoints are new. -/
structure Quiet (s s' : MqMgr) : Prop where
  owned : s'.Owned
  cache : s'.mapProcucer = s.mapProcucer
  endsNext : s'.mem.ends.next = s.mem.ends.next
  sends : s'.mem.sends = s.mem.sends
  registered : ∀ kind d e, s'.Registered kind d e ↔ s.Registered kind d e

theorem Quiet.refl (hs : s.Owned) : Quiet s s := ⟨hs, rfl, rfl, rfl, fun _ _ _ => Iff.rfl⟩

/-- `s'` is `s` with a new endpoint for `d`, at the next address. -/
structure EndAdded (s : MqMgr) (kind : EndKind) (d : Dst) (s' : MqMgr) : Prop where
  owned : s'.Owned
  cache : s'.mapProcucer = s.mapProcucer
  sends : s'.mem.sends = s.mem.sends
  connDeletions : s'.connDeletions = s.connDeletions
  stored : ∀ svr, s'.Stored svr ↔ s.Stored svr ∨ svr = d.strMQSvr
  registered : ∀ k d' e, s'.Registered k d' e ↔
    s.Registered k d' e ∨ k = kind ∧ d' = d ∧ e = s.mem.ends.next

theorem Ready.added {s₁ : MqMgr} {d : Dst} {c : ℕ} {env : Env}
    (hr : Ready s d.strMQSvr c s₁) (kind : EndKind) (cb : Option ℕ) (user : ℕ) (hnew : env.newEnd = true) :
    ∃ m', s₁.mem.addEnd c kind d.strDstName d.nType cb user env =
        .ok (some s.mem.ends.next, m') ∧ EndAdded s kind d { s₁ with mem := m' } := by
  have hl : s₁.mapConn.lookup d.strMQSvr = some c := by rw [hr.lookup, if_pos rfl]
  obtain ⟨co, hc⟩ := hr.owned.connLive _ c hl
  obtain ⟨m', ep, hx, ha, hname, hmode⟩ :=
    Mem.addEnd_ok kind d.strDstName d.nType cb user hc hnew
  rw [hr.ends] at hx
  refine ⟨m', hx, owned_added hr.owned hc ha, hr.cache, ha.sends.trans hr.sends, hr.connDeletions,
    fun svr => ?_, fun k d' e => ?_⟩
  · unfold Stored
    dsimp only
    rw [hr.lookup]
    by_cases h : svr = d.strMQSvr <;> simp [h]
  · rw [registered_added hr.owned hl hc ha, hr.registered, hname, hmode, hr.ends]

/-- The ways adding an endpoint ends. The first is the use of a deleted connection. -/
inductive Adding (s : MqMgr) (kind : EndKind) (d : Dst) (env : Env) :
    Except Fault (Option ℕ × MqMgr) → Prop
  | dead (hdead : s.DeadConn d.strMQSvr env) : Adding s kind d env (.error .useAfterFree)
  | refused (s' : MqMgr) (hdead : ¬ s.DeadConn d.strMQSvr env) (hsup : ¬ Supplied env)
      (hq : Quiet s s') (hdel : env.conn = .connected → s'.connDeletions = s.connDeletions) :
      Adding s kind d env (.ok (none, s'))
  | added (s' : MqMgr) (hdead : ¬ s.DeadConn d.strMQSvr env) (ha : EndAdded s kind d s') :
      Adding s kind d env (.ok (some s.mem.ends.next, s'))

theorem Unchanged.quiet {s' : MqMgr} (hs : s.Owned) (hu : Unchanged s s') : Quiet s s' :=
  ⟨hu.owned hs, hu.cache, hu.endsNext, hu.sends, hu.registered⟩

theorem Ready.quiet {svr : Str} {c : ℕ} {s₁ : MqMgr} (hr : Ready s svr c s₁) : Quiet s s₁ :=
  ⟨hr.owned, hr.cache, by rw [hr.ends], hr.sends, hr.registered⟩

/-- Without the two failures of a new connection there is one, stored or new. -/
theorem exists_ready (hs : s.Owned) {svr : Str} {env : Env} (hf : ¬ s.ConnFails svr env)
    (hmem : ¬ (s.mapConn.lookup svr = none ∧ env.newConn = false)) :
    ∃ c s₁, s.addConnection svr env = .ok (some c, s₁) ∧ Ready s svr c s₁ := by
  cases hl : s.mapConn.lookup svr with
  | some c => exact ⟨c, s, addConnection_stored hs env hl⟩
  | none =>
    have hnew : env.newConn = true := by
      by_contra hnew
      exact hmem ⟨hl, Bool.not_eq_true _ ▸ hnew⟩
    have hconn : env.conn = .connected := by
      by_contra hconn
      exact hf ⟨hl, hnew, hconn⟩
    exact addConnection_new hs hl hnew hconn

section Ends
variable {kind : EndKind} {d : Dst} {cb : Option ℕ} {user : ℕ} {env : Env}

theorem addTo_noMemory (hl : s.mapConn.lookup d.strMQSvr = none) (hnew : env.newConn = false) :
    s.addTo kind d cb user env = .ok (none, s) := by
  simp [addTo, addConnection_noMemory hl hnew]

theorem addTo_noEnd {c : ℕ} {s₁ : MqMgr} (hx : s.addConnection d.strMQSvr env = .ok (some c, s₁))
    (hend : env.newEnd = false) : s.addTo kind d cb user env = .ok (none, s₁) := by
  simp [addTo, hx, Mem.addEnd, hend]

variable (kind cb user) in
/-- After a failed connect the endpoint goes to the deleted connection, unless there is no memory
for it. -/
theorem addTo_connFails (hf : s.ConnFails d.strMQSvr env) :
    (env.newEnd = true → s.addTo kind d cb user env = .error .useAfterFree) ∧
    (env.newEnd = false → ∃ s', s.addTo kind d cb user env = .ok (none, s') ∧ Unchanged s s') := by
  obtain ⟨c, s₁, hx, hu, hgone⟩ := addConnection_fails hf
  constructor
  · intro hend
    simp [addTo, hx, Mem.addEnd, hend, Mem.pushEnd, Heap.deref, hgone]
    rfl
  · exact fun hend => ⟨s₁, addTo_noEnd hx hend, hu⟩

/-- With a connection at hand everything depends on the memory for the endpoint. -/
theorem Ready.adding {s₁ : MqMgr} {c : ℕ} (hr : Ready s d.strMQSvr c s₁)
    (hf : ¬ s.ConnFails d.strMQSvr env) (hx : s.addConnection d.strMQSvr env = .ok (some c, s₁)) :
    Adding s kind d env (s.addTo kind d cb user env) := by
  have hdead : ¬ s.DeadConn d.strMQSvr env := fun h => hf h.1
  cases hend : env.newEnd with
  | false =>
    have hsup : ¬ Supplied env := fun h => Bool.noConfusion (h.2.2.symm.trans hend)
    rw [addTo_noEnd hx hend]
    exact .refused s₁ hdead hsup hr.quiet fun _ => hr.connDeletions
  | true =>
    obtain ⟨m', hx', ha⟩ := hr.added kind cb user hend
    have he : s.addTo kind d cb user env = .ok (some s.mem.ends.next, { s₁ with mem := m' }) := by
      simp [addTo, hx, hx']
    rw [he]
    exact .added _ hdead ha

end Ends

theorem addTo_cases (hs : s.Owned) (kind : EndKind) (d : Dst) (cb : Option ℕ) (user : ℕ)
    (env : Env) : Adding s kind d env (s.addTo kind d cb user env) := by
  by_cases hf : s.ConnFails d.strMQSvr env
  · cases hend : env.newEnd with
    | true =>
      rw [(addTo_connFails kind cb user hf).1 hend]
      exact .dead ⟨hf, hend⟩
    | false =>
      obtain ⟨s₁, he, hu⟩ := (addTo_connFails kind cb user hf).2 hend
      rw [he]
      exact .refused s₁ (fun h => Bool.noConfusion (h.2.symm.trans hend)) (fun h => hf.2.2 h.2.1)
        (hu.quiet hs) fun h => absurd h hf.2.2
  · by_cases hmem : s.mapConn.lookup d.strMQSvr = none ∧ env.newConn = false
    · rw [addTo_noMemory hmem.1 hmem.2]
      exact .refused s (fun h => hf h.1) (fun h => Bool.noConfusion (h.1.symm.trans hmem.2))
        (Quiet.refl hs) fun _ => rfl
    · obtain ⟨c, s₁, hx, hr⟩ := exists_ready hs hf hmem
      exact hr.adding hf hx

/-! ## `AddProducer` and `AddConsumer` -/

theorem addProducer_eq {u : Str} {d : Dst} (env : Env) (hp : parseMqUri u = some d)
    (hn : s.mapProcucer.lookup u = none) :
    s.addProducer u env = (do
      let (pPro, s) ← s.addTo .producer d none 0 env
      match pPro with
      | none => pure (dtkError, s)
      | some p =>
        pure (dtkOk, { s with mapProcucer := StrMap.add s.mapProcucer u (some p) })) := by
  simp only [addProducer, hp, hasProducer, hn, addTo, Option.isSome_none, Bool.false_eq_true,
    if_false]
  cases s.addConnection d.strMQSvr env with
  | error f => rfl
  | ok r =>
    obtain ⟨pConn, s₁⟩ := r
    cases pConn with
    | none => rfl
    | some c =>
      simp only [ok_bind, Mem.addProducer]
      cases s₁.mem.addEnd c .producer d.strDstName d.nType none 0 env <;> rfl

/-- The ways `AddProducer` ends. -/
inductive AddsProducer (s : MqMgr) (u : Str) (env : Env) : Except Fault (ℤ × MqMgr) → Prop
  | unparsed (hp : parseMqUri u = none) : AddsProducer s u env (.ok (dtkError, s))
  | cached (d : Dst) (pPro : Option ℕ) (hp : parseMqUri u = some d)
      (hu : s.mapProcucer.lookup u = some pPro) : AddsProducer s u env (.ok (dtkOk, s))
  | dead (d : Dst) (hp : parseMqUri u = some d) (hn : s.mapProcucer.lookup u = none)
      (hdead : s.DeadConn d.strMQSvr env) : AddsProducer s u env (.error .useAfterFree)
  | refused (d : Dst) (s' : MqMgr) (hp : parseMqUri u = some d)
      (hn : s.mapProcucer.lookup u = none) (hdead : ¬ s.DeadConn d.strMQSvr env)
      (hsup : ¬ Supplied env) (hq : Quiet s s')
      (hdel : env.conn = .connected → s'.connDeletions = s.connDeletions) :
      AddsProducer s u env (.ok (dtkError, s'))
  | added (d : Dst) (s₁ : MqMgr) (hp : parseMqUri u = some d)
      (hn : s.mapProcucer.lookup u = none) (hdead : ¬ s.DeadConn d.strMQSvr env)
      (ha : EndAdded s .producer d s₁) :
      AddsProducer s u env
        (.ok (dtkOk, { s₁ with mapProcucer := s.mapProcucer.insert u (some s.mem.ends.next) }))

theorem addProducer_cases (hs : s.Owned) (u : Str) (env : Env) :
    AddsProducer s u env (s.addProducer u env) := by
  cases hp : parseMqUri u with
  | none =>
    have he : s.addProducer u env = .ok (dtkError, s) := by simp [addProducer, hp]
    rw [he]
    exact .unparsed hp
  | some d =>
    cases hu : s.mapProcucer.lookup u with
    | some pPro =>
      have he : s.addProducer u env = .ok (dtkOk, s) := by
        simp [addProducer, hp, hasProducer, hu]
      rw [he]
      exact .cached d pPro hp hu
    | none =>
      rw [addProducer_eq env hp hu]
      have h := addTo_cases hs .producer d none 0 env
      generalize s.addTo .producer d none 0 env = r at h
      cases h with
      | dead hdead => exact .dead d hp hu hdead
      | refused s' hdead hsup hq hdel => exact .refused d s' hp hu hdead hsup hq hdel
      | added s' hdead ha =>
        simp only [ok_bind, pure_eq_ok]
        rw [ha.cache, StrMap_add_of_none _ hu]
        exact .added d s' hp hu hdead ha

theorem hasConsumer_ok (hs : s.Owned) (d : Dst) :
    s.hasConsumer d = .ok (s.firstMatch .consumer d).isSome := by
  unfold hasConsumer firstMatch
  cases hl : s.mapConn.lookup d.strMQSvr with
  | none => rfl
  | some c =>
    obtain ⟨co, hc⟩ := hs.connLive _ c hl
    have hf := Mem.findEnd_ok (m := s.mem) d.strDstName d.nType (l := co.listConsumer)
      fun e he => hs.mem.live c co hc e (List.mem_append_right _ he)
    simp [Mem.hasConsumer, Heap.deref_ok hc, hf, hc, MqConnection.list]

theorem addConsumer_eq (hs : s.Owned) {u : Str} {d : Dst} {cb : Option ℕ} (user : ℕ) (env : Env)
    (hcb : cb ≠ none) (hp : parseMqUri u = some d) (hn : s.firstMatch .consumer d = none) :
    s.addConsumer u cb user env = (do
      let (pConsumer, s) ← s.addTo .consumer d cb user env
      pure (if pConsumer.isSome then dtkOk else dtkError, s)) := by
  simp only [addConsumer, hcb, hp, hasConsumer_ok hs, hn, addTo, ok_bind, Option.isSome_none,
    Bool.false_eq_true, if_false]
  cases s.addConnection d.strMQSvr env with
  | error f => rfl
  | ok r =>
    obtain ⟨pConn, s₁⟩ := r
    cases pConn with
    | none => rfl
    | some c =>
      simp only [ok_bind, Mem.addConsumer]
      cases s₁.mem.addEnd c .consumer d.strDstName d.nType cb user env <;> rfl

/-- The ways `AddConsumer` ends. -/
inductive AddsConsumer (s : MqMgr) (u : Str) (cb : Option ℕ) (env : Env) :
    Except Fault (ℤ × MqMgr) → Prop
  | nullCallback (hcb : cb = none) : AddsConsumer s u cb env (.ok (dtkError, s))
  | unparsed (hcb : cb ≠ none) (hp : parseMqUri u = none) :
      AddsConsumer s u cb env (.ok (dtkError, s))
  | present (d : Dst) (e : ℕ) (hcb : cb ≠ none) (hp : parseMqUri u = some d)
      (he : s.firstMatch .consumer d = some e) : AddsConsumer s u cb env (.ok (dtkOk, s))
  | dead (d : Dst) (hcb : cb ≠ none) (hp : parseMqUri u = some d)
      (hn : s.firstMatch .consumer d = none) (hdead : s.DeadConn d.strMQSvr env) :
      AddsConsumer s u cb env (.error .useAfterFree)
  | refused (d : Dst) (s' : MqMgr) (hcb : cb ≠ none) (hp : parseMqUri u = some d)
      (hn : s.firstMatch .consumer d = none) (hdead : ¬ s.DeadConn d.strMQSvr env)
      (hsup : ¬ Supplied env) (hq : Quiet s s')
      (hdel : env.conn = .connected → s'.connDeletions = s.connDeletions) :
      AddsConsumer s u cb env (.ok (dtkError, s'))
  | added (d : Dst) (s' : MqMgr) (hcb : cb ≠ none) (hp : parseMqUri u = some d)
      (hn : s.firstMatch .consumer d = none) (hdead : ¬ s.DeadConn d.strMQSvr env)
      (ha : EndAdded s .consumer d s') : AddsConsumer s u cb env (.ok (dtkOk, s'))

theorem addConsumer_cases (hs : s.Owned) (u : Str) (cb : Option ℕ) (user : ℕ) (env : Env) :
    AddsConsumer s u cb env (s.addConsumer u cb user env) := by
  by_cases hcb : cb = none
  · have he : s.addConsumer u cb user env = .ok (dtkError, s) := by simp [addConsumer, hcb]
    rw [he]
    exact .nullCallback hcb
  · cases hp : parseMqUri u with
    | none =>
      have he : s.addConsumer u cb user env = .ok (dtkError, s) := by simp [addConsumer, hcb, hp]
      rw [he]
      exact .unparsed hcb hp
    | some d =>
      cases hf : s.firstMatch .consumer d with
      | some e =>
        have he : s.addConsumer u cb user env = .ok (dtkOk, s) := by
          simp [addConsumer, hcb, hp, hasConsumer_ok hs, hf]
        rw [he]
        exact .present d e hcb hp hf
      | none =>
        rw [addConsumer_eq hs user env hcb hp hf]
        have h := addTo_cases hs .consumer d cb user env
        generalize s.addTo .consumer d cb user env = r at h
        cases h with
        | dead hdead => exact .dead d hcb hp hf hdead
        | refused s' hdead hsup hq hdel => exact .refused d s' hcb hp hf hdead hsup hq hdel
        | added s' hdead ha => exact .added d s' hcb hp hf hdead ha

end AppUtil.Mq.MqMgr
