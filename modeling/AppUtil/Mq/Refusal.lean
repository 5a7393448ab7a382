import AppUtil.Mq.Teardown

/-! # A connect that fails

`Conn` returns `false`, `AddConnection` deletes the new connection and returns its address all the
same. The callers test for NULL only, and go on to add an endpoint to it. -/
namespace AppUtil.Mq.MqMgr
open AppUtil.Lib
set_option autoImplicit false

variable {s s' : MqMgr}

/-- The two maps of the manager are as before. -/
def SameRegistry (s s' : MqMgr) : Prop :=
  s'.mapConn = s.mapConn ∧ s'.mapProcucer = s.mapProcucer

/-- The operation reports an error, without a fault, and leaves the registry as it was. -/
def Refuses (s : MqMgr) (r : Except Fault (ℤ × MqMgr)) : Prop :=
  ∃ s', r = .ok (dtkError, s') ∧ SameRegistry s s'

/-- What a failed connect to the server of `u` should come to. -/
structure ConnectRefused (s : MqMgr) (u svr : Str) (env : Env) : Prop where
  connection : ∃ s', s.addConnection svr env = .ok (none, s')
  producer : s.Refuses (s.addProducer u env)
  consumer : ∀ cb user, s.Refuses (s.addConsumer u cb user env)
  send : ∀ strMsg, s.Refuses (s.sendMsg u strMsg env)

theorem Unchanged.sameRegistry (h : Unchanged s s') : SameRegistry s s' := ⟨h.mapConn, h.cache⟩

theorem not_refuses_error (f : Fault) : ¬ s.Refuses (.error f) := by
  rintro ⟨s', hx, -⟩
  cases hx

theorem firstMatch_unstored {kind : EndKind} {d : Dst} (hl : s.mapConn.lookup d.strMQSvr = none) :
    s.firstMatch kind d = none := by
  simp [firstMatch, hl]

section
variable {u : Str} {d : Dst} {env : Env}

/-- What follows `addTo` reports its NULL; it is not reached when `addTo` faults. -/
theorem refuses_addTo_iff (kind : EndKind) (cb : Option ℕ) (user : ℕ) (hf : s.ConnFails d.strMQSvr env)
    {k : Option ℕ × MqMgr → Except Fault (ℤ × MqMgr)} (hk : ∀ s', k (none, s') = .ok (dtkError, s')) :
    s.Refuses (s.addTo kind d cb user env >>= k) ↔ env.newEnd = false := by
  have hadd := addTo_connFails kind cb user hf
  cases hend : env.newEnd with
  | true =>
    rw [hadd.1 hend]
    exact ⟨fun h => absurd h (not_refuses_error _), fun h => Bool.noConfusion h⟩
  | false =>
    obtain ⟨s', hx, hu⟩ := hadd.2 hend
    rw [hx, ok_bind, hk]
    exact ⟨fun _ => rfl, fun _ => ⟨s', rfl, hu.sameRegistry⟩⟩

theorem addProducer_connFails (hp : parseMqUri u = some d) (hn : s.mapProcucer.lookup u = none)
    (hf : s.ConnFails d.strMQSvr env) : s.Refuses (s.addProducer u env) ↔ env.newEnd = false := by
  rw [addProducer_eq env hp hn]
  exact refuses_addTo_iff .producer none 0 hf fun _ => rfl

theorem addConsumer_connFails (hs : s.Owned) {cb : Option ℕ} (user : ℕ) (hcb : cb ≠ none)
    (hp : parseMqUri u = some d) (hf : s.ConnFails d.strMQSvr env) :
    s.Refuses (s.addConsumer u cb user env) ↔ env.newEnd = false := by
  rw [addConsumer_eq hs user env hcb hp (firstMatch_unstored hf.1)]
  exact refuses_addTo_iff .consumer cb user hf fun _ => rfl

theorem sendMsg_connFails (msg : Str) (hp : parseMqUri u = some d)
    (hn : s.mapProcucer.lookup u = none) (hf : s.ConnFails d.strMQSvr env) :
    s.Refuses (s.sendMsg u msg env) ↔ env.newEnd = false := by
  simp only [sendMsg, sendCached, hn, ok_bind, addProducer_eq env hp hn, bind_assoc]
  exact refuses_addTo_iff .producer none 0 hf fun _ => rfl

end

/-- **A failed connect is never refused.** In every state that a run reaches and for every url whose
server has no connection, when `Conn` fails `AddConnection` returns the address of the connection
that it has deleted; and the operations on the url use that connection unless the memory for the
endpoint is missing too. -/
theorem failedConnect (closeThrows : ℕ → Bool) (L : Op → Prop) (s : MqMgr)
    (h : Reaches exec L (init closeThrows) s) (u : Str) (d : Dst) (env : Env)
    (hp : parseMqUri u = some d) (hf : s.ConnFails d.strMQSvr env) :
    ¬ s.ConnectRefused u d.strMQSvr env ∧
    (∃ c s', s.addConnection d.strMQSvr env = .ok (some c, s') ∧ s'.mem.conns.cell c = none ∧
      SameRegistry s s') ∧
    (∀ cb user, cb ≠ none → (s.Refuses (s.addConsumer u cb user env) ↔ env.newEnd = false)) ∧
    (s.mapProcucer.lookup u = none →
      (s.Refuses (s.addProducer u env) ↔ env.newEnd = false) ∧
      ∀ msg, s.Refuses (s.sendMsg u msg env) ↔ env.newEnd = false) := by
  have hs := (reaches_wired h).1
  obtain ⟨c, s', hx, hu, hgone⟩ := addConnection_fails hf
  refine ⟨fun hr => ?_, ⟨c, s', hx, hgone, hu.sameRegistry⟩,
    fun cb user hcb => addConsumer_connFails hs user hcb hp hf,
    fun hn => ⟨addProducer_connFails hp hn hf, fun msg => sendMsg_connFails msg hp hn hf⟩⟩
  obtain ⟨s'', hx'⟩ := hr.connection
  rw [hx] at hx'
  cases hx'

theorem failedConnect_sample :
    ¬ (init fun _ => false).ConnectRefused (urlOf ⟨['S'], ['D'], .mqModeQueue⟩) ['S']
      { Env.ok with conn := .startThrows } :=
  (failedConnect (fun _ => false) (fun _ => True) _ .start _ ⟨['S'], ['D'], .mqModeQueue⟩ _
    (by decide) ⟨rfl, rfl, by decide⟩).1

/-- With memory enough and a broker that cannot be reached, the first `AddProducer` of a process
uses the connection that it has just deleted. -/
theorem failedConnect_uses_deleted :
    ¬ (init fun _ => false).ConnectRefused (urlOf ⟨['S'], ['D'], .mqModeQueue⟩) ['S']
      { Env.ok with conn := .factoryThrows } ∧
    (init fun _ => false).addProducer (urlOf ⟨['S'], ['D'], .mqModeQueue⟩)
      { Env.ok with conn := .factoryThrows } = .error .useAfterFree := by
  have hx : (init fun _ => false).addProducer (urlOf ⟨['S'], ['D'], .mqModeQueue⟩)
      { Env.ok with conn := .factoryThrows } = .error .useAfterFree := rfl
  refine ⟨fun h => ?_, hx⟩
  have hr := h.producer
  rw [hx] at hr
  exact not_refuses_error _ hr

end AppUtil.Mq.MqMgr
