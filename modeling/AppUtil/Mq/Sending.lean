import AppUtil.Mq.Deleting

/-! # Sending

The ways `SendMsg` ends from an owned state. Apart from a refused `AddProducer` it ends in
`MqProducer::SendMsg` on the producer that the cache names, dead or alive. -/
namespace AppUtil.Mq.MqMgr
open AppUtil.Lib
set_option autoImplicit false

variable {s : MqMgr}

/-- `s'` is `s` after `MqProducer::SendMsg` on `p`. -/
structure SentOn (s : MqMgr) (p : ℕ) (strMsg : Str) (s' : MqMgr) : Prop where
  mapConn : s'.mapConn = s.mapConn
  cache : s'.mapProcucer = s.mapProcucer
  conns : s'.mem.conns = s.mem.conns
  ends : s'.mem.ends = s.mem.ends
  sends : s'.mem.sends = (p, strMsg) :: s.mem.sends
  deletions : s'.mem.deletions = s.mem.deletions
  connDeletions : s'.connDeletions = s.connDeletions

theorem SentOn.owned {s' : MqMgr} {p : ℕ} {strMsg : Str} (h : SentOn s p strMsg s')
    (hs : s.Owned) : s'.Owned :=
  owned_congr hs h.mapConn (by rw [h.conns]) (by rw [h.ends])
    (by rw [h.deletions]; exact List.Subset.refl _)

theorem SentOn.registered {s' : MqMgr} {p : ℕ} {strMsg : Str} (h : SentOn s p strMsg s')
    (kind : EndKind) (d : Dst) (e : ℕ) : s'.Registered kind d e ↔ s.Registered kind d e :=
  registered_congr h.mapConn (by rw [h.conns]) (by rw [h.ends]) kind d e

theorem sendOn_ok {p : ℕ} {ep : MqEndpoint} (strMsg : Str) (env : Env)
    (hp : s.mem.ends.cell p = some ep) :
    ∃ r s', s.sendOn (some p) strMsg env = .ok (r, s') ∧ SentOn s p strMsg s' := by
  obtain ⟨b, m', hx, hconns, hends, hsends, hdel, -⟩ := Mem.sendMsg_ok strMsg env.send hp
  exact ⟨if b then dtkOk else dtkError, { s with mem := m' }, by simp [sendOn, hx], rfl, rfl, hconns,
    hends, hsends, hdel, rfl⟩

theorem sendOn_dead {p : ℕ} (strMsg : Str) (env : Env) (hp : s.mem.ends.cell p = none) :
    s.sendOn (some p) strMsg env = .error .useAfterFree := by
  simp [sendOn, Mem.sendMsg, Heap.deref, hp]
  rfl

/-- The ways a call through the pointer `pPro` ends. -/
inductive Sends (s : MqMgr) (pPro : Option ℕ) (strMsg : Str) : Except Fault (ℤ × MqMgr) → Prop
  | null (hp : pPro = none) : Sends s pPro strMsg (.error .nullPointer)
  | dead (p : ℕ) (hp : pPro = some p) (hd : s.mem.ends.cell p = none) :
      Sends s pPro strMsg (.error .useAfterFree)
  | sent (p : ℕ) (ep : MqEndpoint) (r : ℤ) (s' : MqMgr) (hp : pPro = some p)
      (hl : s.mem.ends.cell p = some ep) (hs : SentOn s p strMsg s') :
      Sends s pPro strMsg (.ok (r, s'))

theorem sendOn_cases (pPro : Option ℕ) (strMsg : Str) (env : Env) :
    Sends s pPro strMsg (s.sendOn pPro strMsg env) := by
  cases pPro with
  | none => exact .null rfl
  | some p =>
    cases hp : s.mem.ends.cell p with
    | none =>
      rw [sendOn_dead strMsg env hp]
      exact .dead p rfl hp
    | some ep =>
      obtain ⟨r, s', hx, hs⟩ := sendOn_ok strMsg env hp
      rw [hx]
      exact .sent p ep r s' rfl hp hs

/-! ## The three sections of `SendMsg` -/

/-- The ways the first section ends. -/
inductive SendsCached (s : MqMgr) (u strMsg : Str) : Except Fault (Option ℤ × MqMgr) → Prop
  | missing (hn : s.mapProcucer.lookup u = none) : SendsCached s u strMsg (.ok (none, s))
  | null (hu : s.mapProcucer.lookup u = some none) : SendsCached s u strMsg (.error .nullPointer)
  | dead (p : ℕ) (hu : s.mapProcucer.lookup u = some (some p)) (hd : s.mem.ends.cell p = none) :
      SendsCached s u strMsg (.error .useAfterFree)
  | sent (p : ℕ) (ep : MqEndpoint) (r : ℤ) (s' : MqMgr)
      (hu : s.mapProcucer.lookup u = some (some p)) (hl : s.mem.ends.cell p = some ep)
      (hs : SentOn s p strMsg s') : SendsCached s u strMsg (.ok (some r, s'))

theorem sendCached_cases (u strMsg : Str) (env : Env) :
    SendsCached s u strMsg (s.sendCached u strMsg env) := by
  unfold sendCached
  cases hu : s.mapProcucer.lookup u with
  | none => exact .missing hu
  | some pPro =>
    dsimp only
    have h := sendOn_cases (s := s) pPro strMsg env
    generalize s.sendOn pPro strMsg env = r at h
    cases h with
    | null hp => exact .null (hp ▸ hu)
    | dead p hp hd => exact .dead p (hp ▸ hu) hd
    | sent p ep r s' hp hl hs => exact .sent p ep r s' (hp ▸ hu) hl hs

/-- The ways the last section ends. -/
inductive SendsAgain (s : MqMgr) (u strMsg : Str) : Except Fault (ℤ × MqMgr) → Prop
  | null (hu : s.mapProcucer.lookup u = none ∨ s.mapProcucer.lookup u = some none) :
      SendsAgain s u strMsg (.error .nullPointer)
  | dead (p : ℕ) (hu : s.mapProcucer.lookup u = some (some p)) (hd : s.mem.ends.cell p = none) :
      SendsAgain s u strMsg (.error .useAfterFree)
  | sent (p : ℕ) (ep : MqEndpoint) (r : ℤ) (s' : MqMgr)
      (hu : s.mapProcucer.lookup u = some (some p)) (hl : s.mem.ends.cell p = some ep)
      (hs : SentOn s p strMsg s') : SendsAgain s u strMsg (.ok (r, s'))

theorem sendAgain_cases (u strMsg : Str) (env : Env) :
    SendsAgain s u strMsg (s.sendAgain u strMsg env) := by
  unfold sendAgain subscript
  cases hu : s.mapProcucer.lookup u with
  | none => exact .null (Or.inl hu)
  | some pPro =>
    dsimp only
    have h := sendOn_cases (s := s) pPro strMsg env
    generalize s.sendOn pPro strMsg env = r at h
    cases h with
    | null hp => exact .null (Or.inr (hp ▸ hu))
    | dead p hp hd => exact .dead p (hp ▸ hu) hd
    | sent p ep r s' hp hl hs => exact .sent p ep r s' (hp ▸ hu) hl hs

/-! ## `SendMsg` as one call -/

/-- The ways `SendMsg` ends when nothing happens between its sections. -/
inductive SendsMsg (s : MqMgr) (u strMsg : Str) (env : Env) : Except Fault (ℤ × MqMgr) → Prop
  | null (hu : s.mapProcucer.lookup u = some none) : SendsMsg s u strMsg env (.error .nullPointer)
  | dangling (p : ℕ) (hu : s.mapProcucer.lookup u = some (some p))
      (hd : s.mem.ends.cell p = none) : SendsMsg s u strMsg env (.error .useAfterFree)
  | cached (p : ℕ) (ep : MqEndpoint) (r : ℤ) (s' : MqMgr)
      (hu : s.mapProcucer.lookup u = some (some p)) (hl : s.mem.ends.cell p = some ep)
      (hs : SentOn s p strMsg s') : SendsMsg s u strMsg env (.ok (r, s'))
  | unparsed (hn : s.mapProcucer.lookup u = none) (hp : parseMqUri u = none) :
      SendsMsg s u strMsg env (.ok (dtkError, s))
  | dead (d : Dst) (hp : parseMqUri u = some d) (hn : s.mapProcucer.lookup u = none)
      (hdead : s.DeadConn d.strMQSvr env) : SendsMsg s u strMsg env (.error .useAfterFree)
  | refused (d : Dst) (s' : MqMgr) (hp : parseMqUri u = some d)
      (hn : s.mapProcucer.lookup u = none) (hdead : ¬ s.DeadConn d.strMQSvr env)
      (hsup : ¬ Supplied env) (hq : Quiet s s')
      (hdel : env.conn = .connected → s'.connDeletions = s.connDeletions) :
      SendsMsg s u strMsg env (.ok (dtkError, s'))
  | added (d : Dst) (s₁ : MqMgr) (r : ℤ) (s' : MqMgr) (hp : parseMqUri u = some d)
      (hn : s.mapProcucer.lookup u = none) (hdead : ¬ s.DeadConn d.strMQSvr env)
      (ha : EndAdded s .producer d s₁)
      (hs : SentOn { s₁ with mapProcucer := s.mapProcucer.insert u (some s.mem.ends.next) }
        s.mem.ends.next strMsg s') : SendsMsg s u strMsg env (.ok (r, s'))

theorem EndAdded.registered_new {s' : MqMgr} {kind : EndKind} {d : Dst} (h : EndAdded s kind d s') :
    s'.Registered kind d s.mem.ends.next :=
  (h.registered kind d _).mpr (Or.inr ⟨rfl, rfl, rfl⟩)

theorem sendMsg_cases (hs : s.Owned) (u strMsg : Str) (env : Env) :
    SendsMsg s u strMsg env (s.sendMsg u strMsg env) := by
  unfold sendMsg
  have h := sendCached_cases (s := s) u strMsg env
  generalize s.sendCached u strMsg env = r at h
  cases h with
  | null hu => exact .null hu
  | dead p hu hd => exact .dangling p hu hd
  | sent p ep r s' hu hl hs => exact .cached p ep r s' hu hl hs
  | missing hn =>
    have h := addProducer_cases hs u env
    simp only [ok_bind]
    generalize s.addProducer u env = r at h
    cases h with
    | unparsed hp => exact .unparsed hn hp
    | cached d pPro hp hu =>
      rw [hn] at hu
      cases hu
    | dead d hp hn hdead => exact .dead d hp hn hdead
    | refused d s' hp hn hdead hsup hq hdel => exact .refused d s' hp hn hdead hsup hq hdel
    | added d s₁ hp hn hdead ha =>
      -- what was just added is found, and is alive
      have hu : (s.mapProcucer.insert u (some s.mem.ends.next)).lookup u =
          some (some s.mem.ends.next) := AList.lookup_insert _
      obtain ⟨ep, hl⟩ := ha.registered_new.live
      obtain ⟨r, s', hx, hsent⟩ := sendOn_ok
        (s := { s₁ with mapProcucer := s.mapProcucer.insert u (some s.mem.ends.next) })
        strMsg env hl
      have hx' : { s₁ with mapProcucer := s.mapProcucer.insert u (some s.mem.ends.next) }.sendAgain
          u strMsg env = .ok (r, s') := by
        simp only [sendAgain, subscript, hu]
        exact hx
      simp only [ok_bind, ne_eq, not_true_eq_false, if_false, hx']
      exact .added d s₁ r s' hp hn hdead ha hsent

end AppUtil.Mq.MqMgr
