import AppUtil.Mq.Sending

/-! # Runs of the manager

The kinds of runs that the results are about, what every operation keeps, and what is left when
`Fini` ends a run. -/
namespace AppUtil.Mq
open AppUtil.Lib
set_option autoImplicit false

namespace Op

/-- Whatever connects succeeds. -/
def Connects : Op → Prop
  | .addProducer _ env | .sendMsg _ _ env | .addConsumer _ _ _ env => env.conn = .connected
  | .delProducer _ | .delConsumer _ | .onException _ => True

/-- Connects and allocations succeed. -/
def Supplied : Op → Prop
  | .addProducer _ env | .sendMsg _ _ env | .addConsumer _ _ _ env => MqMgr.Supplied env
  | .delProducer _ | .delConsumer _ | .onException _ => True

/-- Every url is canonical. -/
def CanonicalUrl : Op → Prop
  | .addProducer u _ | .delProducer u | .sendMsg u _ _ | .addConsumer u _ _ _ | .delConsumer u =>
    Canonical u
  | .onException _ => True

theorem Supplied.connects {op : Op} (h : op.Supplied) : op.Connects := by
  cases op with
  | addProducer u env => exact h.2.1
  | sendMsg u msg env => exact h.2.1
  | addConsumer u cb user env => exact h.2.1
  | _ => trivial

def IsOnException : Op → Prop
  | .onException _ => True
  | _ => False

def IsSendMsg : Op → Prop
  | .sendMsg _ _ _ => True
  | _ => False

end Op

namespace MqMgr
variable {s s' : MqMgr}

/-! ## What one operation does -/

/-- The operation finds nothing to do. -/
def Idle (s : MqMgr) : Op → Prop
  | .addProducer u _ => parseMqUri u = none ∨ (s.mapProcucer.lookup u).isSome
  | .delProducer u | .delConsumer u => parseMqUri u = none
  | .sendMsg u _ _ => s.mapProcucer.lookup u = none ∧ parseMqUri u = none
  | .addConsumer u cb _ _ => cb = none ∨ parseMqUri u = none ∨
    ∃ d e, parseMqUri u = some d ∧ s.firstMatch .consumer d = some e
  | .onException _ => False

/-- The operation adds an endpoint to a connection that it has just deleted. -/
def UsesDead (s : MqMgr) : Op → Prop
  | .addProducer u env | .sendMsg u _ env =>
    ∃ d, parseMqUri u = some d ∧ s.mapProcucer.lookup u = none ∧ s.DeadConn d.strMQSvr env
  | .addConsumer u cb _ env => cb ≠ none ∧
    ∃ d, parseMqUri u = some d ∧ s.firstMatch .consumer d = none ∧ s.DeadConn d.strMQSvr env
  | .delProducer _ | .delConsumer _ | .onException _ => False

/-- The ways an operation ends. -/
inductive Exec (s : MqMgr) : Op → Except Fault MqMgr → Prop
  | idle (op : Op) (hidle : s.Idle op) : Exec s op (.ok s)
  | refused (op : Op) (s' : MqMgr) (hsup : ¬ op.Supplied) (hq : Quiet s s')
      (hdel : op.Connects → s'.connDeletions = s.connDeletions) : Exec s op (.ok s')
  | usesDead (op : Op) (hdead : s.UsesDead op) : Exec s op (.error .useAfterFree)
  | addedProducer (u : Str) (env : Env) (d : Dst) (s₁ : MqMgr) (hp : parseMqUri u = some d)
      (hn : s.mapProcucer.lookup u = none) (ha : EndAdded s .producer d s₁) :
      Exec s (.addProducer u env)
        (.ok { s₁ with mapProcucer := s.mapProcucer.insert u (some s.mem.ends.next) })
  | addedConsumer (u : Str) (cb : Option ℕ) (user : ℕ) (env : Env) (d : Dst) (s' : MqMgr)
      (hcb : cb ≠ none) (hp : parseMqUri u = some d) (hn : s.firstMatch .consumer d = none)
      (ha : EndAdded s .consumer d s') : Exec s (.addConsumer u cb user env) (.ok s')
  | tookProducer (u : Str) (d : Dst) (s₁ : MqMgr) (hp : parseMqUri u = some d)
      (ht : Taken s .producer d s₁) :
      Exec s (.delProducer u) (.ok { s₁ with mapProcucer := s.mapProcucer.erase u })
  | tookConsumer (u : Str) (d : Dst) (s' : MqMgr) (hp : parseMqUri u = some d)
      (ht : Taken s .consumer d s') : Exec s (.delConsumer u) (.ok s')
  | null (u msg : Str) (env : Env) (hu : s.mapProcucer.lookup u = some none) :
      Exec s (.sendMsg u msg env) (.error .nullPointer)
  | dangling (u msg : Str) (env : Env) (p : ℕ) (hu : s.mapProcucer.lookup u = some (some p))
      (hd : s.mem.ends.cell p = none) : Exec s (.sendMsg u msg env) (.error .useAfterFree)
  | sent (u msg : Str) (env : Env) (p : ℕ) (ep : MqEndpoint) (s' : MqMgr)
      (hu : s.mapProcucer.lookup u = some (some p)) (hl : s.mem.ends.cell p = some ep)
      (hs : SentOn s p msg s') : Exec s (.sendMsg u msg env) (.ok s')
  | addedAndSent (u msg : Str) (env : Env) (d : Dst) (s₁ s' : MqMgr) (hp : parseMqUri u = some d)
      (hn : s.mapProcucer.lookup u = none) (ha : EndAdded s .producer d s₁)
      (hs : SentOn { s₁ with mapProcucer := s.mapProcucer.insert u (some s.mem.ends.next) }
        s.mem.ends.next msg s') : Exec s (.sendMsg u msg env) (.ok s')
  | failed (svr : Str) (s' : MqMgr) (hf : Failed s svr s') : Exec s (.onException svr) (.ok s')

/-- **What one operation does**: everything that is proved of runs comes from this. -/
theorem exec_cases (hs : s.Owned) (op : Op) : Exec s op (s.exec op) := by
  cases op with
  | addProducer u env =>
    have h := addProducer_cases hs u env
    simp only [exec]
    generalize s.addProducer u env = r at h
    cases h with
    | unparsed hp => exact .idle _ (Or.inl hp)
    | cached d pPro hp hu => exact .idle _ (Or.inr (by rw [hu]; rfl))
    | dead d hp hn hdead => exact .usesDead _ ⟨d, hp, hn, hdead⟩
    | refused d s' hp hn hdead hsup hq hdel => exact .refused _ s' hsup hq hdel
    | added d s₁ hp hn hdead ha => exact .addedProducer u env d s₁ hp hn ha
  | delProducer u =>
    simp only [exec]
    cases hp : parseMqUri u with
    | none =>
      rw [delProducer_unparsed hp]
      exact .idle _ hp
    | some d =>
      obtain ⟨s₁, hx, ht⟩ := delProducer_ok hs hp
      rw [hx]
      exact .tookProducer u d s₁ hp ht
  | sendMsg u msg env =>
    have h := sendMsg_cases hs u msg env
    simp only [exec]
    generalize s.sendMsg u msg env = r at h
    cases h with
    | null hu => exact .null u msg env hu
    | dangling p hu hd => exact .dangling u msg env p hu hd
    | cached p ep r s' hu hl hsent => exact .sent u msg env p ep s' hu hl hsent
    | unparsed hn hp => exact .idle _ ⟨hn, hp⟩
    | dead d hp hn hdead => exact .usesDead _ ⟨d, hp, hn, hdead⟩
    | refused d s' hp hn hdead hsup hq hdel => exact .refused _ s' hsup hq hdel
    | added d s₁ r s' hp hn hdead ha hsent => exact .addedAndSent u msg env d s₁ s' hp hn ha hsent
  | addConsumer u cb user env =>
    have h := addConsumer_cases hs u cb user env
    simp only [exec]
    generalize s.addConsumer u cb user env = r at h
    cases h with
    | nullCallback hcb => exact .idle _ (Or.inl hcb)
    | unparsed hcb hp => exact .idle _ (Or.inr (Or.inl hp))
    | present d e hcb hp he => exact .idle _ (Or.inr (Or.inr ⟨d, e, hp, he⟩))
    | dead d hcb hp hn hdead => exact .usesDead _ ⟨hcb, d, hp, hn, hdead⟩
    | refused d s' hcb hp hn hdead hsup hq hdel => exact .refused _ s' hsup hq hdel
    | added d s' hcb hp hn hdead ha => exact .addedConsumer u cb user env d s' hcb hp hn ha
  | delConsumer u =>
    simp only [exec]
    cases hp : parseMqUri u with
    | none =>
      rw [delConsumer_unparsed hp]
      exact .idle _ hp
    | some d =>
      obtain ⟨s', hx, ht⟩ := delConsumer_ok hs hp
      rw [hx]
      exact .tookConsumer u d s' hp ht
  | onException svr =>
    obtain ⟨s', hx, hf⟩ := onException_ok hs svr
    simp only [exec, hx]
    exact .failed svr s' hf

theorem not_usesDead {op : Op} (h : op.Connects) : ¬ s.UsesDead op := by
  intro hd
  cases op with
  | addProducer u env => exact hd.choose_spec.2.2.1.2.2 h
  | sendMsg u msg env => exact hd.choose_spec.2.2.1.2.2 h
  | addConsumer u cb user env => exact hd.2.choose_spec.2.2.1.2.2 h
  | delProducer u => exact hd
  | delConsumer u => exact hd
  | onException svr => exact hd

theorem exec_usesDead {op : Op} (hs : s.Owned) (h : s.UsesDead op) :
    s.exec op = .error .useAfterFree := by
  cases op with
  | addProducer u env =>
    obtain ⟨d, hp, hn, hdead⟩ := h
    have h := addProducer_cases hs u env
    simp only [exec]
    generalize s.addProducer u env = r at h
    cases h <;> simp_all
    rfl
  | sendMsg u msg env =>
    obtain ⟨d, hp, hn, hdead⟩ := h
    have h := sendMsg_cases hs u msg env
    simp only [exec]
    generalize s.sendMsg u msg env = r at h
    cases h <;> simp_all
    rfl
  | addConsumer u cb user env =>
    obtain ⟨hcb, d, hp, hn, hdead⟩ := h
    have h := addConsumer_cases hs u cb user env
    simp only [exec]
    generalize s.addConsumer u cb user env = r at h
    cases h <;> simp_all
    rfl
  | delProducer u => exact h.elim
  | delConsumer u => exact h.elim
  | onException svr => exact h.elim

/-! ## Owned states stay owned -/

/-- The new cache does not matter for who owns what. -/
theorem Owned.cached (h : s.Owned) (t : StrMap (Option ℕ)) : { s with mapProcucer := t }.Owned :=
  owned_congr h rfl rfl rfl (List.Subset.refl _)

theorem exec_owned {op : Op} (hs : s.Owned) (hx : s.exec op = .ok s') : s'.Owned := by
  have h := exec_cases hs op
  rw [hx] at h
  cases h with
  | idle _ hidle => exact hs
  | refused _ _ hsup hq hdel => exact hq.owned
  | addedProducer u env d s₁ hp hn ha => exact ha.owned.cached _
  | addedConsumer u cb user env d _ hcb hp hn ha => exact ha.owned
  | tookProducer u d s₁ hp ht => exact ht.owned.cached _
  | tookConsumer u d _ hp ht => exact ht.owned
  | sent u msg env p ep _ hu hl hsent => exact hsent.owned hs
  | addedAndSent u msg env d s₁ _ hp hn ha hsent => exact hsent.owned (ha.owned.cached _)
  | failed svr _ hf => exact hf.owned

/-- While the connects succeed, an operation only deletes connections that are stored. -/
theorem exec_connDeletions {op : Op} (hs : s.Owned) (hop : op.Connects)
    (hx : s.exec op = .ok s') : ∀ x ∈ s'.connDeletions, x ∈ s.connDeletions ∨ x.2 = true := by
  have hsame : s'.connDeletions = s.connDeletions →
      ∀ x ∈ s'.connDeletions, x ∈ s.connDeletions ∨ x.2 = true := fun h x hx => Or.inl (h ▸ hx)
  have h := exec_cases hs op
  rw [hx] at h
  cases h with
  | idle _ hidle => exact hsame rfl
  | refused _ _ hsup hq hdel => exact hsame (hdel hop)
  | addedProducer u env d s₁ hp hn ha => exact hsame ha.connDeletions
  | addedConsumer u cb user env d _ hcb hp hn ha => exact hsame ha.connDeletions
  | tookProducer u d s₁ hp ht => exact ht.connDeletions
  | tookConsumer u d _ hp ht => exact ht.connDeletions
  | sent u msg env p ep _ hu hl hsent => exact hsame hsent.connDeletions
  | addedAndSent u msg env d s₁ _ hp hn ha hsent =>
    exact hsame (hsent.connDeletions.trans ha.connDeletions)
  | failed svr _ hf => exact hsame hf.connDeletions

/-- Only `SendMsg` can go wrong while the connects succeed, and it never deletes twice. -/
theorem exec_faults {op : Op} (hs : s.Owned) (hop : op.Connects) {f : Fault}
    (hx : s.exec op = .error f) : op.IsSendMsg ∧ f ≠ .doubleFree := by
  have h := exec_cases hs op
  rw [hx] at h
  cases h with
  | usesDead _ hdead => exact absurd hdead (not_usesDead hop)
  | null u msg env hu => exact ⟨trivial, Fault.noConfusion⟩
  | dangling u msg env p hu hd => exact ⟨trivial, Fault.noConfusion⟩

/-! ## Every object is deleted once -/

/-- All connections that the run deleted were stored when it did. -/
def StoredDeletions (s : MqMgr) : Prop := ∀ x ∈ s.connDeletions, x.2 = true

theorem reaches_owned {closeThrows : ℕ → Bool} (h : Reaches exec Op.Connects (init closeThrows) s) :
    s.Owned ∧ s.StoredDeletions := by
  refine h.inv (P := fun s => s.Owned ∧ s.StoredDeletions) (fun s op s' hop hs hx => ?_)
    ⟨init_owned closeThrows, by simp [StoredDeletions, init]⟩
  have hdel := exec_connDeletions hs.1 hop hx
  exact ⟨exec_owned hs.1 hx, fun x hx => (hdel x hx).elim (hs.2 x) id⟩

/-- **Every object is freed exactly once.** In every state that a run reaches, every operation but
`SendMsg` succeeds, none deletes an object twice, and `Fini` leaves each connection and each
endpoint ever allocated deleted exactly once, each while the map or a list held it. -/
theorem fini_freesOnce (closeThrows : ℕ → Bool) (s : MqMgr)
    (h : Reaches exec Op.Connects (init closeThrows) s) :
    (∀ op, op.Connects → (∃ s', s.exec op = .ok s') ∨
      op.IsSendMsg ∧ ∃ f, s.exec op = .error f ∧ f ≠ .doubleFree) ∧
    ∃ s', s.fini = .ok s' ∧
      (∀ c, c < s'.mem.conns.next → s'.mem.conns.frees c = 1) ∧
      (∀ e, e < s'.mem.ends.next → s'.mem.ends.frees e = 1) ∧
      (∀ d ∈ s'.mem.deletions, d.listed = true) ∧ ∀ x ∈ s'.connDeletions, x.2 = true := by
  obtain ⟨hs, hstored⟩ := reaches_owned h
  constructor
  · intro op hop
    cases hx : s.exec op with
    | ok s' => exact Or.inl ⟨s', rfl⟩
    | error f =>
      obtain ⟨hsend, hf⟩ := exec_faults hs hop hx
      exact Or.inr ⟨hsend, f, rfl, hf⟩
  · obtain ⟨s', hx, hf⟩ := fini_ok hs
    exact ⟨s', hx, fun c hc => Heap.frees_eq_one hc (hf.conns c),
      fun e he => Heap.frees_eq_one he (hf.ends e), fun d hd => (hf.deletions d hd).1,
      fun x hx => (hf.connDeletions x hx).elim (hstored x) id⟩

theorem fini_freesOnce_sample : ∃ s, (init fun _ => false).exec
      (.addProducer (urlOf ⟨['S'], ['D'], .mqModeQueue⟩) .ok) = .ok s ∧
    ∃ s', s.fini = .ok s' ∧ ∀ e, e < s'.mem.ends.next → s'.mem.ends.frees e = 1 := by
  obtain ⟨s, hx⟩ : ∃ s, (init fun _ => false).exec
      (.addProducer (urlOf ⟨['S'], ['D'], .mqModeQueue⟩) .ok) = .ok s := ⟨_, rfl⟩
  have hconn : Op.Connects (.addProducer (urlOf ⟨['S'], ['D'], .mqModeQueue⟩) .ok) := rfl
  obtain ⟨-, s', hf, -, he, -⟩ := fini_freesOnce _ s (.next _ .start hconn hx)
  exact ⟨s, hx, s', hf, he⟩

end MqMgr
end AppUtil.Mq
