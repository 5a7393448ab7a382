import AppUtil.Mq.Teardown

/-! # One consumer for each destination

`DelConsumer` takes the first consumer that matches, and `AddConsumer` looks for one before it adds.
Whatever a url looks like, both go by what it means, so that no destination ever has two. -/
namespace AppUtil.Mq.MqMgr
open AppUtil.Lib AppUtil.Lib.Lifetime
set_option autoImplicit false

variable {s s' : MqMgr}

/-- No destination has two consumers. -/
def SingleConsumer (s : MqMgr) : Prop :=
  ∀ d e e', s.Registered .consumer d e → s.Registered .consumer d e' → e = e'

theorem init_singleConsumer (closeThrows : ℕ → Bool) : (init closeThrows).SingleConsumer := by
  rintro d e e' ⟨c, co, ep, hl, -⟩ -
  simp [init] at hl

theorem SingleConsumer.of_subset (h : s.SingleConsumer)
    (hsub : ∀ d e, s'.Registered .consumer d e → s.Registered .consumer d e) :
    s'.SingleConsumer :=
  fun d e e' he he' => h d e e' (hsub d e he) (hsub d e' he')

theorem SingleConsumer.addedProducer (h : s.SingleConsumer) {d : Dst}
    (ha : EndAdded s .producer d s') : s'.SingleConsumer := by
  refine h.of_subset fun d' e he => ?_
  rcases (ha.registered .consumer d' e).mp he with he | ⟨hk, -⟩
  · exact he
  · cases hk

/-- A consumer is only added where there is none. -/
theorem SingleConsumer.addedConsumer (h : s.SingleConsumer) {d : Dst}
    (hn : s.firstMatch .consumer d = none) (ha : EndAdded s .consumer d s') :
    s'.SingleConsumer := by
  intro d' e e' he he'
  rcases (ha.registered .consumer d' e).mp he with he | ⟨-, rfl, rfl⟩
  · rcases (ha.registered .consumer d' e').mp he' with he' | ⟨-, rfl, -⟩
    · exact h d' e e' he he'
    · exact absurd he (firstMatch_none hn e)
  · rcases (ha.registered .consumer d' e').mp he' with he' | ⟨-, -, rfl⟩
    · exact absurd he' (firstMatch_none hn e')
    · rfl

theorem exec_singleConsumer {op : Op} (hs : s.Owned) (h : s.SingleConsumer)
    (hx : s.exec op = .ok s') : s'.SingleConsumer := by
  have hcases := exec_cases hs op
  rw [hx] at hcases
  cases hcases with
  | idle _ hidle => exact h
  | refused _ _ hsup hq hdel => exact h.of_subset fun d e => (hq.registered .consumer d e).mp
  | addedProducer u env d s₁ hp hn ha => exact (h.addedProducer ha).of_subset fun _ _ => id
  | addedConsumer u cb user env d _ hcb hp hn ha => exact h.addedConsumer hn ha
  | tookProducer u d s₁ hp ht =>
    exact h.of_subset fun d' e he => ((ht.registered .consumer d' e).mp he).1
  | tookConsumer u d _ hp ht =>
    exact h.of_subset fun d' e he => ((ht.registered .consumer d' e).mp he).1
  | sent u msg env p ep _ hu hl hsent =>
    exact h.of_subset fun d e => (hsent.registered .consumer d e).mp
  | addedAndSent u msg env d s₁ _ hp hn ha hsent =>
    exact (h.addedProducer ha).of_subset fun d e => (hsent.registered .consumer d e).mp
  | failed svr _ hf => exact h.of_subset fun d e he => ((hf.registered .consumer d e).mp he).1

theorem reaches_singleConsumer {closeThrows : ℕ → Bool} {L : Op → Prop}
    (h : Reaches exec L (init closeThrows) s) : s.SingleConsumer :=
  (h.inv (P := fun s => s.Owned ∧ s.SingleConsumer)
    (fun _ _ _ _ hs hx => ⟨exec_owned hs.1 hx, exec_singleConsumer hs.1 hs.2 hx⟩)
    ⟨init_owned closeThrows, init_singleConsumer closeThrows⟩).2

/-! ## In the lists -/

/-- At most one consumer in the list of a connection has a given name and mode. -/
theorem SingleConsumer.countP_le_one (h : s.SingleConsumer) (hs : s.Owned) {c : ℕ}
    {co : MqConnection} (hc : s.mem.conns.cell c = some co) (strName : Str) (nType : MqMsgMode) :
    co.listConsumer.countP (s.mem.isMatch strName nType) ≤ 1 := by
  obtain ⟨svr, hl⟩ := hs.connStored c co hc
  have hnd : co.listConsumer.Nodup := (List.nodup_append.mp (hs.mem.nodup c co hc)).2.1
  have hreg : ∀ e ∈ co.listConsumer.filter (s.mem.isMatch strName nType),
      s.Registered .consumer ⟨svr, strName, nType⟩ e := by
    intro e he
    obtain ⟨hmem, hm⟩ := List.mem_filter.mp he
    obtain ⟨ep, hep, hname, hmode⟩ := Mem.isMatch_iff.mp hm
    exact ⟨c, co, ep, hl, hc, hmem, hep, hname, hmode⟩
  rw [List.countP_eq_length_filter]
  -- two of them would be registered for the same destination
  match hf : co.listConsumer.filter (s.mem.isMatch strName nType) with
  | [] => exact Nat.zero_le 1
  | [e] => exact Nat.le_refl 1
  | e :: e' :: l =>
    rw [hf] at hreg
    have hne := (List.nodup_cons.mp (hf ▸ hnd.filter _)).1
    have := h _ e e' (hreg e (by simp)) (hreg e' (by simp))
    exact absurd (this ▸ List.mem_cons_self ..) hne

/-- Taking the first consumer of a destination takes the only one. -/
theorem Taken.no_consumer (h : s.SingleConsumer) {d : Dst} (ht : Taken s .consumer d s') (e : ℕ) :
    ¬ s'.Registered .consumer d e := by
  intro he
  obtain ⟨he, hne⟩ := (ht.registered .consumer d e).mp he
  cases hf : s.firstMatch .consumer d with
  | none => exact firstMatch_none hf e he
  | some e' =>
    obtain rfl := h d e e' he (firstMatch_some hf)
    exact hne hf

theorem addConsumer_present (hs : s.Owned) {u : Str} {d : Dst} {e : ℕ} (cb : Option ℕ) (user : ℕ)
    (env : Env) (hp : parseMqUri u = some d) (he : s.Registered .consumer d e) :
    s.addConsumer u cb user env = .ok (if cb = none then dtkError else dtkOk, s) := by
  have h := addConsumer_cases hs u cb user env
  generalize s.addConsumer u cb user env = r at h
  cases h with
  | nullCallback hcb => rw [if_pos hcb]
  | unparsed hcb hp' =>
    rw [hp] at hp'
    cases hp'
  | present d' e' hcb hp' he' => rw [if_neg hcb]
  | dead d' hcb hp' hn hdead =>
    obtain rfl := Option.some.inj (hp.symm.trans hp')
    exact absurd he (firstMatch_none hn e)
  | refused d' s' hcb hp' hn hdead hsup hq hdel =>
    obtain rfl := Option.some.inj (hp.symm.trans hp')
    exact absurd he (firstMatch_none hn e)
  | added d' s' hcb hp' hn hdead ha =>
    obtain rfl := Option.some.inj (hp.symm.trans hp')
    exact absurd he (firstMatch_none hn e)

theorem addConsumer_registers (hs : s.Owned) {u : Str} {d : Dst} {cb : Option ℕ} {user : ℕ}
    {env : Env} (hp : parseMqUri u = some d) (hx : s.addConsumer u cb user env = .ok (dtkOk, s')) :
    ∃ e, s'.Registered .consumer d e := by
  have h := addConsumer_cases hs u cb user env
  rw [hx] at h
  cases h with
  | present d' e hcb hp' he =>
    obtain rfl := Option.some.inj (hp.symm.trans hp')
    exact ⟨e, firstMatch_some he⟩
  | added d' _ hcb hp' hn hdead ha =>
    obtain rfl := Option.some.inj (hp.symm.trans hp')
    exact ⟨_, ha.registered_new⟩

/-! ## Every reachable state -/

/-- Each connection is stored under one server, and a destination has one consumer at most.
`DelConsumer` leaves none of its destination, neither an object nor anything of the library that was
not released; and once `AddConsumer` has succeeded, another url of the destination adds nothing. -/
structure OneConsumer (s : MqMgr) : Prop where
  stored : ∀ c co, s.mem.conns.cell c = some co → ∃! svr, s.mapConn.lookup svr = some c
  listed : ∀ c co, s.mem.conns.cell c = some co → ∀ strName nType,
    co.listConsumer.countP (s.mem.isMatch strName nType) ≤ 1
  deleted : ∀ u d, parseMqUri u = some d → ∃ s', s.delConsumer u = .ok (dtkOk, s') ∧
    (∀ e, ¬ s'.Registered .consumer d e) ∧
    ∀ x ss, Event.born (.child x) (some (.session ss)) ∈ s'.mem.cms.events →
      Event.died (.child x) ∈ s'.mem.cms.events ∨
      ∃ kind d' e ep, s'.Registered kind d' e ∧ s'.mem.ends.cell e = some ep ∧ ep.Holds x ∧
        (kind = .consumer → d' ≠ d)
  registers : ∀ u d cb user env s', parseMqUri u = some d →
    s.addConsumer u cb user env = .ok (dtkOk, s') → ∃ e, s'.Registered .consumer d e
  present : ∀ u d e cb user env, parseMqUri u = some d → s.Registered .consumer d e →
    s.addConsumer u cb user env = .ok (if cb = none then dtkError else dtkOk, s)

theorem SingleConsumer.oneConsumer (hone : s.SingleConsumer) (hs : s.Owned) (hw : s.mem.Wired) :
    s.OneConsumer := by
  refine ⟨fun c co hc => ?_, fun c co hc => hone.countP_le_one hs hc, fun u d hp => ?_,
    fun u d cb user env s' hp hx => addConsumer_registers hs hp hx,
    fun u d e cb user env hp he => addConsumer_present hs cb user env hp he⟩
  · obtain ⟨svr, hl⟩ := hs.connStored c co hc
    exact ⟨svr, hl, fun svr' hl' => hs.connInj svr' svr c hl' hl⟩
  · obtain ⟨s', hx, ht⟩ := delConsumer_ok hs hp
    have hnone := ht.no_consumer hone
    have hw' : s'.mem.Wired := delConsumer_wired hs hw hx
    refine ⟨s', hx, hnone, fun x ss hborn => (hw'.childrenHeld x ss hborn).imp_right ?_⟩
    rintro ⟨e, ep, hep, hheld⟩
    obtain ⟨kind, d', hr⟩ := ht.owned.registered_of_live hep
    refine ⟨kind, d', e, ep, hr, hep, hheld, ?_⟩
    rintro rfl rfl
    exact hnone e hr

end AppUtil.Mq.MqMgr
