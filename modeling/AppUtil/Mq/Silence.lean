import AppUtil.Mq.Deliveries

/-! # When a deleted consumer is silent

A CMS consumer whose `close()` throws is forgotten and not deleted, and it keeps the listener it was
given. What ends it then is the end of its session, which comes when its connection is taken down. -/
namespace AppUtil.Mq
open AppUtil.Lib AppUtil.Lib.Lifetime
open AppUtil.Lib.Formatting (cstr)
set_option autoImplicit false

/-! ## Sessions that end -/

theorem deleteSession_iff_died {m : Cms} {ss : ℕ} :
    .deleteSession ss ∈ m.log ↔ Event.died (.session ss) ∈ m.events := by
  constructor
  · intro h
    exact List.mem_map_of_mem (f := CmsCall.event m.closeThrows) h
  · intro h
    obtain ⟨call, hmem, hcall⟩ := List.mem_map.mp h
    cases call with
    | deleteSession t =>
      obtain rfl := CmsObj.session.inj (Event.died.inj hcall)
      exact hmem
    | close e =>
      simp only [CmsCall.event] at hcall
      by_cases ht : m.closeThrows e = true
      · rw [if_pos ht] at hcall
        cases hcall
      · rw [if_neg ht] at hcall
        cases hcall
    | _ => cases hcall

theorem sessionOf_isSome {log : List CmsCall} {kind : EndKind} {x ss d : ℕ}
    (h : .createEndpoint kind ss x d ∈ log) : ∃ t, sessionOf x log = some t := by
  induction log with
  | nil => cases h
  | cons call log ih =>
    have hrest : .createEndpoint kind ss x d ≠ call → ∃ t, sessionOf x log = some t :=
      fun hne => ih ((List.mem_cons.mp h).resolve_left hne)
    cases call with
    | createEndpoint kind' s' e d' =>
      simp only [sessionOf]
      by_cases he : e = x
      · exact ⟨s', if_pos he⟩
      · rw [if_neg he]
        apply hrest
        intro heq
        exact he (CmsCall.createEndpoint.inj heq).2.2.1.symm
    | _ =>
      apply hrest
      intro heq
      cases heq

/-- A consumer is gone when it has been deleted or the session that made it has. -/
theorem gone_iff {m : Cms} (hd : Disciplined m.events) {kind : EndKind} {x ss d : ℕ}
    (h : .createEndpoint kind ss x d ∈ m.log) :
    gone m.log x = true ↔ .deleteEndpoint x ∈ m.log ∨ .deleteSession ss ∈ m.log := by
  have hborn : ∀ {kind ss d}, .createEndpoint kind ss x d ∈ m.log →
      Event.born (.child x) (some (.session ss)) ∈ m.events :=
    fun h => List.mem_map_of_mem (f := CmsCall.event m.closeThrows) h
  obtain ⟨t, ht⟩ := sessionOf_isSome h
  obtain ⟨kind', d', hmade⟩ := createEndpoint_of_sessionOf ht
  obtain rfl := CmsObj.session.inj (Option.some.inj (hd.born_unique (hborn h) (hborn hmade)))
  simp [gone, ht]

/-- A call of `close()` that throws is the last the wrapper does with the consumer. -/
theorem deleteEndpoint_iff {m : Mem} (hw : m.Wired) {requests : List Request}
    {listeners : List (ℕ × ℕ)} (h : Heard m requests listeners) {x : ℕ}
    (hx : .close x ∈ m.cms.log) : .deleteEndpoint x ∈ m.cms.log ↔ m.cms.closeThrows x = false := by
  constructor
  · intro hdel
    by_contra ht
    have hclose : (CmsCall.close x).event m.cms.closeThrows = .died (.child x) :=
      if_pos (Bool.not_eq_false _ ▸ ht)
    cases hw.disciplined.died_unique hx hdel hclose rfl
  · exact h.deleted x hx

namespace MqMgr
variable {s s' : MqMgr}

/-- The session of a connection goes with the last endpoint of the server. -/
theorem delFromConn_session (hs : s.Owned) (hw : s.mem.Wired) {kind : EndKind} {d : Dst} {c ss : ℕ}
    {co : MqConnection} (hl : s.mapConn.lookup d.strMQSvr = some c)
    (hc : s.mem.conns.cell c = some co) (hss : co.pSession = some ss)
    (hx : s.delFromConn kind d = .ok s') : .deleteSession ss ∈ s'.mem.cms.log ↔
      ∀ k d' e, d'.strMQSvr = d.strMQSvr → ¬ s'.Registered k d' e := by
  have hw' := delFromConn_wired hs hw hx
  obtain ⟨s₀, hx₀, ht⟩ := delFromConn_ok hs kind d
  obtain rfl := Except.ok.inj (hx.symm.trans hx₀)
  rw [delFromConn_eq hl] at hx
  obtain ⟨⟨r, m⟩, hdel, hx⟩ := bind_eq_ok.mp hx
  obtain ⟨co₁, hc₁, hss₁, rfl⟩ : ∃ co₁, m.conns.cell c = some co₁ ∧ co₁.pSession = some ss ∧
      r = co₁.isEmptyConn := by
    cases hfind : (co.list kind).find? (s.mem.isMatch d.strDstName d.nType) with
    | none =>
      rw [Mem.delEnd_none kind hc (hs.mem.live c co hc) hfind] at hdel
      cases hdel
      exact ⟨co, hc, hss, rfl⟩
    | some e =>
      obtain ⟨m', hdel', hr⟩ := Mem.delEnd_some kind hc (hs.mem.live c co hc) hfind
      obtain ⟨rfl, rfl⟩ := Prod.mk.inj (Except.ok.inj (hdel.symm.trans hdel'))
      exact ⟨_, (hr.conns c).trans (if_pos rfl), by simpa using hss, rfl⟩
  by_cases hempty : co₁.endpoints = []
  · rw [MqConnection.isEmptyConn_iff.mpr hempty] at hx
    obtain ⟨m₁, hdis, hx⟩ := bind_eq_ok.mp hx
    obtain ⟨s₂, hdelc, hx⟩ := bind_eq_ok.mp hx
    obtain ⟨conns, -, hdelc⟩ := bind_eq_ok.mp hdelc
    cases hdelc
    cases hx
    have hlog := Mem.disConn_log hc₁ (hempty ▸ List.nodup_nil) (hempty ▸ nofun) hdis
    refine ⟨fun _ k d' e hd' => ?_, fun _ => hlog.session ss hss₁⟩
    rintro ⟨b, cb, ep, hb, -⟩
    rw [hd'] at hb
    simp at hb
  · have hne : co₁.isEmptyConn = false := by
      rw [Bool.eq_false_iff, ne_eq, MqConnection.isEmptyConn_iff]
      exact hempty
    rw [hne] at hx
    cases hx
    constructor
    · intro hdead
      exact absurd (deleteSession_iff_died.mp hdead) (hw'.session c co₁ ss hc₁ hss₁).1.2
    · intro hnone
      obtain ⟨k, d', e, hd', hr⟩ := ht.owned.exists_registered hl hc₁ hempty
      exact absurd hr (hnone k d' e hd')

theorem onException_session (hs : s.Owned) {svr : Str} {c ss : ℕ} {co : MqConnection}
    (hl : s.mapConn.lookup svr = some c) (hc : s.mem.conns.cell c = some co)
    (hss : co.pSession = some ss) (hx : s.onException svr = .ok s') :
    .deleteSession ss ∈ s'.mem.cms.log := by
  simp only [onException, hl] at hx
  obtain ⟨m, hm, hx⟩ := bind_eq_ok.mp hx
  cases hx
  exact (Mem.disConn_log hc (hs.mem.nodup c co hc) (hs.mem.live c co hc) hm).session ss hss

end MqMgr

namespace Listening
variable {w w' : Listening}

/-! ## Consumers that are not registered -/

/-- A message for a consumer that was made for the destination changes nothing: nobody is called. -/
def SilentFor (w : Listening) (d : Dst) : Prop :=
  ∀ x e rq, (x, e) ∈ w.listeners → rq ∈ w.requests → rq.ptr = e → parseMqUri rq.strUrl = some d →
    ∀ message, w.exec (.deliver x message) = .ok w

/-- A destination has one consumer at most, and without one it is silent. -/
structure OneConsumer (w : Listening) : Prop where
  mgr : w.mgr.OneConsumer
  silent : ∀ d, (∀ e, ¬ w.mgr.Registered .consumer d e) → w.SilentFor d

/-- `DelConsumer` takes a consumer that has its listener and whose `close()` throws, from a connection
that has another endpoint. -/
def Abandons (w : Listening) (ev : Event) : Prop :=
  ∃ u d e ep x, ev = .call (.delConsumer u) ∧ parseMqUri u = some d ∧
    w.mgr.firstMatch .consumer d = some e ∧ w.mgr.mem.ends.cell e = some ep ∧ ep.pCp = some x ∧
    (x, e) ∈ w.listeners ∧ w.mgr.mem.cms.closeThrows x = true ∧
    ∃ k d' e', d'.strMQSvr = d.strMQSvr ∧ w.mgr.Registered k d' e' ∧ e' ≠ e

/-- Every consumer with a listener that has been closed is gone. -/
def Buried (w : Listening) : Prop :=
  ∀ x e, (x, e) ∈ w.listeners → .close x ∈ w.mgr.mem.cms.log → gone w.mgr.mem.cms.log x = true

theorem Sound.oneConsumer (h : w.Sound) : w.mgr.OneConsumer := h.single.oneConsumer h.owned h.wired

/-- A listener of an object that is there is registered for the destination of its request. -/
theorem Sound.registered (h : w.Sound) {x e : ℕ} (hx : (x, e) ∈ w.listeners)
    (hn : .close x ∉ w.mgr.mem.cms.log) : ∃ rq ∈ w.requests, rq.ptr = e ∧
      ∃ d, parseMqUri rq.strUrl = some d ∧ w.mgr.Registered .consumer d e := by
  obtain ⟨ep, he, -⟩ := h.heard.live x e hx hn
  obtain ⟨rq, hrq, rfl, -⟩ := h.heard.made x e hx
  obtain ⟨-, d, hp, hreg⟩ := h.answers rq hrq ep he
  exact ⟨rq, hrq, rfl, d, hp, hreg⟩

theorem Buried.oneConsumer (hq : w.Buried) (h : w.Sound) : w.OneConsumer := by
  refine ⟨h.oneConsumer, fun d hnone x e rq hx hrq hptr hp message => ?_⟩
  have hclosed : .close x ∈ w.mgr.mem.cms.log := by
    by_contra hn
    obtain ⟨rq', hrq', hptr', d', hp', hreg⟩ := h.registered hx hn
    obtain rfl := h.heard.one rq hrq rq' hrq' (hptr.trans hptr'.symm)
    obtain rfl := Option.some.inj (hp.symm.trans hp')
    exact hnone e hreg
  have hl : w.listener x = none := by
    unfold listener
    rw [hq x e hx hclosed, if_pos rfl]
  simp only [exec, hl]

/-! ## One step -/

/-- What `DelConsumer` abandons of a consumer that it takes. -/
theorem abandons_delConsumer_iff {u : Str} {d : Dst} {e x : ℕ} {ep : MqEndpoint} (hp : parseMqUri u = some d)
    (hf : w.mgr.firstMatch .consumer d = some e) (he : w.mgr.mem.ends.cell e = some ep) (hcp : ep.pCp = some x)
    (hmem : (x, e) ∈ w.listeners) : w.Abandons (.call (.delConsumer u)) ↔ w.mgr.mem.cms.closeThrows x = true ∧
      ∃ k d' e', d'.strMQSvr = d.strMQSvr ∧ w.mgr.Registered k d' e' ∧ e' ≠ e := by
  constructor
  · rintro ⟨u', d', e', ep', x', heq, hp', hf', he', hcp', -, hthrow, hother⟩
    cases heq
    obtain rfl := Option.some.inj (hp.symm.trans hp')
    obtain rfl := Option.some.inj (hf.symm.trans hf')
    obtain rfl := Option.some.inj (he.symm.trans he')
    obtain rfl := Option.some.inj (hcp.symm.trans hcp')
    exact ⟨hthrow, hother⟩
  · rintro ⟨hthrow, hother⟩
    exact ⟨u, d, e, ep, x, rfl, hp, hf, he, hcp, hmem, hthrow, hother⟩

/-- What an operation has closed is gone, unless it was abandoned. -/
theorem gone_of_closed (h : w.Sound) {op : Op} (hx : w.exec (.call op) = .ok w') {x e : ℕ}
    (hmem : (x, e) ∈ w.listeners) (hold : .close x ∉ w.mgr.mem.cms.log)
    (hnew : .close x ∈ w'.mgr.mem.cms.log) :
    gone w'.mgr.mem.cms.log x = true ↔ ¬ w.Abandons (.call op) := by
  have h' := exec_sound h hx
  obtain ⟨s', hs, hx⟩ := bind_eq_ok.mp hx
  cases hx
  have hext := MqMgr.exec_extends h.owned h.wired hs
  obtain ⟨ep, he, hcp⟩ := h.heard.live x e hmem hold
  obtain ⟨rq, hrq, hptr, d, hp, hreg⟩ := h.registered hmem hold
  -- the session of the consumer is the one its connection has
  obtain ⟨c, co, -, hl, hc, hlist, -⟩ := id hreg
  obtain ⟨-, b, cb, ss, hb, hlist', hss, hborn⟩ := h.wired.held e ep x he (Or.inr hcp)
  obtain rfl := h.owned.mem.disjoint b c cb co e hb hc hlist'
    (MqConnection.mem_endpoints.mpr ⟨_, hlist⟩)
  obtain rfl := Option.some.inj (hb.symm.trans hc)
  obtain ⟨-, -, -, -, t, k, -, hmade, -⟩ := h.heard.made x e hmem
  obtain rfl := CmsObj.session.inj (Option.some.inj (h.wired.disciplined.born_unique hborn
    (List.mem_map_of_mem (f := CmsCall.event w.mgr.mem.cms.closeThrows) hmade)))
  -- the object is there no more
  have hgone : ∀ {k d'}, ¬ s'.Registered k d' e := by
    intro k d' hr
    obtain ⟨ep', he'⟩ := hr.live
    cases (h'.heard.dead x e (List.mem_append_right _ hmem) hnew).symm.trans he'
  rw [gone_iff h'.wired.disciplined (hext.subset hmade), deleteEndpoint_iff h'.wired h'.heard hnew,
    hext.throws]
  have hcases := MqMgr.exec_cases h.owned op
  rw [hs] at hcases
  cases hcases with
  | idle _ hidle => exact absurd hnew hold
  | refused _ _ hsup hq hdel => exact absurd ((hq.registered _ _ _).mpr hreg) hgone
  | addedProducer u env d₁ s₁ hp₁ hn ha => exact absurd ((ha.registered _ _ _).mpr (Or.inl hreg)) hgone
  | addedConsumer u cb user env d₁ _ hcb hp₁ hn ha =>
    exact absurd ((ha.registered _ _ _).mpr (Or.inl hreg)) hgone
  | tookProducer u d₁ s₁ hp₁ ht =>
    refine absurd ((ht.registered _ _ _).mpr ⟨hreg, fun hf => ?_⟩) hgone
    cases (h.owned.registered_inj hreg (MqMgr.firstMatch_some hf)).1
  | tookConsumer u d₁ _ hp₁ ht =>
    by_cases hf : w.mgr.firstMatch .consumer d₁ = some e
    · obtain ⟨-, rfl⟩ := h.owned.registered_inj hreg (MqMgr.firstMatch_some hf)
      have hdel : w.mgr.delFromConn .consumer d = .ok s' := by
        obtain ⟨⟨r, s₁⟩, hr, rfl⟩ := map_eq_ok.mp hs
        simp only [MqMgr.delConsumer, hp₁] at hr
        obtain ⟨s₂, hdel, hr⟩ := bind_eq_ok.mp hr
        cases hr
        exact hdel
      rw [abandons_delConsumer_iff hp₁ hf he hcp hmem, MqMgr.delFromConn_session h.owned h.wired hl hc hss hdel,
        not_and_or, Bool.not_eq_true]
      refine or_congr_right ⟨?_, fun hnone k' d'' e'' hsvr hr => ?_⟩
      · rintro hnone ⟨k', d'', e'', hsvr, hr, hne⟩
        exact hnone k' d'' e'' hsvr ((ht.registered _ _ _).mpr
          ⟨hr, fun heq => hne (Option.some.inj (hf.symm.trans heq)).symm⟩)
      · obtain ⟨hr₀, hne⟩ := (ht.registered _ _ _).mp hr
        exact hnone ⟨k', d'', e'', hsvr, hr₀, fun heq => hne (heq ▸ hf)⟩
    · exact absurd ((ht.registered _ _ _).mpr ⟨hreg, hf⟩) hgone
  | sent u msg env p ep _ hu hl hsent => exact absurd ((hsent.registered _ _ _).mpr hreg) hgone
  | addedAndSent u msg env d₁ s₁ _ hp₁ hn ha hsent =>
    exact absurd ((hsent.registered _ _ _).mpr ((ha.registered _ _ _).mpr (Or.inl hreg))) hgone
  | failed svr _ hf =>
    by_cases hsvr : d.strMQSvr = svr
    · subst hsvr
      refine iff_of_true (Or.inr (MqMgr.onException_session h.owned hl hc hss hs)) ?_
      rintro ⟨u, d', e', ep', x', heq, -⟩
      cases heq
    · exact absurd ((hf.registered _ _ _).mpr ⟨hreg, hsvr⟩) hgone

/-- A step that abandons nothing keeps the closed consumers gone. -/
theorem exec_buried (h : w.Sound) (hq : w.Buried) {ev : Event} (hn : ¬ w.Abandons ev)
    (hx : w.exec ev = .ok w') : w'.Buried := by
  have h' := exec_sound h hx
  cases ev with
  | call op =>
    intro x e hmem hclosed
    have hx' := hx
    obtain ⟨s', hs, hx'⟩ := bind_eq_ok.mp hx'
    cases hx'
    rcases List.mem_append.mp hmem with hnew | hmem
    · -- a new listener is the object of a consumer that is open
      have hdead := h'.heard.dead x e (List.mem_append_left _ hnew) hclosed
      cases op with
      | addConsumer u cb user env =>
        simp only [MqMgr.newListeners] at hnew
        by_cases hc : env.create = .created
        · rw [if_pos hc] at hnew
          obtain ⟨y, hy, heq⟩ := List.mem_map.mp hnew
          cases heq
          rw [hdead] at hy
          cases hy
        · rw [if_neg hc] at hnew
          cases hnew
      | _ => cases hnew
    · by_cases hold : .close x ∈ w.mgr.mem.cms.log
      · have hext := MqMgr.exec_extends h.owned h.wired hs
        obtain ⟨-, -, -, -, t, k, -, hmade, -⟩ := h.heard.made x e hmem
        rw [gone_iff h'.wired.disciplined (hext.subset hmade)]
        exact ((gone_iff h.wired.disciplined hmade).mp (hq x e hmem hold)).imp
          (fun hdel => hext.subset hdel) fun hdel => hext.subset hdel
      · exact (gone_of_closed h hx hmem hold hclosed).mpr hn
  | deliver x message =>
    simp only [exec] at hx
    cases hl : w.listener x with
    | none =>
      simp only [hl] at hx
      cases hx
      exact hq
    | some e =>
      simp only [hl] at hx
      obtain ⟨ep, -, hx⟩ := bind_eq_ok.mp hx
      cases hx
      exact hq

/-- A consumer that has been abandoned is called for its destination. -/
theorem Abandons.not_oneConsumer (h : w.Sound) {ev : Event} (ha : w.Abandons ev) :
    ∃ w', w.exec ev = .ok w' ∧ ¬ w'.OneConsumer := by
  obtain ⟨u, d, e, ep, x, rfl, hp, hf, he, hcp, hmem, hrest⟩ := id ha
  obtain ⟨s', hdel, ht⟩ := MqMgr.delConsumer_ok h.owned hp
  have hs : w.mgr.exec (.delConsumer u) = .ok s' := by simp [MqMgr.exec, hdel, Except.map]
  have hx : w.exec (.call (.delConsumer u)) = .ok { w with mgr := s' } := by
    simp [exec, hs, MqMgr.newRequests, MqMgr.newListeners]
  refine ⟨_, hx, fun hone => ?_⟩
  have h' := exec_sound h hx
  have hold : .close x ∉ w.mgr.mem.cms.log := by
    intro hclosed
    cases (h.heard.dead x e hmem hclosed).symm.trans he
  have hclosed : .close x ∈ s'.mem.cms.log := by
    by_contra hn
    obtain ⟨ep', he', -⟩ := h'.heard.live x e hmem hn
    obtain ⟨k, d', hr⟩ := ht.owned.registered_of_live he'
    exact ((ht.registered k d' e).mp hr).2 hf
  have hgone : gone s'.mem.cms.log x = false :=
    Bool.eq_false_iff.mpr fun hg => (gone_of_closed h hx hmem hold hclosed).mp hg ha
  obtain ⟨rq, hrq, hptr, d', hp', hreg⟩ := h.registered hmem hold
  obtain ⟨-, rfl⟩ := h.owned.registered_inj hreg (MqMgr.firstMatch_some hf)
  have hsilent := hone.silent d' (ht.no_consumer h.single) x e rq hmem hrq hptr hp'
    ⟨true, [], false, false, false⟩
  rw [deliver_closed h' hmem hclosed hgone] at hsilent
  cases hsilent

/-! ## Runs -/

/-- **One consumer for each destination, however the url is spelled**, in every state that a run
reaches; and in every state of the run a destination without a consumer is silent, exactly when no
`DelConsumer` of the run abandons one: takes a consumer whose `close()` throws from a connection that
has another endpoint. -/
theorem consumer_unique (closeThrows : ℕ → Bool) :
    (∀ L w, Reaches exec L (start closeThrows) w → w.mgr.OneConsumer) ∧
    ∀ evs, Throughout exec OneConsumer (start closeThrows) evs ↔
      Meets exec (fun w ev => ¬ w.Abandons ev) (start closeThrows) evs := by
  refine ⟨fun L w h => ?_, fun evs => ?_⟩
  · exact (h.inv (P := Sound) (fun _ _ _ _ hs hx => exec_sound hs hx) (start_sound closeThrows)).oneConsumer
  · refine throughout_iff_meets (I := Sound) (Q := Buried) (fun w ev w' h hx => exec_sound h hx)
      (fun w h hq => hq.oneConsumer h) (fun w ev w' h hq hn hx => exec_buried h hq hn hx)
      (fun w ev h hq hkeeps ha => ?_) (start_sound closeThrows) fun x e hmem => nomatch hmem
    obtain ⟨w', hx, hnot⟩ := ha.not_oneConsumer h
    exact hnot (hkeeps w' hx)

/-- With consumers of `D` and `E` on one connection, and a `close()` that throws, the consumer of `D`
is called after `DelConsumer`. -/
theorem consumer_abandoned : ¬ Throughout exec OneConsumer (start fun x => x = 3)
    [.call (.addConsumer (urlOf ⟨['S'], ['D'], .mqModeQueue⟩) (some 7) 9 .ok),
      .call (.addConsumer (urlOf ⟨['S'], ['E'], .mqModeQueue⟩) (some 7) 9 .ok),
      .call (.delConsumer (urlOf ⟨['S'], ['D'], .mqModeQueue⟩))] := by
  intro h
  obtain ⟨w₁, w₂, w₃, hx₁, hx₂, hx₃, hs, hmem, hrq, hdeliver⟩ : ∃ w₁ w₂ w₃ : Listening,
      (start fun x => x = 3).exec (.call
        (.addConsumer (urlOf ⟨['S'], ['D'], .mqModeQueue⟩) (some 7) 9 .ok)) = .ok w₁ ∧
      w₁.exec (.call (.addConsumer (urlOf ⟨['S'], ['E'], .mqModeQueue⟩) (some 7) 9 .ok)) = .ok w₂ ∧
      w₂.exec (.call (.delConsumer (urlOf ⟨['S'], ['D'], .mqModeQueue⟩))) = .ok w₃ ∧
      w₂.mgr.delConsumer (urlOf ⟨['S'], ['D'], .mqModeQueue⟩) = .ok (dtkOk, w₃.mgr) ∧
      (3, 0) ∈ w₃.listeners ∧ ⟨0, urlOf ⟨['S'], ['D'], .mqModeQueue⟩, some 7, 9⟩ ∈ w₃.requests ∧
      w₃.exec (.deliver 3 ⟨true, ['m'], false, false, false⟩) = .error .useAfterFree :=
    ⟨_, _, _, rfl, rfl, rfl, rfl, by decide, by decide, rfl⟩
  have h₂ := (h.2 w₁ hx₁).2 w₂ hx₂
  obtain ⟨s', hdel, hnone, -⟩ := h₂.head.mgr.deleted (urlOf ⟨['S'], ['D'], .mqModeQueue⟩)
    ⟨['S'], ['D'], .mqModeQueue⟩ (by decide)
  obtain ⟨-, rfl⟩ := Prod.mk.inj (Except.ok.inj (hs.symm.trans hdel))
  have hsilent := (h₂.2 w₃ hx₃).silent _ hnone 3 0 _ hmem hrq rfl (by decide)
    ⟨true, ['m'], false, false, false⟩
  cases hdeliver.symm.trans hsilent

end Listening
end AppUtil.Mq
