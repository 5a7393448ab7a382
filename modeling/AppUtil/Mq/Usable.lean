import AppUtil.Mq.Outfit
import AppUtil.Mq.Consumers
import AppUtil.Mq.Dangling

/-! # What `DTK_OK` of `AddProducer` and `AddConsumer` is worth

Both report success for an endpoint that exists, and a new endpoint exists whether or not its
`Create` did anything. The exact condition under which a call keeps what it reports, and the exact
condition under which a run never leaves an endpoint behind that cannot be used. -/
namespace AppUtil.Mq.MqMgr
open AppUtil.Lib AppUtil.Lib.Lifetime
set_option autoImplicit false

variable {s s' : MqMgr}

/-- The endpoint at `e` has the session of its connection and a CMS producer or consumer, and the
library has released neither. -/
def Usable (s : MqMgr) (e : ℕ) : Prop :=
  ∃ ep c co ss x, s.mem.ends.cell e = some ep ∧ s.mem.conns.cell c = some co ∧
    e ∈ co.endpoints ∧ ep.pSession = some ss ∧ co.pSession = some ss ∧
    Alive s.mem.cms.events (.session ss) ∧ ep.pCp = some x ∧ Alive s.mem.cms.events (.child x)

/-- What is not NULL is alive. -/
theorem usable_iff (hw : s.mem.Wired) {e : ℕ} : s.Usable e ↔ s.Equipped e := by
  constructor
  · rintro ⟨ep, c, co, ss, x, he, -, -, hss, -, -, hx, -⟩
    exact ⟨ep, he, hss.trans_ne (Option.some_ne_none ss), hx.trans_ne (Option.some_ne_none x)⟩
  · rintro ⟨ep, he, hss, hx⟩
    obtain ⟨ss, hss⟩ := Option.ne_none_iff_exists'.mp hss
    obtain ⟨x, hx⟩ := Option.ne_none_iff_exists'.mp hx
    obtain ⟨c, co, hc, hmem, hco⟩ := hw.user e ep ss he hss
    exact ⟨ep, c, co, ss, x, he, hc, hmem, hss, hco, (hw.session c co ss hc hco).1, hx,
      (hw.held e ep x he (Or.inr hx)).1⟩

/-- Through a usable producer only `send` itself, with the message it is given, can fail. -/
theorem Usable.sendOn {p : ℕ} (h : s.Usable p) (msg : Str) (env : Env) :
    ∃ s', s.sendOn (some p) msg env = .ok (if env.send = .sent then dtkOk else dtkError, s') := by
  obtain ⟨ep, c, co, ss, x, he, -, -, hss, -, -, hx, -⟩ := h
  simp only [MqMgr.sendOn, Mem.sendMsg, Heap.deref_ok he, ok_bind, hss, hx, pure_eq_ok]
  cases env.send <;> exact ⟨_, rfl⟩

/-! ## One call -/

/-- `Create` of an endpoint for the server goes through to its end. -/
def Completes (s : MqMgr) (svr : Str) (env : Env) : Prop :=
  s.HasSession svr env ∧ env.create = .created

/-- The call of `AddProducer` returns; with `DTK_OK` the producer cached for the url is usable, a
new endpoint whose `Create` did not complete is an error, and after an error the next call tries
again. -/
def ProducerSound (s : MqMgr) (u : Str) (env : Env) : Prop :=
  ∃ r s', s.addProducer u env = .ok (r, s') ∧
    (r = dtkOk → ∃ p, s'.mapProcucer.lookup u = some (some p) ∧ s'.Usable p) ∧
    (∀ d, parseMqUri u = some d → s.mem.ends.next < s'.mem.ends.next →
      ¬ s.Completes d.strMQSvr env → r = dtkError) ∧
    (∀ d, parseMqUri u = some d → r = dtkError → s'.mapProcucer.lookup u = none)

/-- The same of `AddConsumer`. -/
def ConsumerSound (s : MqMgr) (u : Str) (cb : Option ℕ) (user : ℕ) (env : Env) : Prop :=
  ∃ r s', s.addConsumer u cb user env = .ok (r, s') ∧
    (r = dtkOk → ∃ d e, parseMqUri u = some d ∧ s'.Registered .consumer d e ∧ s'.Usable e) ∧
    (∀ d, parseMqUri u = some d → s.mem.ends.next < s'.mem.ends.next →
      ¬ s.Completes d.strMQSvr env → r = dtkError) ∧
    (∀ d, parseMqUri u = some d → cb ≠ none → r = dtkError → s'.firstMatch .consumer d = none)

/-- What `AddProducer` needs: a cached producer that is usable, or else that `Create` completes if
there is memory for the endpoint. -/
def ProducerReady (s : MqMgr) (u : Str) (env : Env) : Prop :=
  ∀ d, parseMqUri u = some d →
    (∀ pPro, s.mapProcucer.lookup u = some pPro → ∃ p, pPro = some p ∧ s.Usable p) ∧
    (s.mapProcucer.lookup u = none → s.Adds d.strMQSvr env → s.Completes d.strMQSvr env)

/-- What `AddConsumer` needs. -/
def ConsumerReady (s : MqMgr) (u : Str) (cb : Option ℕ) (env : Env) : Prop :=
  cb ≠ none → ∀ d, parseMqUri u = some d →
    (∀ e, s.firstMatch .consumer d = some e → s.Usable e) ∧
    (s.firstMatch .consumer d = none → s.Adds d.strMQSvr env → s.Completes d.strMQSvr env)

theorem Completes.makesCp {svr : Str} {env : Env} (h : s.Completes svr env) :
    s.HasSession svr env ∧ env.create.MakesCp := ⟨h.1, Or.inl h.2⟩

theorem dtkOk_ne : dtkOk ≠ dtkError := by decide

theorem producerReady_new {u : Str} {d : Dst} (hp : parseMqUri u = some d)
    (hu : s.mapProcucer.lookup u = none) (env : Env) :
    s.ProducerReady u env ↔ (s.Adds d.strMQSvr env → s.Completes d.strMQSvr env) := by
  constructor
  · exact fun h => (h d hp).2 hu
  · intro h d' hd'
    obtain rfl := Option.some.inj (hp.symm.trans hd')
    refine ⟨fun pPro hpPro => ?_, fun _ => h⟩
    rw [hu] at hpPro
    cases hpPro

theorem consumerReady_new {u : Str} {cb : Option ℕ} {d : Dst} (hcb : cb ≠ none)
    (hp : parseMqUri u = some d) (hf : s.firstMatch .consumer d = none) (env : Env) :
    s.ConsumerReady u cb env ↔ (s.Adds d.strMQSvr env → s.Completes d.strMQSvr env) := by
  constructor
  · exact fun h => (h hcb d hp).2 hf
  · intro h _ d' hd'
    obtain rfl := Option.some.inj (hp.symm.trans hd')
    refine ⟨fun e he => ?_, fun _ => h⟩
    rw [hf] at he
    cases he

theorem producerSound_cached {u : Str} {d : Dst} {pPro : Option ℕ} (hp : parseMqUri u = some d)
    (hu : s.mapProcucer.lookup u = some pPro) (env : Env) :
    s.ProducerSound u env ↔ s.ProducerReady u env := by
  have he : s.addProducer u env = .ok (dtkOk, s) := by simp [addProducer, hp, hasProducer, hu]
  constructor
  · rintro ⟨r, s', hx, hok, -, -⟩ d' hd'
    rw [he] at hx
    cases hx
    obtain ⟨p, hl, hp'⟩ := hok rfl
    refine ⟨fun pPro' hpPro => ?_, fun hn => by rw [hu] at hn; cases hn⟩
    rw [hl] at hpPro
    exact ⟨p, (Option.some.inj hpPro).symm, hp'⟩
  · intro h
    obtain ⟨p, rfl, hp'⟩ := (h d hp).1 pPro hu
    exact ⟨dtkOk, s, he, fun _ => ⟨p, hu, hp'⟩, fun _ _ hlt => absurd hlt (Nat.lt_irrefl _),
      fun _ _ h => absurd h dtkOk_ne⟩

theorem producerSound_new (hs : s.Owned) (hw : s.mem.Wired) {u : Str} {d : Dst}
    (hp : parseMqUri u = some d) (hu : s.mapProcucer.lookup u = none) (env : Env) :
    s.ProducerSound u env ↔ s.ProducerReady u env := by
  rw [producerReady_new hp hu]
  have hd : ∀ d', parseMqUri u = some d' → d' = d := fun d' h =>
    (Option.some.inj (hp.symm.trans h)).symm
  have hout := addTo_outfitting hs .producer d none 0 env
  have heq := addProducer_eq env hp hu
  generalize s.addTo .producer d none 0 env = t at heq hout
  cases hout with
  | dead hadds hsess =>
    refine ⟨?_, fun h => absurd (h hadds).1 hsess⟩
    rintro ⟨r, s', hx, -⟩
    rw [heq] at hx
    cases hx
  | refused s' hadds hq hcell =>
    refine ⟨fun _ h => absurd h hadds, fun _ => ⟨dtkError, s', heq,
      fun h => absurd h.symm dtkOk_ne, fun _ _ _ _ => rfl, fun _ _ _ => ?_⟩⟩
    rw [hq.cache, hu]
  | added s₁ hadds ha hnext hcell hnew =>
    simp only [ok_bind, pure_eq_ok, ha.cache, StrMap_add_of_none _ hu] at heq
    constructor
    · rintro ⟨r, s', hx, -, hinc, -⟩ -
      rw [heq] at hx
      cases hx
      by_contra hc
      exact dtkOk_ne (hinc d hp (by dsimp only; omega) hc)
    · intro h
      have hw' := addProducer_wired hs hw heq
      refine ⟨dtkOk, _, heq, fun _ => ⟨s.mem.ends.next, AList.lookup_insert _, ?_⟩,
        fun d' hd' _ hc => ?_, fun _ _ h => absurd h dtkOk_ne⟩
      · exact (usable_iff hw').mpr (hnew.mpr (h hadds).makesCp)
      · obtain rfl := hd d' hd'
        exact absurd (h hadds) hc

theorem producerSound_iff (hs : s.Owned) (hw : s.mem.Wired) (u : Str) (env : Env) :
    s.ProducerSound u env ↔ s.ProducerReady u env := by
  cases hp : parseMqUri u with
  | none =>
    have he : s.addProducer u env = .ok (dtkError, s) := by simp [addProducer, hp]
    refine ⟨fun _ d hd => ?_, fun _ => ⟨dtkError, s, he, fun h => absurd h.symm dtkOk_ne,
      fun d hd => ?_, fun d hd => ?_⟩⟩ <;> rw [hp] at hd <;> cases hd
  | some d =>
    cases hu : s.mapProcucer.lookup u with
    | some pPro => exact producerSound_cached hp hu env
    | none => exact producerSound_new hs hw hp hu env

/-- The consumer that is found is the only one of its destination. -/
theorem consumerSound_found (hs : s.Owned) (hone : s.SingleConsumer) {u : Str} {cb : Option ℕ}
    {d : Dst} {e : ℕ} (hcb : cb ≠ none) (hp : parseMqUri u = some d)
    (hf : s.firstMatch .consumer d = some e) (user : ℕ) (env : Env) :
    s.ConsumerSound u cb user env ↔ s.ConsumerReady u cb env := by
  have hd : ∀ d', parseMqUri u = some d' → d' = d := fun d' h =>
    (Option.some.inj (hp.symm.trans h)).symm
  have he : s.addConsumer u cb user env = .ok (dtkOk, s) := by
    simp [addConsumer, hcb, hp, hasConsumer_ok hs, hf]
  constructor
  · rintro ⟨r, s', hx, hok, -, -⟩ - d' hd'
    rw [he] at hx
    cases hx
    obtain ⟨d'', e'', hd'', hr, hus⟩ := hok rfl
    obtain rfl := hd d' hd'
    obtain rfl := hd d'' hd''
    refine ⟨fun e' he' => ?_, fun hn => by rw [hf] at hn; cases hn⟩
    rwa [hone _ e' e'' (firstMatch_some he') hr]
  · intro h
    exact ⟨dtkOk, s, he, fun _ => ⟨d, e, hp, firstMatch_some hf, (h hcb d hp).1 e hf⟩,
      fun _ _ hlt => absurd hlt (Nat.lt_irrefl _), fun _ _ _ h => absurd h dtkOk_ne⟩

theorem consumerSound_new (hs : s.Owned) (hw : s.mem.Wired) {u : Str} {cb : Option ℕ} {d : Dst}
    (hcb : cb ≠ none) (hp : parseMqUri u = some d) (hf : s.firstMatch .consumer d = none)
    (user : ℕ) (env : Env) : s.ConsumerSound u cb user env ↔ s.ConsumerReady u cb env := by
  rw [consumerReady_new hcb hp hf]
  have hd : ∀ d', parseMqUri u = some d' → d' = d := fun d' h =>
    (Option.some.inj (hp.symm.trans h)).symm
  have hout := addTo_outfitting hs .consumer d cb user env
  have heq := addConsumer_eq hs user env hcb hp hf
  generalize s.addTo .consumer d cb user env = t at heq hout
  cases hout with
  | dead hadds hsess =>
    refine ⟨?_, fun h => absurd (h hadds).1 hsess⟩
    rintro ⟨r, s', hx, -⟩
    rw [heq] at hx
    cases hx
  | refused s' hadds hq hcell =>
    refine ⟨fun _ h => absurd h hadds, fun _ => ⟨dtkError, s', heq,
      fun h => absurd h.symm dtkOk_ne, fun _ _ _ _ => rfl, fun d' hd' _ _ => ?_⟩⟩
    obtain rfl := hd d' hd'
    cases hf' : s'.firstMatch .consumer d' with
    | none => rfl
    | some e =>
      exact absurd ((hq.registered _ _ _).mp (firstMatch_some hf')) (firstMatch_none hf e)
  | added s₁ hadds ha hnext hcell hnew =>
    simp only [ok_bind, pure_eq_ok, Option.isSome_some, if_true] at heq
    constructor
    · rintro ⟨r, s', hx, -, hinc, -⟩ -
      rw [heq] at hx
      cases hx
      by_contra hc
      exact dtkOk_ne (hinc d hp (by omega) hc)
    · intro h
      have hw' := addConsumer_wired hs hw heq
      refine ⟨dtkOk, _, heq, fun _ => ⟨d, s.mem.ends.next, hp, ha.registered_new, ?_⟩,
        fun d' hd' _ hc => ?_, fun _ _ _ h => absurd h dtkOk_ne⟩
      · exact (usable_iff hw').mpr (hnew.mpr (h hadds).makesCp)
      · obtain rfl := hd d' hd'
        exact absurd (h hadds) hc

theorem consumerSound_iff (hs : s.Owned) (hw : s.mem.Wired) (hone : s.SingleConsumer) (u : Str)
    (cb : Option ℕ) (user : ℕ) (env : Env) :
    s.ConsumerSound u cb user env ↔ s.ConsumerReady u cb env := by
  by_cases hcb : cb = none
  · have he : s.addConsumer u cb user env = .ok (dtkError, s) := by simp [addConsumer, hcb]
    exact ⟨fun _ h => absurd hcb h, fun _ => ⟨dtkError, s, he, fun h => absurd h.symm dtkOk_ne,
      fun _ _ _ _ => rfl, fun _ _ h => absurd hcb h⟩⟩
  cases hp : parseMqUri u with
  | none =>
    have he : s.addConsumer u cb user env = .ok (dtkError, s) := by simp [addConsumer, hcb, hp]
    refine ⟨fun _ _ d hd => ?_, fun _ => ⟨dtkError, s, he, fun h => absurd h.symm dtkOk_ne,
      fun d hd => ?_, fun d hd => ?_⟩⟩ <;> rw [hp] at hd <;> cases hd
  | some d =>
    cases hf : s.firstMatch .consumer d with
    | some e => exact consumerSound_found hs hone hcb hp hf user env
    | none => exact consumerSound_new hs hw hcb hp hf user env

/-! ## Runs -/

/-- Every url for which `AddProducer` reported success has a usable producer of its destination,
and every consumer is usable. -/
def AllUsable (s : MqMgr) : Prop :=
  (∀ u pPro, s.mapProcucer.lookup u = some pPro → ∃ p d, pPro = some p ∧ parseMqUri u = some d ∧
    s.Registered .producer d p ∧ s.Usable p) ∧
  ∀ d e, s.Registered .consumer d e → s.Usable e

/-- What the urls and the destinations lead to has a session and a CMS producer or consumer. -/
def Stocked (s : MqMgr) : Prop :=
  (∀ u p, s.mapProcucer.lookup u = some (some p) → s.Equipped p) ∧
  ∀ d e, s.Registered .consumer d e → s.Equipped e

theorem allUsable_iff (hw : s.mem.Wired) : s.AllUsable ↔ s.CacheLive ∧ s.Stocked := by
  simp only [AllUsable, usable_iff hw]
  constructor
  · rintro ⟨hpro, hcon⟩
    refine ⟨fun u pPro hu => ?_, fun u p hu => ?_, hcon⟩
    · obtain ⟨p, d, rfl, hp, hr, -⟩ := hpro u pPro hu
      exact ⟨p, d, rfl, hp, hr⟩
    · obtain ⟨p', d, hp', -, -, heq⟩ := hpro u (some p) hu
      obtain rfl := Option.some.inj hp'
      exact heq
  · rintro ⟨hlive, hpro, hcon⟩
    refine ⟨fun u pPro hu => ?_, hcon⟩
    obtain ⟨p, d, rfl, hp, hr⟩ := hlive u pPro hu
    exact ⟨p, d, rfl, hp, hr, hpro u p hu⟩

theorem init_stocked (closeThrows : ℕ → Bool) : (init closeThrows).Stocked := by
  constructor
  · intro u p hu
    simp [init] at hu
  · rintro d e ⟨c, co, ep, hl, -⟩
    simp [init] at hl

/-- What is added, if there is memory for it, gets a session and a CMS producer or consumer. -/
def Outfits (s : MqMgr) (svr : Str) (env : Env) : Prop :=
  s.Adds svr env → s.HasSession svr env ∧ env.create.MakesCp

/-- The condition on one step: what is added is outfitted, `DelProducer` finds no producer of
another url, and the failure callback finds no producer that is cached. -/
def KeepsUsable (s : MqMgr) : Op → Prop
  | .addProducer u env | .sendMsg u _ env =>
    ∀ d, parseMqUri u = some d → s.mapProcucer.lookup u = none → s.Outfits d.strMQSvr env
  | .addConsumer u cb _ env => cb ≠ none →
    ∀ d, parseMqUri u = some d → s.firstMatch .consumer d = none → s.Outfits d.strMQSvr env
  | .delProducer u => s.FindsOwn u
  | .delConsumer _ => True
  | .onException svr => ∀ u p d, s.mapProcucer.lookup u = some (some p) →
    s.Registered .producer d p → d.strMQSvr ≠ svr

/-- Endpoints that go leave the others as they are. -/
theorem Stocked.keep (h : s.Stocked)
    (hcache : ∀ u p, s'.mapProcucer.lookup u = some (some p) →
      s.mapProcucer.lookup u = some (some p) ∧ s'.mem.ends.cell p = s.mem.ends.cell p)
    (hreg : ∀ d e, s'.Registered .consumer d e →
      s.Registered .consumer d e ∧ s'.mem.ends.cell e = s.mem.ends.cell e) : s'.Stocked :=
  ⟨fun u p hu => (h.1 u p (hcache u p hu).1).congr (hcache u p hu).2,
    fun d e he => (h.2 d e (hreg d e he).1).congr (hreg d e he).2⟩

theorem Stocked.same (h : s.Stocked) (hcache : s'.mapProcucer = s.mapProcucer)
    (hreg : ∀ d e, s'.Registered .consumer d e → s.Registered .consumer d e)
    (hcell : s'.mem.ends.cell = s.mem.ends.cell) : s'.Stocked :=
  h.keep (fun _ p hu => ⟨hcache ▸ hu, congrFun hcell p⟩)
    fun d e he => ⟨hreg d e he, congrFun hcell e⟩

theorem SentOn.stocked {p : ℕ} {msg : Str} (hsent : SentOn s p msg s') (h : s.Stocked) :
    s'.Stocked :=
  h.same hsent.cache (fun d e => (hsent.registered .consumer d e).mp) (by rw [hsent.ends])

theorem Equipped.ne_next {e : ℕ} (h : s.Equipped e) : e ≠ s.mem.ends.next := by
  obtain ⟨ep, he, -⟩ := h
  exact Nat.ne_of_lt (Heap.lt_next he)

section Adding
variable {u : Str} {d : Dst} {s₁ : MqMgr}

theorem Stocked.addedProducer (h : s.Stocked) (ha : EndAdded s .producer d s₁)
    (hcell : ∀ e, e ≠ s.mem.ends.next → s₁.mem.ends.cell e = s.mem.ends.cell e) :
    { s₁ with mapProcucer := s.mapProcucer.insert u (some s.mem.ends.next) }.Stocked ↔
      s₁.Equipped s.mem.ends.next := by
  constructor
  · exact fun h' => h'.1 u _ (AList.lookup_insert _)
  · intro hnew
    constructor
    · intro v p hv
      change (s.mapProcucer.insert u (some s.mem.ends.next)).lookup v = some (some p) at hv
      rw [lookup_insert] at hv
      by_cases huv : v = u
      · rw [if_pos huv] at hv
        obtain rfl := Option.some.inj (Option.some.inj hv)
        exact hnew
      · rw [if_neg huv] at hv
        have hp := h.1 v p hv
        exact hp.congr (hcell p hp.ne_next)
    · intro d' e he
      rcases (ha.registered .consumer d' e).mp he with he | ⟨hk, -⟩
      · have hp := h.2 d' e he
        exact hp.congr (hcell e hp.ne_next)
      · cases hk

theorem Stocked.addedConsumer (h : s.Stocked) (ha : EndAdded s .consumer d s₁)
    (hcell : ∀ e, e ≠ s.mem.ends.next → s₁.mem.ends.cell e = s.mem.ends.cell e) :
    s₁.Stocked ↔ s₁.Equipped s.mem.ends.next := by
  constructor
  · exact fun h' => h'.2 d _ ha.registered_new
  · intro hnew
    constructor
    · intro v p hv
      rw [ha.cache] at hv
      have hp := h.1 v p hv
      exact hp.congr (hcell p hp.ne_next)
    · intro d' e he
      rcases (ha.registered .consumer d' e).mp he with he | ⟨-, -, rfl⟩
      · have hp := h.2 d' e he
        exact hp.congr (hcell e hp.ne_next)
      · exact hnew

/-- Adding a producer, on its own or before a message is sent. -/
theorem addProducer_stocked (hs : s.Owned) (h : s.Stocked) {env : Env}
    (hp : parseMqUri u = some d) (hn : s.mapProcucer.lookup u = none) :
    (∃ r s', s.addProducer u env = .ok (r, s') ∧ s'.Stocked) ↔ s.Outfits d.strMQSvr env := by
  have hout := addTo_outfitting hs .producer d none 0 env
  have heq := addProducer_eq env hp hn
  generalize s.addTo .producer d none 0 env = t at heq hout
  cases hout with
  | dead hadds hsess =>
    refine ⟨?_, fun h => absurd (h hadds).1 hsess⟩
    rintro ⟨r, s', hx, -⟩
    rw [heq] at hx
    cases hx
  | refused s' hadds hq hcell =>
    exact ⟨fun _ ha => absurd ha hadds, fun _ => ⟨dtkError, s', heq,
      h.same hq.cache (fun d e => (hq.registered .consumer d e).mp) hcell⟩⟩
  | added s₁ hadds ha hnext hcell hnew =>
    simp only [ok_bind, pure_eq_ok, ha.cache, StrMap_add_of_none _ hn] at heq
    have hiff := h.addedProducer (u := u) ha hcell
    constructor
    · rintro ⟨r, s', hx, h'⟩ -
      rw [heq] at hx
      cases hx
      exact hnew.mp (hiff.mp h')
    · exact fun ho => ⟨dtkOk, _, heq, hiff.mpr (hnew.mpr (ho hadds))⟩

end Adding

theorem exec_addProducer_stocked (hs : s.Owned) (h : s.Stocked) (u : Str) (env : Env) :
    (∃ s', s.exec (.addProducer u env) = .ok s' ∧ s'.Stocked) ↔
      s.KeepsUsable (.addProducer u env) := by
  have hmap : (∃ s', s.exec (.addProducer u env) = .ok s' ∧ s'.Stocked) ↔
      ∃ r s', s.addProducer u env = .ok (r, s') ∧ s'.Stocked := by
    constructor
    · rintro ⟨s', hx, h'⟩
      obtain ⟨⟨r, s₁⟩, hr, rfl⟩ := map_eq_ok.mp hx
      exact ⟨r, s₁, hr, h'⟩
    · rintro ⟨r, s', hx, h'⟩
      exact ⟨s', map_eq_ok.mpr ⟨(r, s'), hx, rfl⟩, h'⟩
  rw [hmap]
  cases hp : parseMqUri u with
  | none =>
    refine ⟨fun _ d hd => ?_, fun _ => ⟨dtkError, s, by simp [addProducer, hp], h⟩⟩
    rw [hp] at hd
    cases hd
  | some d =>
    cases hu : s.mapProcucer.lookup u with
    | some pPro =>
      refine ⟨fun _ d _ hn => ?_, fun _ =>
        ⟨dtkOk, s, by simp [addProducer, hp, hasProducer, hu], h⟩⟩
      rw [hu] at hn
      cases hn
    | none =>
      rw [addProducer_stocked hs h hp hu]
      constructor
      · intro ho d' hd' _
        obtain rfl := Option.some.inj (hp.symm.trans hd')
        exact ho
      · exact fun hk => hk d hp hu

theorem exec_sendMsg_stocked (hs : s.Owned) (hlive : s.CacheLive) (h : s.Stocked) (u msg : Str) (env : Env) :
    (∃ s', s.exec (.sendMsg u msg env) = .ok s' ∧ s'.Stocked) ↔
      s.KeepsUsable (.sendMsg u msg env) := by
  cases hu : s.mapProcucer.lookup u with
  | some pPro =>
    -- what is cached is alive, so that the message goes out
    obtain ⟨p, d, rfl, -, hr⟩ := hlive u pPro hu
    obtain ⟨ep, hep⟩ := hr.live
    obtain ⟨r, s', hx, hsent⟩ := sendOn_ok msg env hep
    refine ⟨fun _ d _ hn => ?_, fun _ => ⟨s', ?_, hsent.stocked h⟩⟩
    · rw [hu] at hn
      cases hn
    · simp [exec, sendMsg, sendCached, hu, hx, Except.map]
  | none =>
    have hiff := exec_addProducer_stocked hs h u env
    refine Iff.trans ?_ hiff
    simp only [exec, sendMsg, sendCached, hu, ok_bind]
    have hcases := addProducer_cases hs u env
    generalize s.addProducer u env = q at hcases
    cases hcases with
    | unparsed hp => exact Iff.rfl
    | cached d pPro hp hu' =>
      rw [hu] at hu'
      cases hu'
    | dead d hp hn hdead => exact Iff.rfl
    | refused d s' hp hn hdead hsup hq hdel => exact Iff.rfl
    | added d s₁ hp hn hdead ha =>
      have hu' : (s.mapProcucer.insert u (some s.mem.ends.next)).lookup u =
          some (some s.mem.ends.next) := AList.lookup_insert _
      obtain ⟨ep, hl⟩ := ha.registered_new.live
      obtain ⟨r, s', hx, hsent⟩ := sendOn_ok
        (s := { s₁ with mapProcucer := s.mapProcucer.insert u (some s.mem.ends.next) })
        msg env hl
      have hx' : { s₁ with mapProcucer := s.mapProcucer.insert u (some s.mem.ends.next) }.sendAgain
          u msg env = .ok (r, s') := by
        simp only [sendAgain, subscript, hu']
        exact hx
      have hback : Stocked s' →
          { s₁ with mapProcucer := s.mapProcucer.insert u (some s.mem.ends.next) }.Stocked :=
        fun h' => h'.same hsent.cache.symm (fun d e => (hsent.registered .consumer d e).mpr)
          (by rw [hsent.ends])
      simp only [ok_bind, ne_eq, not_true_eq_false, if_false, hx']
      constructor
      · rintro ⟨t, ht, h'⟩
        cases ht
        exact ⟨_, rfl, hback h'⟩
      · rintro ⟨t, ht, h'⟩
        cases ht
        exact ⟨s', rfl, hsent.stocked h'⟩

theorem exec_addConsumer_stocked (hs : s.Owned) (h : s.Stocked) (u : Str) (cb : Option ℕ)
    (user : ℕ) (env : Env) :
    (∃ s', s.exec (.addConsumer u cb user env) = .ok s' ∧ s'.Stocked) ↔
      s.KeepsUsable (.addConsumer u cb user env) := by
  have hidle : ∀ r, s.addConsumer u cb user env = .ok (r, s) →
      ∃ s', s.exec (.addConsumer u cb user env) = .ok s' ∧ s'.Stocked :=
    fun r hx => ⟨s, by simp [exec, hx, Except.map], h⟩
  by_cases hcb : cb = none
  · exact ⟨fun _ hne => absurd hcb hne, fun _ => hidle dtkError (by simp [addConsumer, hcb])⟩
  cases hp : parseMqUri u with
  | none =>
    refine ⟨fun _ _ d hd => ?_, fun _ => hidle dtkError (by simp [addConsumer, hcb, hp])⟩
    rw [hp] at hd
    cases hd
  | some d =>
    cases hf : s.firstMatch .consumer d with
    | some e =>
      refine ⟨fun _ _ d' hd' hn => ?_, fun _ => hidle dtkOk
        (by simp [addConsumer, hcb, hp, hasConsumer_ok hs, hf])⟩
      obtain rfl := Option.some.inj (hp.symm.trans hd')
      rw [hf] at hn
      cases hn
    | none =>
      have hkeeps : s.KeepsUsable (.addConsumer u cb user env) ↔ s.Outfits d.strMQSvr env := by
        constructor
        · exact fun hk => hk hcb d hp hf
        · intro ho _ d' hd' _
          obtain rfl := Option.some.inj (hp.symm.trans hd')
          exact ho
      rw [hkeeps]
      have hout := addTo_outfitting hs .consumer d cb user env
      have heq := addConsumer_eq hs user env hcb hp hf
      simp only [exec]
      rw [heq]
      generalize s.addTo .consumer d cb user env = t at hout
      cases hout with
      | dead hadds hsess =>
        refine ⟨?_, fun h => absurd (h hadds).1 hsess⟩
        rintro ⟨s', hx, -⟩
        cases hx
      | refused s' hadds hq hcell =>
        exact ⟨fun _ ha => absurd ha hadds, fun _ => ⟨s', rfl,
          h.same hq.cache (fun d e => (hq.registered .consumer d e).mp) hcell⟩⟩
      | added s₁ hadds ha hnext hcell hnew =>
        have hiff := h.addedConsumer ha hcell
        constructor
        · rintro ⟨s', hx, h'⟩ -
          cases hx
          exact hnew.mp (hiff.mp h')
        · exact fun ho => ⟨s₁, rfl, hiff.mpr (hnew.mpr (ho hadds))⟩

theorem delProducer_stocked (hs : s.Owned) (h : s.Stocked) {u : Str} (hown : s.FindsOwn u)
    (hx : s.exec (.delProducer u) = .ok s') : s'.Stocked := by
  cases hp : parseMqUri u with
  | none =>
    simp only [exec, delProducer_unparsed hp] at hx
    cases hx
    exact h
  | some d =>
    obtain ⟨s₁, hx₁, ht⟩ := delFromConn_ok hs .producer d
    have hcell := delFromConn_cells hs hx₁
    have hx' : s.exec (.delProducer u) =
        .ok { s₁ with mapProcucer := s.mapProcucer.erase u } := by
      simp [exec, delProducer, hp, hx₁, ht.cache, Except.map]
    rw [hx'] at hx
    cases hx
    refine h.keep (fun v p hv => ?_) fun d' e he => ?_
    · change (s.mapProcucer.erase u).lookup v = some (some p) at hv
      rw [lookup_erase] at hv
      by_cases hvu : v = u
      · rw [if_pos hvu] at hv
        cases hv
      · rw [if_neg hvu] at hv
        exact ⟨hv, (hcell p).trans (if_neg fun hm => hvu (hown d p v hp hm hv))⟩
    · obtain ⟨he, hne⟩ := (ht.registered .consumer d' e).mp he
      exact ⟨he, (hcell e).trans (if_neg hne)⟩

theorem delConsumer_stocked (hs : s.Owned) (hlive : s.CacheLive) (h : s.Stocked) {u : Str}
    (hx : s.exec (.delConsumer u) = .ok s') : s'.Stocked := by
  cases hp : parseMqUri u with
  | none =>
    simp only [exec, delConsumer_unparsed hp] at hx
    cases hx
    exact h
  | some d =>
    obtain ⟨s₁, hx₁, ht⟩ := delFromConn_ok hs .consumer d
    have hcell := delFromConn_cells hs hx₁
    have hx' : s.exec (.delConsumer u) = .ok s₁ := by
      simp [exec, delConsumer, hp, hx₁, Except.map]
    rw [hx'] at hx
    cases hx
    refine h.keep (fun v p hv => ?_) fun d' e he => ?_
    · rw [ht.cache] at hv
      refine ⟨hv, (hcell p).trans (if_neg fun hm => ?_)⟩
      obtain ⟨p', d', hp', -, hr⟩ := hlive v (some p) hv
      obtain rfl := Option.some.inj hp'
      cases (hs.registered_inj (firstMatch_some hm) hr).1
    · obtain ⟨he, hne⟩ := (ht.registered .consumer d' e).mp he
      exact ⟨he, (hcell e).trans (if_neg hne)⟩

theorem onException_stocked (hs : s.Owned) (hlive : s.CacheLive) (h : s.Stocked) {svr : Str}
    (hidle : s.KeepsUsable (.onException svr)) (hx : s.exec (.onException svr) = .ok s') :
    s'.Stocked := by
  obtain ⟨t, ht, hf⟩ := onException_ok hs svr
  have hx' : s.onException svr = .ok s' := hx
  rw [ht] at hx'
  cases hx'
  have hcell := onException_cells hs ht
  refine h.keep (fun v p hv => ?_) fun d e he => ?_
  · rw [hf.cache] at hv
    obtain ⟨p', d, hp', -, hr⟩ := hlive v (some p) hv
    obtain rfl := Option.some.inj hp'
    refine ⟨hv, (hcell p).resolve_right ?_⟩
    rintro ⟨kind, d', hr', hsvr⟩
    obtain ⟨rfl, rfl⟩ := hs.registered_inj hr hr'
    exact hidle v p d hv hr hsvr
  · obtain ⟨he, hne⟩ := (hf.registered .consumer d e).mp he
    refine ⟨he, (hcell e).resolve_right ?_⟩
    rintro ⟨kind, d', hr', hsvr⟩
    obtain ⟨rfl, rfl⟩ := hs.registered_inj he hr'
    exact hne hsvr

theorem onException_cacheLive_iff (hs : s.Owned) (hlive : s.CacheLive) (svr : Str) :
    ∃ s', s.exec (.onException svr) = .ok s' ∧
      (s'.CacheLive ↔ s.KeepsUsable (.onException svr)) := by
  obtain ⟨s', hx, hf⟩ := onException_ok hs svr
  refine ⟨s', hx, fun hlive' u p d hu hr hsvr => ?_, fun hidle u pPro hu => ?_⟩
  · rw [← hf.cache] at hu
    obtain ⟨p', d', hp', -, hr'⟩ := hlive' u (some p) hu
    obtain rfl := Option.some.inj hp'
    obtain ⟨hr', hne⟩ := (hf.registered .producer d' p).mp hr'
    obtain ⟨-, rfl⟩ := hs.registered_inj hr hr'
    exact hne hsvr
  · rw [hf.cache] at hu
    obtain ⟨p, d, rfl, hp, hr⟩ := hlive u pPro hu
    exact ⟨p, d, rfl, hp, (hf.registered .producer d p).mpr ⟨hr, hidle u p d hu hr⟩⟩

/-- What a step needs to keep everything usable, and all it needs. -/
theorem exec_usable_iff (hs : s.Owned) (hlive : s.CacheLive) (h : s.Stocked) (op : Op) :
    (∃ s', s.exec op = .ok s' ∧ s'.CacheLive ∧ s'.Stocked) ↔ s.KeepsUsable op := by
  -- an operation that only adds keeps the cache live whenever it succeeds
  have hadd : (∀ u, op ≠ .delProducer u) → (∀ svr, op ≠ .onException svr) →
      ((∃ s', s.exec op = .ok s' ∧ s'.CacheLive ∧ s'.Stocked) ↔
        ∃ s', s.exec op = .ok s' ∧ s'.Stocked) := by
    refine fun hdel hexc => ⟨fun ⟨s', hx, _, hs'⟩ => ⟨s', hx, hs'⟩, fun ⟨s', hx, hs'⟩ => ?_⟩
    have hdead : ¬ s.UsesDead op := by
      intro hdead
      rw [exec_usesDead hs hdead] at hx
      cases hx
    obtain ⟨t, ht, hlive'⟩ := exec_cacheLive hs hlive hdead hdel hexc
    rw [hx] at ht
    cases ht
    exact ⟨s', hx, hlive', hs'⟩
  cases op with
  | addProducer u env =>
    rw [hadd (fun _ => Op.noConfusion) fun _ => Op.noConfusion]
    exact exec_addProducer_stocked hs h u env
  | sendMsg u msg env =>
    rw [hadd (fun _ => Op.noConfusion) fun _ => Op.noConfusion]
    exact exec_sendMsg_stocked hs hlive h u msg env
  | addConsumer u cb user env =>
    rw [hadd (fun _ => Op.noConfusion) fun _ => Op.noConfusion]
    exact exec_addConsumer_stocked hs h u cb user env
  | delConsumer u =>
    rw [hadd (fun _ => Op.noConfusion) fun _ => Op.noConfusion]
    refine ⟨fun _ => trivial, fun _ => ?_⟩
    have hdead : ¬ s.UsesDead (.delConsumer u) := id
    obtain ⟨s', hx, -⟩ := exec_cacheLive hs hlive hdead
      (fun _ => Op.noConfusion) fun _ => Op.noConfusion
    exact ⟨s', hx, delConsumer_stocked hs hlive h hx⟩
  | delProducer u =>
    obtain ⟨s', hx, hiff⟩ := delProducer_cacheLive hs hlive u
    rw [hx]
    constructor
    · rintro ⟨t, ht, hlive', -⟩
      cases ht
      exact hiff.mp hlive'
    · exact fun hown => ⟨s', rfl, hiff.mpr hown, delProducer_stocked hs h hown hx⟩
  | onException svr =>
    obtain ⟨s', hx, hiff⟩ := onException_cacheLive_iff hs hlive svr
    rw [hx]
    constructor
    · rintro ⟨t, ht, hlive', -⟩
      cases ht
      exact hiff.mp hlive'
    · exact fun hidle => ⟨s', rfl, hiff.mpr hidle, onException_stocked hs hlive h hidle hx⟩

/-- **What `DTK_OK` is worth.** In every state that a run reaches, a call of `AddProducer` or
`AddConsumer` keeps what it reports exactly when the endpoint it finds is usable or `Create` of the
one it adds completes; a usable producer only fails when `send` does. And in a run everything that
was reported is usable all along exactly when each endpoint is added to a session with its CMS
object, no `DelProducer` finds the producer of another url, and no failure callback finds a
producer that is cached. -/
theorem dtkOk_usable (closeThrows : ℕ → Bool) :
    (∀ (L : Op → Prop) (s : MqMgr), Reaches exec L (init closeThrows) s →
      (∀ u env, s.ProducerSound u env ↔ s.ProducerReady u env) ∧
      (∀ u cb user env, s.ConsumerSound u cb user env ↔ s.ConsumerReady u cb env) ∧
      ∀ p msg env, s.Usable p → ∃ s',
        s.sendOn (some p) msg env = .ok (if env.send = .sent then dtkOk else dtkError, s')) ∧
    ∀ ops : List Op, Holds exec AllUsable (init closeThrows) ops ↔
      Meets exec KeepsUsable (init closeThrows) ops := by
  constructor
  · intro L s h
    obtain ⟨hs, hw⟩ := reaches_wired h
    exact ⟨producerSound_iff hs hw, consumerSound_iff hs hw (reaches_singleConsumer h),
      fun p msg env hp => hp.sendOn msg env⟩
  · intro ops
    refine holds_iff_meets (I := fun s => s.Owned ∧ s.mem.Wired) (L := fun _ => True)
      (fun s op s' _ hs hx => ⟨exec_owned hs.1 hx, exec_wired hs.1 hs.2 hx⟩)
      (fun s op _ hs h hg => ?_) (fun s op s' _ hs h hx h' => ?_)
      ⟨init_owned closeThrows, init_wired closeThrows⟩ ?_ fun _ _ => trivial
    · obtain ⟨hlive, hstock⟩ := (allUsable_iff hs.2).mp h
      obtain ⟨s', hx, h'⟩ := (exec_usable_iff hs.1 hlive hstock op).mpr hg
      exact ⟨s', hx, (allUsable_iff (exec_wired hs.1 hs.2 hx)).mpr h'⟩
    · obtain ⟨hlive, hstock⟩ := (allUsable_iff hs.2).mp h
      exact (exec_usable_iff hs.1 hlive hstock op).mp
        ⟨s', hx, (allUsable_iff (exec_wired hs.1 hs.2 hx)).mp h'⟩
    · exact (allUsable_iff (init_wired closeThrows)).mpr
        ⟨init_cacheLive closeThrows, init_stocked closeThrows⟩

theorem dtkOk_usable_sample :
    (init fun _ => false).ProducerSound (urlOf ⟨['S'], ['D'], .mqModeQueue⟩) .ok := by
  obtain ⟨hpro, -, -⟩ := (dtkOk_usable fun _ => false).1 (fun _ => True) _ .start
  refine (hpro _ _).mpr fun d hp => ⟨fun pPro hu => ?_, fun _ _ => ⟨rfl, rfl⟩⟩
  simp [init] at hu

/-- With a `createProducer` that throws, the first `AddProducer` of a process returns `DTK_OK`, and
so does the second, which does not try again. -/
theorem dtkOk_unusable :
    ∃ s, (init fun _ => false).addProducer (urlOf ⟨['S'], ['D'], .mqModeQueue⟩)
        { Env.ok with create := .cpThrows } = .ok (dtkOk, s) ∧
      ¬ (init fun _ => false).ProducerSound (urlOf ⟨['S'], ['D'], .mqModeQueue⟩)
        { Env.ok with create := .cpThrows } ∧
      s.addProducer (urlOf ⟨['S'], ['D'], .mqModeQueue⟩) .ok = .ok (dtkOk, s) ∧
      ∃ p ep, s.mapProcucer.lookup (urlOf ⟨['S'], ['D'], .mqModeQueue⟩) = some (some p) ∧
        s.mem.ends.cell p = some ep ∧ ep.pCp = none := by
  refine ⟨_, rfl, fun h => ?_, rfl, 0, _, rfl, rfl, rfl⟩
  obtain ⟨r, s', hx, hok, -, -⟩ := h
  cases hx
  obtain ⟨p, hl, ep, c, co, ss, x, he, -, -, -, -, -, hcp, -⟩ := hok rfl
  cases hl
  cases he
  cases hcp

end AppUtil.Mq.MqMgr
