import AppUtil.Mq.Cache

/-! # Dangling producers

Two ways by which the cache comes to name a deleted producer: a `DelProducer` that is given
another spelling of the destination, and the failure callback, which does not know the cache. For
each the exact condition under which a run is free of it. -/
namespace AppUtil.Mq.MqMgr
open AppUtil.Lib
set_option autoImplicit false

/-! ## Spellings of one destination -/

/-- The condition on one step: a `DelProducer` finds no producer of another url. -/
def DeletesOwn (s : MqMgr) (op : Op) : Prop := ∀ u, op = .delProducer u → s.FindsOwn u

/-- **Deleting a producer and the urls of the others.** In a run without failures every cached url
names a live producer of its server all along, and nothing deleted is used, exactly when no
`DelProducer(u)` finds a producer that is cached under another url than `u`. -/
theorem delProducer_frame (closeThrows : ℕ → Bool) (ops : List Op)
    (hops : ∀ op ∈ ops, op.Connects ∧ ¬ op.IsOnException) :
    Holds exec CacheLive (init closeThrows) ops ↔ Meets exec DeletesOwn (init closeThrows) ops := by
  refine holds_iff_meets (I := Owned) (L := fun op => op.Connects ∧ ¬ op.IsOnException)
    (fun s op s' _ hs hx => exec_owned hs hx) (fun s op hop hs hlive hg => ?_)
    (fun s op s' hop hs hlive hx hlive' u hu => ?_) (init_owned closeThrows)
    (init_cacheLive closeThrows) hops
  · by_cases hdel : ∃ u, op = .delProducer u
    · obtain ⟨u, rfl⟩ := hdel
      obtain ⟨s', hx, hiff⟩ := delProducer_cacheLive hs hlive u
      exact ⟨s', hx, hiff.mpr (hg u rfl)⟩
    · refine exec_cacheLive hs hlive (not_usesDead hop.1) (fun u hu => hdel ⟨u, hu⟩) fun svr hsvr => ?_
      subst hsvr
      exact hop.2 trivial
  · subst hu
    obtain ⟨s'', hx', hiff⟩ := delProducer_cacheLive hs hlive u
    rw [hx] at hx'
    obtain rfl := Except.ok.inj hx'
    exact hiff.mp hlive'

/-- Two urls of one connection; the producer of the first is deleted, and the second is sent to. -/
def deletesFirst : List Op :=
  [.addProducer (urlOf ⟨['S'], ['D'], .mqModeQueue⟩) .ok, .addProducer (urlOf ⟨['S'], ['E'], .mqModeTopic⟩) .ok,
    .delProducer (urlOf ⟨['S'], ['D'], .mqModeQueue⟩), .sendMsg (urlOf ⟨['S'], ['E'], .mqModeTopic⟩) ['m'] .ok]

theorem delProducer_frame_sample :
    Holds exec CacheLive (init fun _ => false) deletesFirst ↔
      Meets exec DeletesOwn (init fun _ => false) deletesFirst :=
  delProducer_frame _ _ (by simp [deletesFirst, Op.Connects, Op.IsOnException, Env.ok])

/-- With `mq/S/queue/D` and `xmq/S/queue/D` cached, deleting the second frees the producer of the
first, and sending to the first uses it. -/
theorem delProducer_frees_other :
    (∀ op ∈ ([.addProducer (urlOf ⟨['S'], ['D'], .mqModeQueue⟩) .ok,
        .addProducer ('x' :: urlOf ⟨['S'], ['D'], .mqModeQueue⟩) .ok,
        .delProducer ('x' :: urlOf ⟨['S'], ['D'], .mqModeQueue⟩),
        .sendMsg (urlOf ⟨['S'], ['D'], .mqModeQueue⟩) ['m'] .ok] : List Op),
      op.Connects ∧ ¬ op.IsOnException) ∧
    ¬ Holds exec CacheLive (init fun _ => false)
      [.addProducer (urlOf ⟨['S'], ['D'], .mqModeQueue⟩) .ok,
        .addProducer ('x' :: urlOf ⟨['S'], ['D'], .mqModeQueue⟩) .ok,
        .delProducer ('x' :: urlOf ⟨['S'], ['D'], .mqModeQueue⟩),
        .sendMsg (urlOf ⟨['S'], ['D'], .mqModeQueue⟩) ['m'] .ok] :=
  ⟨by simp [Op.Connects, Op.IsOnException, Env.ok],
    Holds.not_of_error (show _ = Except.error Fault.useAfterFree from rfl)⟩

/-! ## The failure callback -/

/-- The condition on one step: the failure callback finds a connection without producers, and
nothing is added to a connection whose connect has just failed. -/
def FailsIdle (s : MqMgr) : Op → Prop
  | .onException svr => ∀ d p, s.Registered .producer d p → d.strMQSvr ≠ svr
  | op => ¬ s.UsesDead op

variable {s s' : MqMgr}

theorem onException_cacheLive (hs : s.Owned) (hc : s.Canonical) (h : s.CacheLive) (svr : Str) :
    ∃ s', s.exec (.onException svr) = .ok s' ∧ (s'.CacheLive ↔ s.FailsIdle (.onException svr)) := by
  obtain ⟨s', hx, hf⟩ := onException_ok hs svr
  refine ⟨s', hx, fun hlive d p hr hsvr => ?_, fun hidle => ?_⟩
  · -- the producer was cached, and is not registered any more
    obtain ⟨hd, hl⟩ := hc.cached d p hr
    rw [← hf.cache] at hl
    obtain ⟨q, d', hq, hp, hr'⟩ := hlive _ _ hl
    obtain rfl := Option.some.inj hq
    rw [parseMqUri_urlOf hd] at hp
    obtain rfl := Option.some.inj hp
    exact ((hf.registered _ _ _).mp hr').2 hsvr
  · exact h.keep hf.cache fun d p hr => (hf.registered _ d p).mpr ⟨hr, hidle d p hr⟩

/-- What a step on a live cache needs, and all it needs. -/
theorem exec_cacheLive_iff (hs : s.Owned) (hc : s.Canonical) (h : s.CacheLive) {op : Op}
    (hop : op.CanonicalUrl) :
    (∃ s', s.exec op = .ok s' ∧ s'.CacheLive) ↔ s.FailsIdle op := by
  have hother : (∀ svr, op ≠ .onException svr) →
      ((∃ s', s.exec op = .ok s' ∧ s'.CacheLive) ↔ ¬ s.UsesDead op) := by
    refine fun hexc => ⟨fun ⟨s', hx, _⟩ hdead => ?_, fun hdead => ?_⟩
    · rw [exec_usesDead hs hdead] at hx
      cases hx
    · by_cases hdel : ∃ u, op = .delProducer u
      · obtain ⟨u, rfl⟩ := hdel
        obtain ⟨s', hx, hiff⟩ := delProducer_cacheLive hs h u
        exact ⟨s', hx, hiff.mpr (hc.findsOwn hs h hop)⟩
      · exact exec_cacheLive hs h hdead (fun u hu => hdel ⟨u, hu⟩) hexc
  cases op with
  | onException svr =>
    obtain ⟨s', hx, hiff⟩ := onException_cacheLive hs hc h svr
    refine ⟨fun ⟨t, ht, hlive⟩ => ?_, fun hidle => ⟨s', hx, hiff.mpr hidle⟩⟩
    rw [hx] at ht
    exact hiff.mp (Except.ok.inj ht ▸ hlive)
  | addProducer u env => exact hother fun _ => Op.noConfusion
  | delProducer u => exact hother fun _ => Op.noConfusion
  | sendMsg u msg env => exact hother fun _ => Op.noConfusion
  | addConsumer u cb user env => exact hother fun _ => Op.noConfusion
  | delConsumer u => exact hother fun _ => Op.noConfusion

/-- **The cache and the failure callback.** In a run over canonical urls every cached url names a
live producer all along, and every `SendMsg` goes through one or returns an error, exactly when
`onException` only ever finds connections without producers and no operation adds to a connection
whose connect has just failed. -/
theorem onException_cache (closeThrows : ℕ → Bool) (ops : List Op)
    (hops : ∀ op ∈ ops, op.CanonicalUrl) :
    Holds exec CacheLive (init closeThrows) ops ↔ Meets exec FailsIdle (init closeThrows) ops := by
  refine holds_iff_meets (I := fun s => s.Owned ∧ s.Canonical) (L := Op.CanonicalUrl)
    (fun s op s' hop hs hx => ⟨exec_owned hs.1 hx, exec_canonical hs.1 hs.2 hop hx⟩)
    (fun s op hop hs hlive hg => (exec_cacheLive_iff hs.1 hs.2 hlive hop).mpr hg)
    (fun s op s' hop hs hlive hx hlive' =>
      (exec_cacheLive_iff hs.1 hs.2 hlive hop).mp ⟨s', hx, hlive'⟩)
    ⟨init_owned closeThrows, init_canonical closeThrows⟩ (init_cacheLive closeThrows) hops

/-- Two connections; the first has a consumer only when it fails, and the url of the second is sent to. -/
def idleFailure : List Op :=
  [.addProducer (urlOf ⟨['S'], ['D'], .mqModeQueue⟩) .ok, .addProducer (urlOf ⟨['T'], ['E'], .mqModeTopic⟩) .ok,
    .addConsumer (urlOf ⟨['S'], ['E'], .mqModeTopic⟩) (some 1) 0 .ok,
    .delProducer (urlOf ⟨['S'], ['D'], .mqModeQueue⟩), .onException ['S'],
    .sendMsg (urlOf ⟨['T'], ['E'], .mqModeTopic⟩) ['m'] .ok]

theorem onException_cache_sample :
    Holds exec CacheLive (init fun _ => false) idleFailure ↔
      Meets exec FailsIdle (init fun _ => false) idleFailure :=
  onException_cache _ _ (by
    have hS : Mq.Canonical (urlOf ⟨['S'], ['D'], .mqModeQueue⟩) := ⟨_, ⟨by decide, by decide⟩, rfl⟩
    have hSE : Mq.Canonical (urlOf ⟨['S'], ['E'], .mqModeTopic⟩) := ⟨_, ⟨by decide, by decide⟩, rfl⟩
    have hT : Mq.Canonical (urlOf ⟨['T'], ['E'], .mqModeTopic⟩) := ⟨_, ⟨by decide, by decide⟩, rfl⟩
    simp only [idleFailure, List.forall_mem_cons, Op.CanonicalUrl]
    exact ⟨hS, hT, hSE, hS, trivial, hT, by simp⟩)

/-- After a failure of the connection of a cached url, sending to the url uses the producer that
the callback deleted. -/
theorem onException_leaves_dangling :
    (∀ op ∈ ([.addProducer (urlOf ⟨['S'], ['D'], .mqModeQueue⟩) .ok, .onException ['S'],
        .sendMsg (urlOf ⟨['S'], ['D'], .mqModeQueue⟩) ['m'] .ok] : List Op), op.CanonicalUrl) ∧
    ¬ Holds exec CacheLive (init fun _ => false)
      [.addProducer (urlOf ⟨['S'], ['D'], .mqModeQueue⟩) .ok, .onException ['S'],
        .sendMsg (urlOf ⟨['S'], ['D'], .mqModeQueue⟩) ['m'] .ok] := by
  refine ⟨?_, Holds.not_of_error (show _ = Except.error Fault.useAfterFree from rfl)⟩
  have hu : Mq.Canonical (urlOf ⟨['S'], ['D'], .mqModeQueue⟩) :=
    ⟨_, ⟨by decide, by decide⟩, rfl⟩
  simp only [List.forall_mem_cons, Op.CanonicalUrl]
  exact ⟨hu, trivial, hu, by simp⟩

end AppUtil.Mq.MqMgr
