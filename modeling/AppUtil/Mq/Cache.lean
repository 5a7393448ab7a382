import AppUtil.Mq.Runs

/-! # The cache of producers

When every url in the cache names a live producer, and what each operation does to that. The
cache is keyed by the text of the url, the lists by what the text means. -/
namespace AppUtil.Mq.MqMgr
open AppUtil.Lib
set_option autoImplicit false

variable {s s' : MqMgr}

/-- Every cached url names a live producer of the connection to its server. -/
def CacheLive (s : MqMgr) : Prop :=
  ∀ u pPro, s.mapProcucer.lookup u = some pPro →
    ∃ p d, pPro = some p ∧ parseMqUri u = some d ∧ s.Registered .producer d p

theorem init_cacheLive (closeThrows : ℕ → Bool) : (init closeThrows).CacheLive := by
  intro u pPro hu
  simp [init] at hu

theorem CacheLive.keep (h : s.CacheLive) (hcache : s'.mapProcucer = s.mapProcucer)
    (hreg : ∀ d p, s.Registered .producer d p → s'.Registered .producer d p) : s'.CacheLive := by
  intro u pPro hu
  rw [hcache] at hu
  obtain ⟨p, d, rfl, hp, hr⟩ := h u pPro hu
  exact ⟨p, d, rfl, hp, hreg d p hr⟩

theorem CacheLive.added (h : s.CacheLive) {u : Str} {d : Dst} (hp : parseMqUri u = some d)
    (ha : EndAdded s .producer d s') :
    { s' with mapProcucer := s.mapProcucer.insert u (some s.mem.ends.next) }.CacheLive := by
  intro v pPro hv
  change (s.mapProcucer.insert u (some s.mem.ends.next)).lookup v = some pPro at hv
  rw [lookup_insert] at hv
  by_cases huv : v = u
  · rw [if_pos huv] at hv
    obtain rfl := Option.some.inj hv
    exact ⟨_, d, rfl, huv ▸ hp, ha.registered_new⟩
  · rw [if_neg huv] at hv
    obtain ⟨p, d', rfl, hp', hr⟩ := h v pPro hv
    exact ⟨p, d', rfl, hp', (ha.registered _ _ _).mpr (Or.inl hr)⟩

theorem Taken.producer_kept (hs : s.Owned) {d : Dst} (ht : Taken s .consumer d s') {d' : Dst}
    {p : ℕ} (hr : s.Registered .producer d' p) : s'.Registered .producer d' p := by
  refine (ht.registered _ _ _).mpr ⟨hr, fun hm => ?_⟩
  have := (hs.registered_inj (firstMatch_some hm) hr).1
  cases this

/-- Of the operations on a live cache only `DelProducer` and `onException` can spoil it, and only
the use of a deleted connection can fail. -/
theorem exec_cacheLive (hs : s.Owned) (h : s.CacheLive) {op : Op} (hdead : ¬ s.UsesDead op)
    (hdel : ∀ u, op ≠ .delProducer u) (hexc : ∀ svr, op ≠ .onException svr) :
    ∃ s', s.exec op = .ok s' ∧ s'.CacheLive := by
  have hx := exec_cases hs op
  generalize s.exec op = r at hx
  cases hx with
  | idle _ hidle => exact ⟨s, rfl, h⟩
  | refused _ s' hsup hq hdel => exact ⟨s', rfl, h.keep hq.cache fun d p => (hq.registered _ d p).mpr⟩
  | usesDead _ hd => exact absurd hd hdead
  | addedProducer u env d s₁ hp hn ha => exact ⟨_, rfl, h.added hp ha⟩
  | addedConsumer u cb user env d s' hcb hp hn ha =>
    exact ⟨s', rfl, h.keep ha.cache fun d p hr => (ha.registered _ d p).mpr (Or.inl hr)⟩
  | tookProducer u d s₁ hp ht => exact absurd rfl (hdel u)
  | tookConsumer u d s' hp ht => exact ⟨s', rfl, h.keep ht.cache fun d p => ht.producer_kept hs⟩
  | null u msg env hu =>
    obtain ⟨p, -, hnull, -⟩ := h u none hu
    cases hnull
  | dangling u msg env p hu hd =>
    obtain ⟨p', d, hp', -, hr⟩ := h u (some p) hu
    obtain rfl := Option.some.inj hp'
    obtain ⟨ep, hl⟩ := hr.live
    rw [hd] at hl
    cases hl
  | sent u msg env p ep s' hu hl hsent =>
    exact ⟨s', rfl, h.keep hsent.cache fun d p => (hsent.registered _ d p).mpr⟩
  | addedAndSent u msg env d s₁ s' hp hn ha hsent =>
    exact ⟨s', rfl, (h.added hp ha).keep hsent.cache fun d p => (hsent.registered _ d p).mpr⟩
  | failed svr s' hf => exact absurd rfl (hexc svr)

/-! ## `DelProducer` -/

/-- The producer that `DelProducer(u)` finds is not cached under another url. -/
def FindsOwn (s : MqMgr) (u : Str) : Prop :=
  ∀ d p v, parseMqUri u = some d → s.firstMatch .producer d = some p →
    s.mapProcucer.lookup v = some (some p) → v = u

/-- `DelProducer(u)` keeps the cache live exactly when it finds the producer of `u`. -/
theorem delProducer_cacheLive (hs : s.Owned) (h : s.CacheLive) (u : Str) :
    ∃ s', s.exec (.delProducer u) = .ok s' ∧ (s'.CacheLive ↔ s.FindsOwn u) := by
  have hx := exec_cases hs (.delProducer u)
  generalize s.exec (.delProducer u) = r at hx
  cases hx with
  | idle _ hidle =>
    refine ⟨s, rfl, fun _ d p v hp => ?_, fun _ => h⟩
    rw [show parseMqUri u = none from hidle] at hp
    cases hp
  | refused _ s' hsup hq hdel => exact absurd trivial hsup
  | usesDead _ hd => exact hd.elim
  | tookProducer _ d s₁ hp ht =>
    refine ⟨_, rfl, fun hlive d' p v hp' hm hv => ?_, fun hown v pPro hv => ?_⟩
    · obtain rfl := Option.some.inj (hp.symm.trans hp')
      by_contra hne
      have hv' : (s.mapProcucer.erase u).lookup v = some (some p) := by
        rw [lookup_erase, if_neg hne, hv]
      obtain ⟨p', d', hpp, -, hr⟩ := hlive v (some p) hv'
      obtain rfl := Option.some.inj hpp
      exact ((ht.registered _ _ _).mp hr).2 hm
    · change (s.mapProcucer.erase u).lookup v = some pPro at hv
      rw [lookup_erase] at hv
      by_cases hne : v = u
      · rw [if_pos hne] at hv
        cases hv
      · rw [if_neg hne] at hv
        obtain ⟨p, d', rfl, hp', hr⟩ := h v pPro hv
        exact ⟨p, d', rfl, hp', (ht.registered _ _ _).mpr
          ⟨hr, fun hm => hne (hown d p v hp hm hv)⟩⟩

/-! ## Canonical urls -/

/-- With canonical urls text and meaning agree: every registered producer is cached under the url
of its destination, and nothing else is cached. What is cached may be dead. -/
structure Canonical (s : MqMgr) : Prop where
  cached : ∀ d p, s.Registered .producer d p →
    d.Proper ∧ s.mapProcucer.lookup (urlOf d) = some (some p)
  key : ∀ u pPro, s.mapProcucer.lookup u = some pPro →
    ∃ d p, d.Proper ∧ u = urlOf d ∧ pPro = some p

theorem init_canonical (closeThrows : ℕ → Bool) : (init closeThrows).Canonical := by
  constructor
  · rintro d p ⟨c, co, ep, hl, -⟩
    simp [init] at hl
  · intro u pPro hu
    simp [init] at hu

theorem Canonical.producer_unique (h : s.Canonical) {d : Dst} {p q : ℕ}
    (hp : s.Registered .producer d p) (hq : s.Registered .producer d q) : p = q := by
  have := (h.cached d p hp).2.symm.trans (h.cached d q hq).2
  exact Option.some.inj (Option.some.inj this)

theorem Canonical.keep (h : s.Canonical) (hcache : s'.mapProcucer = s.mapProcucer)
    (hreg : ∀ d p, s'.Registered .producer d p → s.Registered .producer d p) : s'.Canonical := by
  constructor
  · intro d p hr
    rw [hcache]
    exact h.cached d p (hreg d p hr)
  · rw [hcache]
    exact h.key

theorem Canonical.added (h : s.Canonical) {d : Dst} (hd : d.Proper)
    (hn : s.mapProcucer.lookup (urlOf d) = none) (ha : EndAdded s .producer d s') :
    { s' with
      mapProcucer := s.mapProcucer.insert (urlOf d) (some s.mem.ends.next) }.Canonical := by
  constructor
  · intro d' p hr
    change d'.Proper ∧ (s.mapProcucer.insert _ _).lookup (urlOf d') = some (some p)
    rw [lookup_insert]
    rcases (ha.registered _ _ _).mp hr with hr | ⟨-, rfl, rfl⟩
    · obtain ⟨hd', hl⟩ := h.cached d' p hr
      have hne : urlOf d' ≠ urlOf d := by
        intro he
        rw [he, hn] at hl
        cases hl
      exact ⟨hd', by rw [if_neg hne, hl]⟩
    · exact ⟨hd, by rw [if_pos rfl]⟩
  · intro v pPro hv
    change (s.mapProcucer.insert _ _).lookup v = some pPro at hv
    rw [lookup_insert] at hv
    by_cases huv : v = urlOf d
    · rw [if_pos huv] at hv
      exact ⟨d, _, hd, huv, (Option.some.inj hv).symm⟩
    · rw [if_neg huv] at hv
      exact h.key v pPro hv

/-- `DelProducer` finds the producer that is cached under the url, if there is one. -/
theorem Canonical.taken (h : s.Canonical) {d : Dst} (hd : d.Proper) (ht : Taken s .producer d s') :
    { s' with mapProcucer := s.mapProcucer.erase (urlOf d) }.Canonical := by
  constructor
  · intro d' p hr'
    obtain ⟨hr, hm⟩ := (ht.registered _ _ _).mp hr'
    obtain ⟨hd', hl⟩ := h.cached d' p hr
    have hne : urlOf d' ≠ urlOf d := by
      intro he
      obtain rfl := urlOf_inj hd' hd he
      cases hm' : s.firstMatch .producer d' with
      | none => exact firstMatch_none hm' p hr
      | some q =>
        obtain rfl := h.producer_unique hr (firstMatch_some hm')
        exact hm hm'
    refine ⟨hd', ?_⟩
    change (s.mapProcucer.erase _).lookup (urlOf d') = some (some p)
    rw [lookup_erase, if_neg hne, hl]
  · intro v pPro hv
    change (s.mapProcucer.erase _).lookup v = some pPro at hv
    rw [lookup_erase] at hv
    by_cases huv : v = urlOf d
    · rw [if_pos huv] at hv
      cases hv
    · rw [if_neg huv] at hv
      exact h.key v pPro hv

theorem canonical_parse {u : Str} {d : Dst} (hu : Mq.Canonical u) (hp : parseMqUri u = some d) :
    d.Proper ∧ u = urlOf d := by
  obtain ⟨d', hd', rfl⟩ := hu
  rw [parseMqUri_urlOf hd'] at hp
  obtain rfl := Option.some.inj hp
  exact ⟨hd', rfl⟩

theorem exec_canonical (hs : s.Owned) (h : s.Canonical) {op : Op} (hop : op.CanonicalUrl)
    (hx : s.exec op = .ok s') : s'.Canonical := by
  have hc := exec_cases hs op
  rw [hx] at hc
  cases hc with
  | idle _ hidle => exact h
  | refused _ _ hsup hq hdel => exact h.keep hq.cache fun d p => (hq.registered _ d p).mp
  | addedProducer u env d s₁ hp hn ha =>
    obtain ⟨hd, rfl⟩ := canonical_parse hop hp
    exact h.added hd hn ha
  | addedConsumer u cb user env d _ hcb hp hn ha =>
    refine h.keep ha.cache fun d p hr => ?_
    rcases (ha.registered _ _ _).mp hr with hr | ⟨hk, -⟩
    · exact hr
    · cases hk
  | tookProducer u d s₁ hp ht =>
    obtain ⟨hd, rfl⟩ := canonical_parse hop hp
    exact h.taken hd ht
  | tookConsumer u d _ hp ht => exact h.keep ht.cache fun d p hr => ((ht.registered _ d p).mp hr).1
  | sent u msg env p ep _ hu hl hsent => exact h.keep hsent.cache fun d p => (hsent.registered _ d p).mp
  | addedAndSent u msg env d s₁ _ hp hn ha hsent =>
    obtain ⟨hd, rfl⟩ := canonical_parse hop hp
    exact (h.added hd hn ha).keep hsent.cache fun d p => (hsent.registered _ d p).mp
  | failed svr _ hf => exact h.keep hf.cache fun d p hr => ((hf.registered _ d p).mp hr).1

theorem Canonical.findsOwn (h : s.Canonical) (hs : s.Owned) (hlive : s.CacheLive) {u : Str}
    (hu : Mq.Canonical u) : s.FindsOwn u := by
  intro d p v hp hm hv
  obtain ⟨hd, rfl⟩ := canonical_parse hu hp
  obtain ⟨d', q, hd', rfl, -⟩ := h.key v (some p) hv
  obtain ⟨q, d'', hq, hp', hr⟩ := hlive _ _ hv
  obtain rfl := Option.some.inj hq
  rw [parseMqUri_urlOf hd'] at hp'
  obtain rfl := Option.some.inj hp'
  rw [(hs.registered_inj hr (firstMatch_some hm)).2]

end AppUtil.Mq.MqMgr
