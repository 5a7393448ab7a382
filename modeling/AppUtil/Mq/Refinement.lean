import AppUtil.Mq.Cache
import Mathlib.Data.Set.Insert

/-! # What the manager is for

Seen from its callers the manager is two sets of destinations: those it has a producer for and
those it has a consumer for. The manager refines these sets in every run over canonical urls in
which nothing fails. -/
namespace AppUtil.Mq
open AppUtil.Lib
set_option autoImplicit false

/-- The destinations that have an endpoint, for each kind. -/
abbrev Endpoints := EndKind → Set Dst

namespace Endpoints

def empty : Endpoints := fun _ => ∅

def add (a : Endpoints) (kind : EndKind) (d : Dst) : Endpoints :=
  fun k => if k = kind then insert d (a k) else a k

def del (a : Endpoints) (kind : EndKind) (d : Dst) : Endpoints :=
  fun k => if k = kind then a k \ {d} else a k

/-- Add inserts, Del removes, `SendMsg` inserts a producer that is missing. A consumer needs a
callback. -/
def next (a : Endpoints) : Op → Endpoints
  | .addProducer u _ | .sendMsg u _ _ => (parseMqUri u).elim a (a.add .producer)
  | .delProducer u => (parseMqUri u).elim a (a.del .producer)
  | .addConsumer u cb _ _ => if cb = none then a else (parseMqUri u).elim a (a.add .consumer)
  | .delConsumer u => (parseMqUri u).elim a (a.del .consumer)
  | .onException _ => a

theorem mem_add {a : Endpoints} {kind k : EndKind} {d d' : Dst} :
    d' ∈ a.add kind d k ↔ d' ∈ a k ∨ k = kind ∧ d' = d := by
  by_cases h : k = kind <;> simp [add, h, or_comm]

theorem mem_del {a : Endpoints} {kind k : EndKind} {d d' : Dst} :
    d' ∈ a.del kind d k ↔ d' ∈ a k ∧ ¬ (k = kind ∧ d' = d) := by
  by_cases h : k = kind <;> simp [del, h]

theorem add_of_mem {a : Endpoints} {kind : EndKind} {d : Dst} (h : d ∈ a kind) :
    a.add kind d = a := by
  funext k
  by_cases hk : k = kind
  · subst hk
    simp [add, Set.insert_eq_of_mem h]
  · simp [add, hk]

end Endpoints

namespace MqMgr
variable {s s' : MqMgr} {a : Endpoints}

/-! ## The relation -/

/-- The sets are those of the registered endpoints, each destination has one of a kind at most,
and the stored connections are those that have any. -/
structure Abstracts (s : MqMgr) (a : Endpoints) : Prop where
  mem : ∀ kind d, d ∈ a kind ↔ ∃ e, s.Registered kind d e
  unique : ∀ kind d e e', s.Registered kind d e → s.Registered kind d e' → e = e'
  stored : ∀ svr, s.Stored svr ↔ ∃ kind d, d ∈ a kind ∧ d.strMQSvr = svr

theorem init_abstracts (closeThrows : ℕ → Bool) : (init closeThrows).Abstracts Endpoints.empty := by
  have hno : ∀ kind d e, ¬ (init closeThrows).Registered kind d e := by
    rintro kind d e ⟨c, co, ep, hl, -⟩
    simp [init] at hl
  refine ⟨fun kind d => ?_, fun kind d e e' h => absurd h (hno kind d e), fun svr => ?_⟩
  · simp [Endpoints.empty, hno]
  · simp [Endpoints.empty, Stored, init]

/-- Only the registrations and the stored connections matter. -/
theorem Abstracts.congr (h : s.Abstracts a)
    (hreg : ∀ kind d e, s'.Registered kind d e ↔ s.Registered kind d e)
    (hstored : ∀ svr, s'.Stored svr ↔ s.Stored svr) : s'.Abstracts a := by
  constructor
  · intro kind d
    simp only [h.mem, hreg]
  · intro kind d e e' he he'
    exact h.unique kind d e e' ((hreg ..).mp he) ((hreg ..).mp he')
  · intro svr
    rw [hstored, h.stored]

theorem Abstracts.added (h : s.Abstracts a) {kind : EndKind} {d : Dst}
    (hn : ∀ e, ¬ s.Registered kind d e) (ha : EndAdded s kind d s') :
    s'.Abstracts (a.add kind d) := by
  constructor
  · intro k d'
    simp only [Endpoints.mem_add, h.mem, ha.registered]
    constructor
    · rintro (⟨e, he⟩ | ⟨hk, hd⟩)
      · exact ⟨e, Or.inl he⟩
      · exact ⟨s.mem.ends.next, Or.inr ⟨hk, hd, rfl⟩⟩
    · rintro ⟨e, he | ⟨hk, hd, -⟩⟩
      · exact Or.inl ⟨e, he⟩
      · exact Or.inr ⟨hk, hd⟩
  · intro k d' e e' he he'
    rcases (ha.registered ..).mp he with he | ⟨rfl, rfl, rfl⟩ <;>
      rcases (ha.registered ..).mp he' with he' | ⟨hk', hd', rfl⟩
    · exact h.unique k d' e e' he he'
    · exact absurd (hk' ▸ hd' ▸ he) (hn e)
    · exact absurd he' (hn e')
    · rfl
  · intro svr
    rw [ha.stored, h.stored]
    constructor
    · rintro (⟨k, d', hd', hsvr⟩ | rfl)
      · exact ⟨k, d', Endpoints.mem_add.mpr (Or.inl hd'), hsvr⟩
      · exact ⟨kind, d, Endpoints.mem_add.mpr (Or.inr ⟨rfl, rfl⟩), rfl⟩
    · rintro ⟨k, d', hd', hsvr⟩
      rcases Endpoints.mem_add.mp hd' with hd' | ⟨-, rfl⟩
      · exact Or.inl ⟨k, d', hd', hsvr⟩
      · exact Or.inr hsvr.symm

/-- Since a destination has one endpoint of a kind, taking out the first match takes out all. -/
theorem Abstracts.taken (h : s.Abstracts a) {kind : EndKind} {d : Dst} (hs : s.Owned)
    (ht : Taken s kind d s') : s'.Abstracts (a.del kind d) := by
  have hreg : ∀ k d' e, s'.Registered k d' e ↔ s.Registered k d' e ∧ ¬ (k = kind ∧ d' = d) := by
    intro k d' e
    rw [ht.registered]
    refine and_congr_right fun he => not_congr ⟨fun hm => ?_, ?_⟩
    · exact hs.registered_inj he (firstMatch_some hm)
    · rintro ⟨rfl, rfl⟩
      cases hm : s.firstMatch k d' with
      | none => exact absurd he (firstMatch_none hm e)
      | some e' => rw [h.unique k d' e e' he (firstMatch_some hm)]
  have hmem : ∀ k d', d' ∈ a.del kind d k ↔ ∃ e, s'.Registered k d' e := by
    intro k d'
    simp only [Endpoints.mem_del, h.mem, hreg, exists_and_right]
  refine ⟨hmem, fun k d' e e' he he' => ?_, fun svr => ?_⟩
  · exact h.unique k d' e e' ((hreg ..).mp he).1 ((hreg ..).mp he').1
  · rw [ht.stored, h.stored]
    constructor
    · rintro ⟨⟨k, d', hd', hsvr⟩, hleft⟩
      by_cases hs' : svr = d.strMQSvr
      · obtain ⟨k, d', e, hsvr, he⟩ := hleft hs'
        exact ⟨k, d', (hmem k d').mpr ⟨e, he⟩, hsvr⟩
      · refine ⟨k, d', Endpoints.mem_del.mpr ⟨hd', ?_⟩, hsvr⟩
        rintro ⟨-, rfl⟩
        exact hs' hsvr.symm
    · rintro ⟨k, d', hd', hsvr⟩
      obtain ⟨e, he⟩ := (hmem k d').mp hd'
      exact ⟨⟨k, d', (Endpoints.mem_del.mp hd').1, hsvr⟩, fun _ => ⟨k, d', e, hsvr, he⟩⟩

/-! ## One operation -/

/-- What a step sends: `SendMsg` uses the registered producer of the destination of its url, every
other operation uses none. -/
def SendsRight (s : MqMgr) : Op → MqMgr → Prop
  | .sendMsg u msg _, s' => ∃ d p, parseMqUri u = some d ∧ s'.Registered .producer d p ∧
      s'.mem.sends = (p, msg) :: s.mem.sends
  | _, s' => s'.mem.sends = s.mem.sends

theorem CacheLive.mem (hlive : s.CacheLive) (h : s.Abstracts a) {u : Str} {d : Dst}
    {pPro : Option ℕ} (hp : parseMqUri u = some d) (hu : s.mapProcucer.lookup u = some pPro) :
    d ∈ a .producer := by
  obtain ⟨p, d', -, hp', hr⟩ := hlive u pPro hu
  obtain rfl := Option.some.inj (hp.symm.trans hp')
  exact (h.mem _ _).mpr ⟨p, hr⟩

/-- What a canonical operation over sets changes when it finds nothing to do. -/
theorem next_idle (hlive : s.CacheLive) (h : s.Abstracts a) {op : Op} (hop : op.CanonicalUrl)
    (hidle : s.Idle op) : a.next op = a := by
  have hparse : ∀ u, Mq.Canonical u → parseMqUri u ≠ none := by
    rintro u ⟨d, hd, rfl⟩ hn
    rw [parseMqUri_urlOf hd] at hn
    cases hn
  cases op with
  | addProducer u env =>
    rcases hidle with hn | hu
    · exact absurd hn (hparse u hop)
    · obtain ⟨pPro, hu⟩ := Option.isSome_iff_exists.mp hu
      obtain ⟨d, hp⟩ := Option.ne_none_iff_exists'.mp (hparse u hop)
      simp [Endpoints.next, hp, Endpoints.add_of_mem (hlive.mem h hp hu)]
  | delProducer u => exact absurd hidle (hparse u hop)
  | sendMsg u msg env => exact absurd hidle.2 (hparse u hop)
  | addConsumer u cb user env =>
    rcases hidle with hcb | hn | ⟨d, e, hp, hm⟩
    · simp [Endpoints.next, hcb]
    · exact absurd hn (hparse u hop)
    · have hd : d ∈ a .consumer := (h.mem _ _).mpr ⟨e, firstMatch_some hm⟩
      simp [Endpoints.next, hp, Endpoints.add_of_mem hd]
  | delConsumer u => exact absurd hidle (hparse u hop)
  | onException svr => exact hidle.elim

theorem Canonical.not_registered (hc : s.Canonical) {u : Str} {d : Dst} (hu : Mq.Canonical u)
    (hp : parseMqUri u = some d) (hn : s.mapProcucer.lookup u = none) (p : ℕ) :
    ¬ s.Registered .producer d p := by
  intro hr
  obtain ⟨-, rfl⟩ := canonical_parse hu hp
  rw [(hc.cached d p hr).2] at hn
  cases hn

theorem exec_abstracts (hs : s.Owned) (hc : s.Canonical) (hlive : s.CacheLive) (h : s.Abstracts a)
    {op : Op} (hop : op.CanonicalUrl ∧ op.Supplied ∧ ¬ op.IsOnException)
    (hx : s.exec op = .ok s') : s'.Abstracts (a.next op) ∧ SendsRight s op s' := by
  obtain ⟨hurl, hsup, hexc⟩ := hop
  have hcases := exec_cases hs op
  rw [hx] at hcases
  cases hcases with
  | idle _ hidle =>
    rw [next_idle hlive h hurl hidle]
    refine ⟨h, ?_⟩
    cases op with
    | sendMsg u msg env =>
      obtain ⟨d, hd, rfl⟩ := hurl
      rw [Idle, parseMqUri_urlOf hd] at hidle
      cases hidle.2
    | _ => rfl
  | refused _ _ hns hq hdel => exact absurd hsup hns
  | addedProducer u env d s₁ hp hn ha =>
    have h' := h.added (hc.not_registered hurl hp hn) ha
    rw [Endpoints.next, hp]
    exact ⟨⟨h'.mem, h'.unique, h'.stored⟩, ha.sends⟩
  | addedConsumer u cb user env d _ hcb hp hn ha =>
    rw [Endpoints.next, if_neg hcb, hp]
    exact ⟨h.added (firstMatch_none hn) ha, ha.sends⟩
  | tookProducer u d s₁ hp ht =>
    have h' := h.taken hs ht
    rw [Endpoints.next, hp]
    exact ⟨⟨h'.mem, h'.unique, h'.stored⟩, ht.sends⟩
  | tookConsumer u d _ hp ht =>
    rw [Endpoints.next, hp]
    exact ⟨h.taken hs ht, ht.sends⟩
  | sent u msg env p ep _ hu hl hsent =>
    obtain ⟨p', d, hp', hp, hr⟩ := hlive u (some p) hu
    obtain rfl := Option.some.inj hp'
    rw [Endpoints.next, hp, Option.elim_some, Endpoints.add_of_mem (hlive.mem h hp hu)]
    refine ⟨h.congr hsent.registered fun svr => ?_, d, p, hp, (hsent.registered ..).mpr hr,
      hsent.sends⟩
    rw [Stored, Stored, hsent.mapConn]
  | addedAndSent u msg env d s₁ _ hp hn ha hsent =>
    have h' := h.added (hc.not_registered hurl hp hn) ha
    rw [Endpoints.next, hp]
    refine ⟨h'.congr hsent.registered fun svr => ?_, d, _, hp,
      (hsent.registered ..).mpr ha.registered_new, ?_⟩
    · rw [Stored, Stored, hsent.mapConn]
    · rw [hsent.sends]
      exact congrArg _ ha.sends
  | failed svr _ hf => exact absurd trivial hexc

/-! ## Whole runs -/

/-- How the manager stands for the two sets. -/
structure Refines (s : MqMgr) (a : Endpoints) : Prop where
  /-- The sets are those of the destinations of the live endpoints in the lists. -/
  mem : ∀ kind d, d ∈ a kind ↔ ∃ e, s.Registered kind d e
  /-- A cached pointer is the one live producer of the destination, and the other way round. -/
  cached : ∀ d, d.Proper → ∀ p, s.mapProcucer.lookup (urlOf d) = some (some p) ↔
    s.Registered .producer d p ∧ ∀ q, s.Registered .producer d q → q = p
  /-- Only canonical urls are cached, with a pointer that is not NULL. -/
  key : ∀ u pPro, s.mapProcucer.lookup u = some pPro → Mq.Canonical u ∧ pPro ≠ none
  /-- Every producer in a list of any connection is cached under exactly one url. -/
  oneUrl : ∀ c co p, s.mem.conns.cell c = some co → p ∈ co.listProducer →
    ∃! u, s.mapProcucer.lookup u = some (some p)
  /-- The stored connections are those of the servers that have an endpoint. -/
  stored : ∀ svr, s.Stored svr ↔ ∃ kind d, d ∈ a kind ∧ d.strMQSvr = svr

theorem Abstracts.refines (h : s.Abstracts a) (hs : s.Owned) (hc : s.Canonical)
    (hlive : s.CacheLive) : s.Refines a := by
  have hreg : ∀ d, d.Proper → ∀ p, s.mapProcucer.lookup (urlOf d) = some (some p) ↔
      s.Registered .producer d p := by
    intro d hd p
    refine ⟨fun hl => ?_, fun hr => (hc.cached d p hr).2⟩
    obtain ⟨p', d', hp', hp, hr⟩ := hlive _ _ hl
    obtain rfl := Option.some.inj hp'
    rw [parseMqUri_urlOf hd] at hp
    obtain rfl := Option.some.inj hp
    exact hr
  refine ⟨h.mem, fun d hd p => ?_, fun u pPro hu => ?_, fun c co p hco hp => ?_, h.stored⟩
  · rw [hreg d hd p]
    exact ⟨fun hr => ⟨hr, fun q hq => h.unique _ _ _ _ hq hr⟩, And.left⟩
  · obtain ⟨d, p, hd, rfl, rfl⟩ := hc.key u pPro hu
    exact ⟨⟨d, hd, rfl⟩, Option.some_ne_none p⟩
  · obtain ⟨ep, hep⟩ := hs.mem.live c co hco p (List.mem_append_left _ hp)
    obtain ⟨svr, hl⟩ := hs.connStored c co hco
    have hr : s.Registered .producer ⟨svr, ep.strName, ep.nMode⟩ p :=
      ⟨c, co, ep, hl, hco, hp, hep, rfl, rfl⟩
    obtain ⟨hd, hu⟩ := hc.cached _ p hr
    refine ⟨_, hu, fun v hv => ?_⟩
    obtain ⟨d', q, hd', rfl, -⟩ := hc.key v _ hv
    rw [(hs.registered_inj ((hreg d' hd' p).mp hv) hr).2]

/-- **The manager refines two sets of destinations.** In every run over canonical urls in which
connects and allocations succeed and no connection fails, no operation faults, after each of them
the manager stands for the two sets, and every `SendMsg` uses the live producer of its url. -/
theorem manager_refines (closeThrows : ℕ → Bool) (ops : List Op)
    (hops : ∀ op ∈ ops, op.CanonicalUrl ∧ op.Supplied ∧ ¬ op.IsOnException) :
    Simulates exec Endpoints.next Refines SendsRight (init closeThrows) Endpoints.empty ops := by
  have hrun : Simulates exec Endpoints.next
      (fun s a => s.Owned ∧ s.Canonical ∧ s.CacheLive ∧ s.Abstracts a) SendsRight
      (init closeThrows) Endpoints.empty ops := by
    refine Simulates.of_step
      (L := fun op => op.CanonicalUrl ∧ op.Supplied ∧ ¬ op.IsOnException)
      (fun s a op hop hR => ?_)
      ⟨init_owned _, init_canonical _, init_cacheLive _, init_abstracts _⟩ hops
    obtain ⟨hs, hc, hlive, h⟩ := hR
    have hok : ∃ s', s.exec op = .ok s' ∧ s'.CacheLive := by
      by_cases hdel : ∃ u, op = .delProducer u
      · obtain ⟨u, rfl⟩ := hdel
        obtain ⟨s', hx, hiff⟩ := delProducer_cacheLive hs hlive u
        exact ⟨s', hx, hiff.mpr (hc.findsOwn hs hlive hop.1)⟩
      · refine exec_cacheLive hs hlive (not_usesDead hop.2.1.connects) (fun u hu => hdel ⟨u, hu⟩)
          fun svr hsvr => ?_
        subst hsvr
        exact hop.2.2 trivial
    obtain ⟨s', hx, hlive'⟩ := hok
    obtain ⟨h', hsends⟩ := exec_abstracts hs hc hlive h hop hx
    exact ⟨s', hx, hsends, exec_owned hs hx, exec_canonical hs hc hop.1 hx, hlive', h'⟩
  exact hrun.mono (fun s a hR => hR.2.2.2.refines hR.1 hR.2.1 hR.2.2.1) fun _ _ _ => id

theorem manager_refines_sample :
    Simulates exec Endpoints.next Refines SendsRight (init fun _ => false) Endpoints.empty
      [.sendMsg (urlOf ⟨['S'], ['D'], .mqModeQueue⟩) ['m'] .ok,
        .delProducer (urlOf ⟨['S'], ['D'], .mqModeQueue⟩)] := by
  have hu : Mq.Canonical (urlOf ⟨['S'], ['D'], .mqModeQueue⟩) :=
    ⟨_, ⟨by decide, by decide⟩, rfl⟩
  refine manager_refines _ _ fun op hop => ?_
  rcases List.mem_pair.mp hop with rfl | rfl
  · exact ⟨hu, ⟨rfl, rfl, rfl⟩, id⟩
  · exact ⟨hu, trivial, id⟩

end MqMgr
end AppUtil.Mq
