import AppUtil.Mq.Cache

/-! # Concurrent clients

Any number of clients call `SendMsg`, `AddProducer` and `DelProducer`. A section that holds the
lock is one step; `SendMsg` lets go of the lock between its sections, and there the other clients
can step in. -/
namespace AppUtil.Mq
open AppUtil.Lib
set_option autoImplicit false

/-- Where a client is: outside, or in `SendMsg` before the call of `AddProducer` or before the
second lookup. -/
inductive Client where
  | idle
  | adding (strUrl strMsg : Str)
  | again (strUrl strMsg : Str)
  deriving DecidableEq, Repr

structure World where
  mgr : MqMgr
  clients : ℕ → Client

/-- A section of a client that holds the lock. -/
inductive Section where
  | addProducer (strUrl : Str) (env : Env)
  | delProducer (strUrl : Str)
  | sendCached (strUrl strMsg : Str) (env : Env)
  | sendAdd (env : Env)
  | sendAgain (env : Env)
  deriving DecidableEq, Repr

/-- One section of a client. Where the client is not at the section nothing happens. -/
def Section.run (s : MqMgr) : Client → Section → Except Fault (Client × MqMgr)
  | .idle, .addProducer u env => do
    let (_, s) ← s.addProducer u env
    pure (.idle, s)
  | .idle, .delProducer u => do
    let (_, s) ← s.delProducer u
    pure (.idle, s)
  | .idle, .sendCached u msg env => do
    let (r, s) ← s.sendCached u msg env
    pure (if r = none then .adding u msg else .idle, s)
  | .adding u msg, .sendAdd env => do
    let (r, s) ← s.addProducer u env
    pure (if r = dtkOk then .again u msg else .idle, s)
  | .again u msg, .sendAgain env => do
    let (_, s) ← s.sendAgain u msg env
    pure (.idle, s)
  | c, _ => pure (c, s)

namespace World

def start (closeThrows : ℕ → Bool) : World := ⟨MqMgr.init closeThrows, fun _ => .idle⟩

def put (w : World) (i : ℕ) (c : Client) (s : MqMgr) : World :=
  { mgr := s, clients := fun j => if j = i then c else w.clients j }

/-- A step: client `l.1` runs the section `l.2`. -/
def exec (w : World) (l : ℕ × Section) : Except Fault World := do
  let (c, s) ← l.2.run w.mgr (w.clients l.1)
  pure (w.put l.1 c s)

variable {w w' : World}

/-! ## The second lookup, and when a section leaves it alone -/

/-- The pointer is not NULL and the producer is alive. -/
def LivePtr (s : MqMgr) (pPro : Option ℕ) : Prop := ∃ p ep, pPro = some p ∧ s.mem.ends.cell p = some ep

/-- Every client that is about to look its url up again will find a live producer. -/
def SecondLookup (w : World) : Prop :=
  ∀ i u msg, w.clients i = .again u msg →
    ∃ pPro, w.mgr.mapProcucer.lookup u = some pPro ∧ LivePtr w.mgr pPro

/-- A section that holds only the read lock leaves the cache as it is, `operator[]` included. -/
def ReadsOnly (w : World) (l : ℕ × Section) : Prop :=
  match w.clients l.1, l.2 with
  | .idle, .sendCached u msg env => ∀ r s', w.mgr.sendCached u msg env = .ok (r, s') →
    s'.mapProcucer = w.mgr.mapProcucer
  | .again u _, .sendAgain _ => (w.mgr.subscript u).2.mapProcucer = w.mgr.mapProcucer
  | _, _ => True

/-- A producer that is cached under the url is alive. -/
def CachedLive (s : MqMgr) (u : Str) : Prop :=
  ∀ pPro, s.mapProcucer.lookup u = some pPro → LivePtr s pPro

/-- The condition on one section. `DelProducer(u)` comes while no client is between `AddProducer`
and its second lookup with `u`, or with a url that is cached with the producer that is freed. A
`SendMsg` finds no dead producer under its url. Nothing is added to a connection whose connect has
just failed. -/
def Undisturbed (w : World) (l : ℕ × Section) : Prop :=
  match w.clients l.1, l.2 with
  | .idle, .addProducer u env => ¬ w.mgr.UsesDead (.addProducer u env)
  | .idle, .delProducer u => ∀ j v msg d, w.clients j = .again v msg → parseMqUri u = some d →
    v ≠ u ∧ ∀ p, w.mgr.firstMatch .producer d = some p → w.mgr.mapProcucer.lookup v ≠ some (some p)
  | .idle, .sendCached u _ _ => CachedLive w.mgr u
  | .adding u _, .sendAdd env => ¬ w.mgr.UsesDead (.addProducer u env) ∧ CachedLive w.mgr u
  | _, _ => True

/-! ## Invariant -/

/-- The manager is owned; only urls that parse are cached, with a pointer that is not NULL. -/
structure Sound (s : MqMgr) : Prop where
  owned : s.Owned
  key : ∀ u pPro, s.mapProcucer.lookup u = some pPro → pPro ≠ none ∧ parseMqUri u ≠ none

theorem start_sound (closeThrows : ℕ → Bool) : Sound (start closeThrows).mgr := by
  refine ⟨MqMgr.init_owned closeThrows, fun u pPro hu => ?_⟩
  simp [start, MqMgr.init] at hu

theorem Sound.keep {s s' : MqMgr} (h : Sound s) (hs : s'.Owned)
    (hcache : s'.mapProcucer = s.mapProcucer) : Sound s' :=
  ⟨hs, fun u pPro hu => h.key u pPro (hcache ▸ hu)⟩

theorem live_of_registered {s s' : MqMgr} (hs : s.Owned)
    (hreg : ∀ k d e, s.Registered k d e → s'.Registered k d e) {p : ℕ} {ep : MqEndpoint}
    (hp : s.mem.ends.cell p = some ep) : ∃ ep', s'.mem.ends.cell p = some ep' := by
  obtain ⟨k, d, hr⟩ := hs.registered_of_live hp
  exact (hreg k d p hr).live

/-! ## The sections on the manager -/

/-- What `AddProducer(u)` leaves for the others and for its caller. -/
structure Grown (s : MqMgr) (u : Str) (r : ℤ) (s' : MqMgr) : Prop where
  sound : Sound s'
  lookup : ∀ v pPro, s.mapProcucer.lookup v = some pPro → s'.mapProcucer.lookup v = some pPro
  live : ∀ pPro, LivePtr s pPro → LivePtr s' pPro
  found : r = dtkOk → (CachedLive s u ↔
    ∃ pPro, s'.mapProcucer.lookup u = some pPro ∧ LivePtr s' pPro)
  refused : r ≠ dtkOk → CachedLive s u

theorem addProducer_grown {s : MqMgr} (hs : Sound s) {u : Str} {env : Env}
    (hdead : ¬ s.UsesDead (.addProducer u env)) :
    ∃ r s', s.addProducer u env = .ok (r, s') ∧ Grown s u r s' := by
  have hmissing : s.mapProcucer.lookup u = none → CachedLive s u := by
    intro hn pPro hu
    rw [hn] at hu
    cases hu
  have h := MqMgr.addProducer_cases hs.owned u env
  generalize s.addProducer u env = r at h
  cases h with
  | unparsed hp =>
    refine ⟨_, s, rfl, hs, fun _ _ => id, fun _ => id, fun hr => absurd hr (by decide), fun _ => ?_⟩
    intro pPro hu
    exact absurd hp (hs.key u pPro hu).2
  | cached d pPro hp hu =>
    refine ⟨_, s, rfl, hs, fun _ _ => id, fun _ => id, fun _ => ⟨fun hl => ⟨pPro, hu, hl pPro hu⟩, ?_⟩,
      fun hr => absurd rfl hr⟩
    rintro ⟨q, hq, hl⟩ q' hq'
    rw [hq] at hq'
    exact Option.some.inj hq' ▸ hl
  | dead d hp hn hd => exact absurd ⟨d, hp, hn, hd⟩ hdead
  | refused d s' hp hn _ hsup hq hdel =>
    refine ⟨_, s', rfl, hs.keep hq.owned hq.cache, fun v pPro hv => by rw [hq.cache]; exact hv, ?_,
      fun hr => absurd hr (by decide), fun _ => hmissing hn⟩
    rintro _ ⟨p, ep, rfl, hp⟩
    obtain ⟨ep', hp'⟩ := live_of_registered hs.owned (fun k d e => (hq.registered k d e).mpr) hp
    exact ⟨p, ep', rfl, hp'⟩
  | added d s₁ hp hn _ ha =>
    have hnew : (s.mapProcucer.insert u (some s.mem.ends.next)).lookup u =
        some (some s.mem.ends.next) := AList.lookup_insert _
    refine ⟨_, _, rfl, ⟨ha.owned.cached _, fun v pPro hv => ?_⟩, fun v pPro hv => ?_, ?_,
      fun _ => ⟨fun _ => ?_, fun _ => hmissing hn⟩, fun hr => absurd rfl hr⟩
    · change (s.mapProcucer.insert _ _).lookup v = some pPro at hv
      rw [MqMgr.lookup_insert] at hv
      by_cases huv : v = u
      · rw [if_pos huv] at hv
        obtain rfl := Option.some.inj hv
        refine ⟨Option.some_ne_none _, ?_⟩
        rw [huv, hp]
        exact Option.some_ne_none d
      · rw [if_neg huv] at hv
        exact hs.key v pPro hv
    · have huv : v ≠ u := by
        rintro rfl
        rw [hn] at hv
        cases hv
      change (s.mapProcucer.insert _ _).lookup v = some pPro
      rw [MqMgr.lookup_insert, if_neg huv, hv]
    · rintro _ ⟨p, ep, rfl, hp⟩
      obtain ⟨ep', hp'⟩ :=
        live_of_registered hs.owned (fun k d e hr => (ha.registered k d e).mpr (Or.inl hr)) hp
      exact ⟨p, ep', rfl, hp'⟩
    · obtain ⟨ep, hep⟩ := ha.registered_new.live
      exact ⟨_, hnew, _, ep, rfl, hep⟩

theorem addProducer_usesDead {s : MqMgr} (hs : s.Owned) {u : Str} {env : Env}
    (hdead : s.UsesDead (.addProducer u env)) (r : ℤ) (s' : MqMgr) :
    s.addProducer u env ≠ .ok (r, s') := by
  intro hx
  have h := MqMgr.exec_usesDead hs hdead
  rw [MqMgr.exec, hx] at h
  cases h

/-- The producer that a cached url names, once `DelProducer(u)` is through. -/
theorem Taken.lookup_live {s s' : MqMgr} (hs : Sound s) {u v : Str} {d : Dst} {pPro : Option ℕ}
    (ht : MqMgr.Taken s .producer d s') (hv : s.mapProcucer.lookup v = some pPro)
    (hl : LivePtr s pPro) :
    (∃ q, (s.mapProcucer.erase u).lookup v = some q ∧ LivePtr s' q) ↔
      v ≠ u ∧ ∀ p, s.firstMatch .producer d = some p → s.mapProcucer.lookup v ≠ some (some p) := by
  obtain ⟨p, ep, rfl, hp⟩ := hl
  rw [MqMgr.lookup_erase, hv]
  by_cases huv : v = u
  · simp [huv]
  · simp only [if_neg huv]
    constructor
    · rintro ⟨q, hq, q', ep', rfl, hq'⟩
      obtain rfl := Option.some.inj (Option.some.inj hq)
      refine ⟨huv, fun p' hm heq => ?_⟩
      obtain rfl := Option.some.inj (Option.some.inj heq)
      obtain ⟨k, d', hr⟩ := ht.owned.registered_of_live hq'
      exact ((ht.registered _ _ _).mp hr).2 hm
    · rintro ⟨-, hm⟩
      obtain ⟨k, d', hr⟩ := hs.owned.registered_of_live hp
      obtain ⟨ep', hp'⟩ := ((ht.registered _ _ _).mpr ⟨hr, fun h => hm p h rfl⟩).live
      exact ⟨some p, rfl, p, ep', rfl, hp'⟩

theorem Taken.sound {s s' : MqMgr} (hs : Sound s) {d : Dst} (u : Str)
    (ht : MqMgr.Taken s .producer d s') :
    Sound { s' with mapProcucer := s.mapProcucer.erase u } := by
  refine ⟨ht.owned.cached _, fun v pPro hv => ?_⟩
  change (s.mapProcucer.erase u).lookup v = some pPro at hv
  rw [MqMgr.lookup_erase] at hv
  by_cases huv : v = u
  · rw [if_pos huv] at hv
    cases hv
  · rw [if_neg huv] at hv
    exact hs.key v pPro hv

theorem SentOn.livePtr {s s' : MqMgr} {p : ℕ} {msg : Str} (h : MqMgr.SentOn s p msg s')
    (pPro : Option ℕ) : LivePtr s' pPro ↔ LivePtr s pPro := by
  unfold LivePtr
  rw [h.ends]

/-! ## One section -/

theorem run_sound {s s' : MqMgr} (hs : Sound s) {c c' : Client} {l : Section}
    (hx : l.run s c = .ok (c', s')) : Sound s' := by
  cases c <;> cases l
  case idle.addProducer u env =>
    obtain ⟨⟨r, s₁⟩, hx', hw⟩ := bind_eq_ok.mp hx
    cases hw
    obtain ⟨r', s₂, hx'', hg⟩ :=
      addProducer_grown hs fun h => addProducer_usesDead hs.owned h r s' hx'
    cases hx'.symm.trans hx''
    exact hg.sound
  case idle.delProducer u =>
    obtain ⟨⟨r, s₁⟩, hx', hw⟩ := bind_eq_ok.mp hx
    cases hw
    cases hp : parseMqUri u with
    | none =>
      cases hx'.symm.trans (MqMgr.delProducer_unparsed hp)
      exact hs
    | some d =>
      obtain ⟨s₂, hx'', ht⟩ := MqMgr.delProducer_ok hs.owned hp
      cases hx'.symm.trans hx''
      exact Taken.sound hs u ht
  case idle.sendCached u msg env =>
    obtain ⟨⟨r, s₁⟩, hx', hw⟩ := bind_eq_ok.mp hx
    cases hw
    have h := MqMgr.sendCached_cases (s := s) u msg env
    rw [hx'] at h
    cases h with
    | missing hn => exact hs
    | sent p ep r _ hu hl hsent => exact hs.keep (hsent.owned hs.owned) hsent.cache
  case adding.sendAdd u msg env =>
    obtain ⟨⟨r, s₁⟩, hx', hw⟩ := bind_eq_ok.mp hx
    cases hw
    obtain ⟨r', s₂, hx'', hg⟩ :=
      addProducer_grown hs fun h => addProducer_usesDead hs.owned h r s' hx'
    cases hx'.symm.trans hx''
    exact hg.sound
  case again.sendAgain u msg env =>
    obtain ⟨⟨r, s₁⟩, hx', hw⟩ := bind_eq_ok.mp hx
    cases hw
    have h := MqMgr.sendAgain_cases (s := s) u msg env
    rw [hx'] at h
    cases h with
    | sent p ep r _ hu hl hsent => exact hs.keep (hsent.owned hs.owned) hsent.cache
  all_goals
    cases hx
    exact hs

theorem exec_sound (hs : Sound w.mgr) {l : ℕ × Section} (hx : w.exec l = .ok w') :
    Sound w'.mgr := by
  obtain ⟨⟨c, s⟩, hx', hw⟩ := bind_eq_ok.mp hx
  cases hw
  exact run_sound hs hx'

theorem exec_readsOnly (h : SecondLookup w) (l : ℕ × Section) : ReadsOnly w l := by
  obtain ⟨i, l⟩ := l
  unfold ReadsOnly
  cases hc : w.clients i <;> cases l
  case idle.sendCached u msg env =>
    intro r s' hx
    have h := MqMgr.sendCached_cases (s := w.mgr) u msg env
    rw [hx] at h
    cases h with
    | missing hn => rfl
    | sent p ep r _ hu hl hsent => exact hsent.cache
  case again.sendAgain u msg env =>
    obtain ⟨pPro, hu, -⟩ := h i u msg hc
    simp [MqMgr.subscript, hu]
  all_goals trivial

/-- A client that is not at its section leaves everything as it is. -/
theorem put_self (w : World) (i : ℕ) : w.put i (w.clients i) w.mgr = w := by
  have hc : (fun j => if j = i then w.clients i else w.clients j) = w.clients := by
    funext j
    by_cases h : j = i <;> simp [h]
  simp only [put, hc]

theorem put_clients (w : World) (i j : ℕ) (c : Client) (s : MqMgr) :
    (w.put i c s).clients j = if j = i then c else w.clients j := rfl

theorem exec_ok {i : ℕ} {l : Section} {c c' : Client} {s : MqMgr} (hc : w.clients i = c)
    (hx : l.run w.mgr c = .ok (c', s)) : w.exec (i, l) = .ok (w.put i c' s) := by
  simp only [exec, hc, hx, ok_bind, pure_eq_ok]

theorem exec_error {i : ℕ} {l : Section} {c : Client} {f : Fault} (hc : w.clients i = c)
    (hx : l.run w.mgr c = .error f) : w.exec (i, l) = .error f := by
  simp only [exec, hc, hx]
  rfl

theorem secondLookup_put {i : ℕ} {c : Client} {s : MqMgr}
    (hother : ∀ j u msg, j ≠ i → w.clients j = .again u msg →
      ∃ pPro, s.mapProcucer.lookup u = some pPro ∧ LivePtr s pPro)
    (hself : ∀ u msg, c = .again u msg →
      ∃ pPro, s.mapProcucer.lookup u = some pPro ∧ LivePtr s pPro) :
    SecondLookup (w.put i c s) := by
  intro j u msg hj
  rw [put_clients] at hj
  by_cases h : j = i
  · rw [if_pos h] at hj
    exact hself u msg hj
  · rw [if_neg h] at hj
    exact hother j u msg h hj

theorem Grown.secondLookup {u : Str} {r : ℤ} {s : MqMgr} (hg : Grown w.mgr u r s)
    (h : SecondLookup w) (j : ℕ) (v msg : Str) (hj : w.clients j = .again v msg) :
    ∃ pPro, s.mapProcucer.lookup v = some pPro ∧ LivePtr s pPro := by
  obtain ⟨pPro, hv, hl⟩ := h j v msg hj
  exact ⟨pPro, hg.lookup v pPro hv, hg.live pPro hl⟩

theorem SentOn.secondLookup {s : MqMgr} {p : ℕ} {m : Str} (hsent : MqMgr.SentOn w.mgr p m s)
    (h : SecondLookup w) (j : ℕ) (v msg : Str) (hj : w.clients j = .again v msg) :
    ∃ pPro, s.mapProcucer.lookup v = some pPro ∧ LivePtr s pPro := by
  obtain ⟨pPro, hv, hl⟩ := h j v msg hj
  exact ⟨pPro, by rw [hsent.cache, hv], (SentOn.livePtr hsent pPro).mpr hl⟩

section Sections
variable {i : ℕ} {u msg : Str} {env : Env}

theorem addProducer_secondLookup (hs : Sound w.mgr) (h : SecondLookup w)
    (hc : w.clients i = .idle) :
    (∃ w', w.exec (i, .addProducer u env) = .ok w' ∧ SecondLookup w') ↔
      ¬ w.mgr.UsesDead (.addProducer u env) := by
  constructor
  · rintro ⟨w', hx, -⟩ hdead
    rw [exec, hc] at hx
    obtain ⟨⟨c, s⟩, hx, -⟩ := bind_eq_ok.mp hx
    obtain ⟨⟨r, s'⟩, hx, -⟩ := bind_eq_ok.mp hx
    exact addProducer_usesDead hs.owned hdead r s' hx
  · intro hdead
    obtain ⟨r, s', hx, hg⟩ := addProducer_grown hs hdead
    have hrun : Section.run w.mgr .idle (.addProducer u env) = .ok (.idle, s') := by
      simp only [Section.run, hx, ok_bind, pure_eq_ok]
    exact ⟨_, exec_ok hc hrun,
      secondLookup_put (fun j v m _ => hg.secondLookup h j v m) fun _ _ => Client.noConfusion⟩

theorem delProducer_secondLookup (hs : Sound w.mgr) (h : SecondLookup w)
    (hc : w.clients i = .idle) :
    (∃ w', w.exec (i, .delProducer u) = .ok w' ∧ SecondLookup w') ↔
      ∀ j v m d, w.clients j = .again v m → parseMqUri u = some d → v ≠ u ∧
        ∀ p, w.mgr.firstMatch .producer d = some p →
          w.mgr.mapProcucer.lookup v ≠ some (some p) := by
  cases hp : parseMqUri u with
  | none =>
    have hrun : Section.run w.mgr .idle (.delProducer u) = .ok (.idle, w.mgr) := by
      simp only [Section.run, MqMgr.delProducer_unparsed hp, ok_bind, pure_eq_ok]
    refine ⟨fun _ j v m d _ hd => (nomatch hd), fun _ => ⟨_, exec_ok hc hrun, ?_⟩⟩
    exact secondLookup_put (fun j v m _ => h j v m) fun _ _ => Client.noConfusion
  | some d =>
    obtain ⟨s', hx, ht⟩ := MqMgr.delProducer_ok hs.owned hp
    have hrun : Section.run w.mgr .idle (.delProducer u) =
        .ok (.idle, { s' with mapProcucer := w.mgr.mapProcucer.erase u }) := by
      simp only [Section.run, hx, ok_bind, pure_eq_ok]
    constructor
    · rintro ⟨w', hw, h'⟩ j v m d' hj hd'
      obtain rfl := Option.some.inj hd'
      obtain rfl := Except.ok.inj ((exec_ok hc hrun).symm.trans hw)
      obtain ⟨pPro, hv, hl⟩ := h j v m hj
      have hji : j ≠ i := by
        rintro rfl
        rw [hc] at hj
        cases hj
      exact (Taken.lookup_live hs ht hv hl).mp (h' j v m (by rw [put_clients, if_neg hji, hj]))
    · intro hg
      refine ⟨_, exec_ok hc hrun,
        secondLookup_put (fun j v m _ hj => ?_) fun _ _ => Client.noConfusion⟩
      obtain ⟨pPro, hv, hl⟩ := h j v m hj
      exact (Taken.lookup_live hs ht hv hl).mpr (hg j v m d hj rfl)

theorem sendCached_secondLookup (hs : Sound w.mgr) (h : SecondLookup w)
    (hc : w.clients i = .idle) :
    (∃ w', w.exec (i, .sendCached u msg env) = .ok w' ∧ SecondLookup w') ↔ CachedLive w.mgr u := by
  have hcases := MqMgr.sendCached_cases (s := w.mgr) u msg env
  have hrun : ∀ r, w.mgr.sendCached u msg env = r → Section.run w.mgr .idle
      (.sendCached u msg env) = r.map fun x => (if x.1 = none then .adding u msg else .idle, x.2) := by
    rintro r rfl
    simp only [Section.run]
    cases w.mgr.sendCached u msg env <;> rfl
  generalize hr : w.mgr.sendCached u msg env = r at hcases
  have hrun := hrun r hr
  cases hcases with
  | missing hn =>
    refine ⟨fun _ pPro hu => ?_, fun _ => ⟨_, exec_ok hc hrun, ?_⟩⟩
    · rw [hn] at hu
      cases hu
    · exact secondLookup_put (fun j v m _ => h j v m) fun _ _ => Client.noConfusion
  | null hu => exact absurd rfl (hs.key u none hu).1
  | dead p hu hd =>
    constructor
    · rintro ⟨w', hx, -⟩
      rw [exec_error hc hrun] at hx
      cases hx
    · intro hl
      obtain ⟨q, ep, hq, hep⟩ := hl _ hu
      obtain rfl := Option.some.inj hq
      rw [hd] at hep
      cases hep
  | sent p ep r s' hu hl hsent =>
    refine ⟨fun _ pPro hu' => ?_, fun _ => ⟨_, exec_ok hc hrun, ?_⟩⟩
    · rw [hu] at hu'
      exact ⟨p, ep, (Option.some.inj hu').symm, hl⟩
    · exact secondLookup_put (fun j v m _ => SentOn.secondLookup hsent h j v m)
        fun _ _ => Client.noConfusion

theorem sendAdd_secondLookup (hs : Sound w.mgr) (h : SecondLookup w)
    (hc : w.clients i = .adding u msg) :
    (∃ w', w.exec (i, .sendAdd env) = .ok w' ∧ SecondLookup w') ↔
      ¬ w.mgr.UsesDead (.addProducer u env) ∧ CachedLive w.mgr u := by
  by_cases hdead : w.mgr.UsesDead (.addProducer u env)
  · refine ⟨fun hw => ?_, fun hg => absurd hdead hg.1⟩
    obtain ⟨w', hx, -⟩ := hw
    rw [exec, hc] at hx
    obtain ⟨⟨c, s⟩, hx, -⟩ := bind_eq_ok.mp hx
    obtain ⟨⟨r, s'⟩, hx, -⟩ := bind_eq_ok.mp hx
    exact absurd hx (addProducer_usesDead hs.owned hdead r s')
  · obtain ⟨r, s', hx, hg⟩ := addProducer_grown hs hdead
    have hrun : Section.run w.mgr (.adding u msg) (.sendAdd env) =
        .ok (if r = dtkOk then .again u msg else .idle, s') := by
      simp only [Section.run, hx, ok_bind, pure_eq_ok]
    have hother : ∀ j v m, j ≠ i → w.clients j = .again v m →
        ∃ pPro, s'.mapProcucer.lookup v = some pPro ∧ LivePtr s' pPro :=
      fun j v m _ => hg.secondLookup h j v m
    by_cases hr : r = dtkOk
    · rw [if_pos hr] at hrun
      constructor
      · rintro ⟨w', hw, h'⟩
        obtain rfl := Except.ok.inj ((exec_ok hc hrun).symm.trans hw)
        exact ⟨hdead, (hg.found hr).mpr (h' i u msg (by rw [put_clients, if_pos rfl]))⟩
      · rintro ⟨-, hl⟩
        refine ⟨_, exec_ok hc hrun, secondLookup_put hother fun v m hv => ?_⟩
        cases hv
        exact (hg.found hr).mp hl
    · rw [if_neg hr] at hrun
      exact ⟨fun _ => ⟨hdead, hg.refused hr⟩, fun _ => ⟨_, exec_ok hc hrun,
        secondLookup_put hother fun _ _ => Client.noConfusion⟩⟩

theorem sendAgain_secondLookup (h : SecondLookup w) (hc : w.clients i = .again u msg) :
    ∃ w', w.exec (i, .sendAgain env) = .ok w' ∧ SecondLookup w' := by
  obtain ⟨pPro, hu, p, ep, rfl, hl⟩ := h i u msg hc
  have hcases := MqMgr.sendAgain_cases (s := w.mgr) u msg env
  generalize hr : w.mgr.sendAgain u msg env = r at hcases
  cases hcases with
  | null hnull => simp [hu] at hnull
  | dead q hq hd =>
    cases hu.symm.trans hq
    rw [hl] at hd
    cases hd
  | sent q ep r s' hq hl hsent =>
    have hrun : Section.run w.mgr (.again u msg) (.sendAgain env) = .ok (.idle, s') := by
      simp only [Section.run, hr, ok_bind, pure_eq_ok]
    exact ⟨_, exec_ok hc hrun, secondLookup_put
      (fun j v m _ => SentOn.secondLookup hsent h j v m) fun _ _ => Client.noConfusion⟩

end Sections

/-- What a section needs for the second lookups to stay safe, and all it needs. -/
theorem exec_secondLookup_iff (hs : Sound w.mgr) (h : SecondLookup w) (l : ℕ × Section) :
    (∃ w', w.exec l = .ok w' ∧ SecondLookup w') ↔ Undisturbed w l := by
  obtain ⟨i, l⟩ := l
  have hskip : ∀ c, w.clients i = c → l.run w.mgr c = .ok (c, w.mgr) →
      ∃ w', w.exec (i, l) = .ok w' ∧ SecondLookup w' := by
    rintro c rfl hrun
    exact ⟨w, by rw [exec_ok rfl hrun, put_self], h⟩
  unfold Undisturbed
  cases hc : w.clients i <;> cases l
  case idle.addProducer u env => exact addProducer_secondLookup hs h hc
  case idle.delProducer u => exact delProducer_secondLookup hs h hc
  case idle.sendCached u msg env => exact sendCached_secondLookup hs h hc
  case adding.sendAdd u msg env => exact sendAdd_secondLookup hs h hc
  case again.sendAgain u msg env => exact iff_of_true (sendAgain_secondLookup h hc) trivial
  all_goals exact iff_of_true (hskip _ hc rfl) trivial

/-! ## Whole runs -/

theorem start_secondLookup (closeThrows : ℕ → Bool) : SecondLookup (start closeThrows) := by
  intro i u msg hi
  cases hi

/-- **`SendMsg` among other clients.** In a run of the sections of any number of clients every
second lookup finds a live producer and no section that holds only the read lock changes the
cache, exactly when no section disturbs another client in the gap of its `SendMsg`. -/
theorem clients_sendMsg (closeThrows : ℕ → Bool) (ls : List (ℕ × Section)) :
    (Holds exec SecondLookup (start closeThrows) ls ∧ Meets exec ReadsOnly (start closeThrows) ls) ↔
      Meets exec Undisturbed (start closeThrows) ls := by
  have hiff : Holds exec SecondLookup (start closeThrows) ls ↔
      Meets exec Undisturbed (start closeThrows) ls :=
    holds_iff_meets (I := fun w => Sound w.mgr) (L := fun _ => True)
      (fun w l w' _ hs hx => exec_sound hs hx)
      (fun w l _ hs h hg => (exec_secondLookup_iff hs h l).mpr hg)
      (fun w l w' _ hs h hx h' => (exec_secondLookup_iff hs h l).mp ⟨w', hx, h'⟩)
      (start_sound closeThrows) (start_secondLookup closeThrows) fun _ _ => trivial
  rw [← hiff]
  exact ⟨And.left, fun h => ⟨h, h.meets fun w l => fun hw => exec_readsOnly hw l⟩⟩

/-- Client 0 is in the gap when client 1 deletes its producer: the second lookup inserts NULL and
goes through it. -/
theorem clients_gap :
    ¬ Holds exec SecondLookup (start fun _ => false)
      [(0, .sendCached (urlOf ⟨['S'], ['D'], .mqModeQueue⟩) ['m'] .ok), (0, .sendAdd .ok),
        (1, .delProducer (urlOf ⟨['S'], ['D'], .mqModeQueue⟩)), (0, .sendAgain .ok)] ∧
    ¬ Meets exec ReadsOnly (start fun _ => false)
      [(0, .sendCached (urlOf ⟨['S'], ['D'], .mqModeQueue⟩) ['m'] .ok), (0, .sendAdd .ok),
        (1, .delProducer (urlOf ⟨['S'], ['D'], .mqModeQueue⟩)), (0, .sendAgain .ok)] := by
  refine ⟨Holds.not_of_error (show _ = Except.error Fault.nullPointer from rfl), ?_⟩
  rintro ⟨-, h⟩
  have h := ((h _ rfl).2 _ rfl).2 _ rfl
  have hr : (∅ : StrMap (Option ℕ)).insert (urlOf ⟨['S'], ['D'], .mqModeQueue⟩) none = ∅ := h.1
  have hl := congrArg (fun t : StrMap (Option ℕ) => t.entries.length) hr
  exact absurd hl (by decide)

end World
end AppUtil.Mq
