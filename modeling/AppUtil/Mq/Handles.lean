import AppUtil.Mq.Effects

/-! # Who holds which object of the library

A connection holds a connection and a session of the library, an endpoint holds a destination and
a producer or consumer. `Attached` says that no session and no child of a session is lost, that
nothing is held twice, that what is held is alive, and that an endpoint only holds children of the
session that its connection has now. It speaks of the events `E` of the log, the next number `n` and
the cells `C` and `D` of the two heaps; there is one lemma for each elementary change of these. -/
namespace AppUtil.Mq
open AppUtil.Lib AppUtil.Lib.Lifetime
set_option autoImplicit false

/-- The destination or the CMS producer or consumer of the endpoint. -/
def MqEndpoint.Holds (ep : MqEndpoint) (x : ℕ) : Prop :=
  ep.pDestination = some x ∨ ep.pCp = some x

/-- The endpoint has nothing of the library. -/
def MqEndpoint.Bare (ep : MqEndpoint) : Prop :=
  ep.pDestination = none ∧ ep.pCp = none ∧ ep.pSession = none

theorem MqEndpoint.Bare.not_holds {ep : MqEndpoint} (h : ep.Bare) (x : ℕ) : ¬ ep.Holds x := by
  rintro (hd | hc)
  · rw [h.1] at hd
    cases hd
  · rw [h.2.1] at hc
    cases hc

theorem MqEndpoint.cleared_bare (ep : MqEndpoint) : ep.cleared.Bare := ⟨rfl, rfl, rfl⟩

structure Attached (E : List (Event CmsObj)) (n : ℕ) (C : ℕ → Option MqConnection)
    (D : ℕ → Option MqEndpoint) : Prop where
  disciplined : Disciplined E
  fresh : ∀ x p, Event.born x p ∈ E → x.id < n
  shape : ∀ y p, Event.born y (some p) ∈ E →
    (∃ x s, y = .child x ∧ p = .session s) ∨ ∃ s k, y = .session s ∧ p = .connection k
  conn : ∀ c co k, C c = some co → co.pConnection = some k → Alive E (.connection k)
  session : ∀ c co s, C c = some co → co.pSession = some s → Alive E (.session s) ∧
    ∃ k, co.pConnection = some k ∧ Event.born (.session s) (some (.connection k)) ∈ E
  held : ∀ e ep x, D e = some ep → ep.Holds x → Alive E (.child x) ∧
    ∃ c co s, C c = some co ∧ e ∈ co.endpoints ∧ co.pSession = some s ∧
      Event.born (.child x) (some (.session s)) ∈ E
  user : ∀ e ep s, D e = some ep → ep.pSession = some s →
    ∃ c co, C c = some co ∧ e ∈ co.endpoints ∧ co.pSession = some s
  oneConn : ∀ b c cb co k, C b = some cb → C c = some co → cb.pConnection = some k →
    co.pConnection = some k → b = c
  oneSession : ∀ b c cb co s, C b = some cb → C c = some co → cb.pSession = some s →
    co.pSession = some s → b = c
  oneHolder : ∀ a e ap ep x, D a = some ap → D e = some ep → ap.Holds x → ep.Holds x → a = e
  twoSlots : ∀ e ep x, D e = some ep → ep.pDestination = some x → ep.pCp ≠ some x
  sessionsHeld : ∀ s k, Event.born (.session s) (some (.connection k)) ∈ E →
    Event.died (.session s) ∈ E ∨
      ∃ c co, C c = some co ∧ co.pSession = some s ∧ co.pConnection = some k
  childrenHeld : ∀ x s, Event.born (.child x) (some (.session s)) ∈ E →
    Event.died (.child x) ∈ E ∨ ∃ e ep, D e = some ep ∧ ep.Holds x

namespace Attached
variable {E : List (Event CmsObj)} {n : ℕ} {C C' : ℕ → Option MqConnection}
  {D D' : ℕ → Option MqEndpoint}

theorem empty : Attached [] 0 (fun _ => none) (fun _ => none) := by
  constructor <;> simp [Disciplined]

/-! ## Changes of the two heaps alone -/

/-- Connections and endpoints without anything of the library may come, go and change, and lists
may lose dead endpoints. -/
structure Reshaped (C C' : ℕ → Option MqConnection) (D D' : ℕ → Option MqEndpoint) : Prop where
  back : ∀ c co', C' c = some co' → co'.pConnection ≠ none ∨ co'.pSession ≠ none →
    ∃ co, C c = some co ∧ co.pConnection = co'.pConnection ∧ co.pSession = co'.pSession
  forth : ∀ c co, C c = some co → co.pConnection ≠ none ∨ co.pSession ≠ none →
    ∃ co', C' c = some co' ∧ co'.pConnection = co.pConnection ∧ co'.pSession = co.pSession ∧
      ∀ e ∈ co.endpoints, D' e ≠ none → e ∈ co'.endpoints
  ends : ∀ e ep, D' e = some ep → ep.Bare ∨ D e = some ep
  kept : ∀ e ep x, D e = some ep → ep.Holds x → D' e = some ep

theorem reshape (h : Attached E n C D) (hr : Reshaped C C' D D') : Attached E n C' D' := by
  -- an endpoint that is not bare is as before, in the list of the same connection
  have hlisted : ∀ {e ep s c co}, D' e = some ep → C c = some co → e ∈ co.endpoints →
      co.pSession = some s → ∃ c co', C' c = some co' ∧ e ∈ co'.endpoints ∧ co'.pSession = some s := by
    intro e ep s c co he hc hmem hs
    obtain ⟨co', hc', -, hs', hsub⟩ := hr.forth c co hc (Or.inr (hs.trans_ne (Option.some_ne_none s)))
    exact ⟨c, co', hc', hsub e hmem (he.trans_ne (Option.some_ne_none ep)), hs'.trans hs⟩
  have hold : ∀ {e ep x}, D' e = some ep → ep.Holds x → D e = some ep :=
    fun {e ep x} he hx => (hr.ends e ep he).resolve_left fun hb => hb.not_holds x hx
  refine ⟨h.disciplined, h.fresh, h.shape, ?_, ?_, ?_, ?_, ?_, ?_, ?_, ?_, ?_, ?_⟩
  · intro c co' k hc hk
    obtain ⟨co, hc₀, hk₀, -⟩ := hr.back c co' hc (Or.inl (hk.trans_ne (Option.some_ne_none k)))
    exact h.conn c co k hc₀ (hk₀.trans hk)
  · intro c co' s hc hs
    obtain ⟨co, hc₀, hk₀, hs₀⟩ := hr.back c co' hc (Or.inr (hs.trans_ne (Option.some_ne_none s)))
    obtain ⟨halive, k, hk, hborn⟩ := h.session c co s hc₀ (hs₀.trans hs)
    exact ⟨halive, k, hk₀.symm.trans hk, hborn⟩
  · intro e ep x he hx
    obtain ⟨halive, c, co, s, hc, hmem, hs, hborn⟩ := h.held e ep x (hold he hx) hx
    obtain ⟨c', co', hc', hmem', hs'⟩ := hlisted he hc hmem hs
    exact ⟨halive, c', co', s, hc', hmem', hs', hborn⟩
  · intro e ep s he hs
    rcases hr.ends e ep he with hb | he₀
    · rw [hb.2.2] at hs
      cases hs
    · obtain ⟨c, co, hc, hmem, hco⟩ := h.user e ep s he₀ hs
      exact hlisted he hc hmem hco
  · intro b c cb' co' k hb hc hkb hkc
    obtain ⟨cb, hb₀, hkb₀, -⟩ := hr.back b cb' hb (Or.inl (hkb.trans_ne (Option.some_ne_none k)))
    obtain ⟨co, hc₀, hkc₀, -⟩ := hr.back c co' hc (Or.inl (hkc.trans_ne (Option.some_ne_none k)))
    exact h.oneConn b c cb co k hb₀ hc₀ (hkb₀.trans hkb) (hkc₀.trans hkc)
  · intro b c cb' co' s hb hc hsb hsc
    obtain ⟨cb, hb₀, -, hsb₀⟩ := hr.back b cb' hb (Or.inr (hsb.trans_ne (Option.some_ne_none s)))
    obtain ⟨co, hc₀, -, hsc₀⟩ := hr.back c co' hc (Or.inr (hsc.trans_ne (Option.some_ne_none s)))
    exact h.oneSession b c cb co s hb₀ hc₀ (hsb₀.trans hsb) (hsc₀.trans hsc)
  · intro a e ap ep x ha he hax hex
    exact h.oneHolder a e ap ep x (hold ha hax) (hold he hex) hax hex
  · intro e ep x he hd
    exact h.twoSlots e ep x (hold he (Or.inl hd)) hd
  · intro s k hborn
    refine (h.sessionsHeld s k hborn).imp_right ?_
    rintro ⟨c, co, hc, hs, hk⟩
    obtain ⟨co', hc', hk', hs', -⟩ := hr.forth c co hc (Or.inr (hs.trans_ne (Option.some_ne_none s)))
    exact ⟨c, co', hc', hs'.trans hs, hk'.trans hk⟩
  · intro x s hborn
    refine (h.childrenHeld x s hborn).imp_right ?_
    rintro ⟨e, ep, he, hx⟩
    exact ⟨e, ep, hr.kept e ep x he hx, hx⟩

/-- A list of one connection changes, and loses nothing but dead endpoints. -/
theorem reshaped_setList {c : ℕ} {co : MqConnection} (kind : EndKind) (l : List ℕ)
    (hc : C c = some co) (hl : ∀ e ∈ co.list kind, D' e ≠ none → e ∈ l)
    (hends : ∀ e ep, D' e = some ep → ep.Bare ∨ D e = some ep)
    (hkept : ∀ e ep x, D e = some ep → ep.Holds x → D' e = some ep) :
    Reshaped C (Function.update C c (some (co.setList kind l))) D D' := by
  refine ⟨fun b cb hb _ => ?_, fun b cb hb _ => ?_, hends, hkept⟩
  · obtain ⟨rfl, rfl⟩ | ⟨-, hb⟩ := Heap.update_eq_some.mp hb
    · exact ⟨co, hc, by simp, by simp⟩
    · exact ⟨cb, hb, rfl, rfl⟩
  · by_cases hbc : b = c
    · subst hbc
      obtain rfl := Option.some.inj (hc.symm.trans hb)
      refine ⟨_, Function.update_self .., by simp, by simp, fun e he hlive => ?_⟩
      obtain ⟨k, hk⟩ := MqConnection.mem_endpoints.mp he
      refine MqConnection.mem_endpoints.mpr ⟨k, ?_⟩
      rw [MqConnection.list_setList]
      by_cases hkk : k = kind
      · rw [if_pos hkk]
        exact hl e (hkk ▸ hk) hlive
      · rwa [if_neg hkk]
    · exact ⟨cb, by rw [Function.update_of_ne hbc, hb], rfl, rfl, fun e he _ => he⟩

/-! ## A connection without a session

No endpoint holds a child of its session, so that the endpoints keep what they have whatever
becomes of the connection. -/

theorem ne_of_session {b c t : ℕ} {cb co : MqConnection} (hc : C c = some co)
    (hs : co.pSession = none) (hb : C b = some cb) (ht : cb.pSession = some t) : b ≠ c := by
  rintro rfl
  obtain rfl := Option.some.inj (hb.symm.trans hc)
  rw [hs] at ht
  cases ht

section
variable {c : ℕ} {co : MqConnection} {ev : Event CmsObj} (v : Option MqConnection)

theorem held_elsewhere (h : Attached E n C D) (hc : C c = some co) (hs : co.pSession = none)
    (halive : ∀ {x}, Alive E (.child x) → Alive (ev :: E) (.child x)) :
    ∀ e ep x, D e = some ep → ep.Holds x → Alive (ev :: E) (.child x) ∧
      ∃ b cb s, Function.update C c v b = some cb ∧ e ∈ cb.endpoints ∧ cb.pSession = some s ∧
        Event.born (.child x) (some (.session s)) ∈ ev :: E := by
  intro e ep x he hx
  obtain ⟨hal, b, cb, t, hb, hmem, ht, hbn⟩ := h.held e ep x he hx
  exact ⟨halive hal, b, cb, t, by rw [Function.update_of_ne (ne_of_session hc hs hb ht), hb], hmem,
    ht, List.mem_cons_of_mem _ hbn⟩

theorem user_elsewhere (h : Attached E n C D) (hc : C c = some co) (hs : co.pSession = none) :
    ∀ e ep s, D e = some ep → ep.pSession = some s →
      ∃ b cb, Function.update C c v b = some cb ∧ e ∈ cb.endpoints ∧ cb.pSession = some s := by
  intro e ep t he ht
  obtain ⟨b, cb, hb, hmem, hcb⟩ := h.user e ep t he ht
  exact ⟨b, cb, by rw [Function.update_of_ne (ne_of_session hc hs hb hcb), hb], hmem, hcb⟩

theorem sessionsHeld_elsewhere (h : Attached E n C D) (hc : C c = some co)
    (hs : co.pSession = none) {s k : ℕ} (hborn : Event.born (.session s) (some (.connection k)) ∈ E) :
    Event.died (.session s) ∈ ev :: E ∨
      ∃ b cb, Function.update C c v b = some cb ∧ cb.pSession = some s ∧
        cb.pConnection = some k := by
  refine (h.sessionsHeld s k hborn).imp (List.mem_cons_of_mem _) ?_
  rintro ⟨b, cb, hb, htb, hjb⟩
  exact ⟨b, cb, by rw [Function.update_of_ne (ne_of_session hc hs hb htb), hb], htb, hjb⟩

end

/-! ## Uses and deaths -/

theorem used (h : Attached E n C D) {o : CmsObj} (ho : Alive E o) :
    Attached (.used o :: E) n C D := by
  refine ⟨⟨ho, h.disciplined⟩, fun x p hx => h.fresh x p (born_of_cons_used hx),
    fun y p hy => h.shape y p (born_of_cons_used hy),
    fun c co k hc hk => (h.conn c co k hc hk).cons_used, ?_, ?_, h.user, h.oneConn, h.oneSession, h.oneHolder,
    h.twoSlots, ?_, ?_⟩
  · intro c co s hc hs
    obtain ⟨ha, k, hk, hb⟩ := h.session c co s hc hs
    exact ⟨ha.cons_used, k, hk, List.mem_cons_of_mem _ hb⟩
  · intro e ep x he hx
    obtain ⟨ha, c, co, s, hc, hmem, hs, hb⟩ := h.held e ep x he hx
    exact ⟨ha.cons_used, c, co, s, hc, hmem, hs, List.mem_cons_of_mem _ hb⟩
  · intro s k hs
    exact (h.sessionsHeld s k (born_of_cons_used hs)).imp_left (List.mem_cons_of_mem _)
  · intro x s hx
    exact (h.childrenHeld x s (born_of_cons_used hx)).imp_left (List.mem_cons_of_mem _)

/-- Nothing is born from a child of a session. -/
theorem no_grandchild (h : Attached E n C D) (x : ℕ) (y : CmsObj) :
    Event.born y (some (.child x)) ∉ E := by
  intro hb
  rcases h.shape y _ hb with ⟨_, _, -, hp⟩ | ⟨_, _, -, hp⟩ <;> cases hp

/-- An endpoint lets go of one of its objects, which dies. -/
theorem dropChild (h : Attached E n C D) {e x : ℕ} {ep ep' : MqEndpoint} (he : D e = some ep)
    (hx : ep.Holds x) (hep : ∀ y, ep'.Holds y ↔ ep.Holds y ∧ y ≠ x)
    (hslots : ∀ y, ep'.pDestination = some y → ep'.pCp ≠ some y)
    (hsess : ep'.pSession = ep.pSession) :
    Attached (.died (.child x) :: E) n C (Function.update D e (some ep')) := by
  -- what an endpoint holds now, it held before, and it is not `x`
  have hold : ∀ {a ap y}, Function.update D e (some ep') a = some ap → ap.Holds y →
      y ≠ x ∧ ∃ ap₀, D a = some ap₀ ∧ ap₀.Holds y := by
    intro a ap y ha hy
    obtain ⟨rfl, rfl⟩ | ⟨hae, ha⟩ := Heap.update_eq_some.mp ha
    · exact ⟨((hep y).mp hy).2, ep, he, ((hep y).mp hy).1⟩
    · refine ⟨?_, ap, ha, hy⟩
      rintro rfl
      exact hae (h.oneHolder a e ap ep y ha he hy hx)
  refine ⟨⟨⟨(h.held e ep x he hx).1, fun y hy => absurd hy (h.no_grandchild x y)⟩, h.disciplined⟩,
    fun y p hy => h.fresh y p (born_of_cons_died hy), fun y p hy => h.shape y p (born_of_cons_died hy),
    fun c co k hc hk => (h.conn c co k hc hk).cons_died CmsObj.noConfusion, ?_, ?_, ?_, h.oneConn,
    h.oneSession, ?_, ?_, ?_, ?_⟩
  · intro c co s hc hs
    obtain ⟨ha, k, hk, hb⟩ := h.session c co s hc hs
    exact ⟨ha.cons_died CmsObj.noConfusion, k, hk, List.mem_cons_of_mem _ hb⟩
  · intro a ap y ha hy
    obtain ⟨hne, ap₀, ha₀, hy₀⟩ := hold ha hy
    obtain ⟨hal, c, co, s, hc, hmem, hs, hb⟩ := h.held a ap₀ y ha₀ hy₀
    exact ⟨hal.cons_died fun heq => hne (CmsObj.child.inj heq), c, co, s, hc, hmem, hs,
      List.mem_cons_of_mem _ hb⟩
  · intro a ap s ha hs
    obtain ⟨rfl, rfl⟩ | ⟨-, ha⟩ := Heap.update_eq_some.mp ha
    · exact h.user a ep s he (hsess.symm.trans hs)
    · exact h.user a ap s ha hs
  · intro a b ap bp y ha hb hya hyb
    obtain ⟨-, ap₀, ha₀, hy₀⟩ := hold ha hya
    obtain ⟨-, bp₀, hb₀, hyb₀⟩ := hold hb hyb
    exact h.oneHolder a b ap₀ bp₀ y ha₀ hb₀ hy₀ hyb₀
  · intro a ap y ha hd
    obtain ⟨rfl, rfl⟩ | ⟨-, ha⟩ := Heap.update_eq_some.mp ha
    · exact hslots y hd
    · exact h.twoSlots a ap y ha hd
  · intro s k hs
    exact (h.sessionsHeld s k (born_of_cons_died hs)).imp_left (List.mem_cons_of_mem _)
  · intro y s hy
    by_cases hyx : y = x
    · exact Or.inl (hyx ▸ List.mem_cons_self ..)
    · exact (h.childrenHeld y s (born_of_cons_died hy)).imp (List.mem_cons_of_mem _)
        (Heap.exists_update he fun hya => (hep y).mpr ⟨hya, hyx⟩)

section
variable {c s : ℕ} {co : MqConnection}

/-- An endpoint that is not bare belongs to another connection than one whose endpoints are bare. -/
theorem ne_of_bare (h : Attached E n C D) (hc : C c = some co) (hs : co.pSession = some s)
    (hbare : ∀ e ∈ co.endpoints, ∀ ep, D e = some ep → ep.Bare) {e b t : ℕ} {ep : MqEndpoint}
    {cb : MqConnection} (he : D e = some ep) (hne : ¬ ep.Bare) (hb : C b = some cb)
    (hmem : e ∈ cb.endpoints) (ht : cb.pSession = some t) : b ≠ c ∧ t ≠ s := by
  have hbc : b ≠ c := by
    rintro rfl
    exact hne (hbare e (Option.some.inj (hb.symm.trans hc) ▸ hmem) ep he)
  exact ⟨hbc, fun hts => hbc (h.oneSession b c cb co t hb hc ht (hts ▸ hs))⟩

theorem children_died (h : Attached E n C D) (hc : C c = some co) (hs : co.pSession = some s)
    (hbare : ∀ e ∈ co.endpoints, ∀ ep, D e = some ep → ep.Bare) {y : CmsObj}
    (hy : Event.born y (some (.session s)) ∈ E) : Event.died y ∈ E := by
  rcases h.shape y _ hy with ⟨x, s', rfl, -⟩ | ⟨_, _, -, hp⟩
  · refine (h.childrenHeld x s hy).resolve_right ?_
    rintro ⟨e, ep, he, hx⟩
    obtain ⟨-, b, cb, t, hb, hmem, ht, hbt⟩ := h.held e ep x he hx
    have hts := h.disciplined.born_unique hbt hy
    exact (h.ne_of_bare hc hs hbare he (fun hbr => hbr.not_holds x hx) hb hmem ht).2
      (CmsObj.session.inj (Option.some.inj hts))
  · cases hp

theorem sessions_died (h : Attached E n C D) {k : ℕ} (hc : C c = some co)
    (hk : co.pConnection = some k) (hs : co.pSession = none) {y : CmsObj}
    (hy : Event.born y (some (.connection k)) ∈ E) : Event.died y ∈ E := by
  rcases h.shape y _ hy with ⟨_, _, -, hp⟩ | ⟨s, k', rfl, -⟩
  · cases hp
  · refine (h.sessionsHeld s k hy).resolve_right ?_
    rintro ⟨b, cb, hb, hsb, hkb⟩
    exact ne_of_session hc hs hb hsb (h.oneConn b c cb co k hb hc hkb hk)

end

/-- The session of a connection whose endpoints are bare dies. -/
theorem dropSession (h : Attached E n C D) {c s : ℕ} {co : MqConnection} (hc : C c = some co)
    (hs : co.pSession = some s) (hbare : ∀ e ∈ co.endpoints, ∀ ep, D e = some ep → ep.Bare) :
    Attached (.died (.session s) :: E) n
      (Function.update C c (some { co with pSession := none })) D := by
  have hconn : ∀ {b cb}, Function.update C c (some { co with pSession := none }) b = some cb →
      ∃ cb₀, C b = some cb₀ ∧ cb₀.pConnection = cb.pConnection := by
    intro b cb hb
    obtain ⟨rfl, rfl⟩ | ⟨-, hb⟩ := Heap.update_eq_some.mp hb
    · exact ⟨co, hc, rfl⟩
    · exact ⟨cb, hb, rfl⟩
  have hsess : ∀ {b cb t}, Function.update C c (some { co with pSession := none }) b = some cb →
      cb.pSession = some t → b ≠ c ∧ C b = some cb := by
    intro b cb t hb ht
    obtain ⟨rfl, rfl⟩ | hb := Heap.update_eq_some.mp hb
    · cases ht
    · exact hb
  refine ⟨⟨⟨(h.session c co s hc hs).1, fun _ hy => h.children_died hc hs hbare hy⟩, h.disciplined⟩,
    fun y p hy => h.fresh y p (born_of_cons_died hy), fun y p hy => h.shape y p (born_of_cons_died hy),
    ?_, ?_, ?_, ?_, ?_, ?_, h.oneHolder, h.twoSlots, ?_, ?_⟩
  · intro b cb k hb hk
    obtain ⟨cb₀, hb₀, hk₀⟩ := hconn hb
    exact (h.conn b cb₀ k hb₀ (hk₀.trans hk)).cons_died CmsObj.noConfusion
  · intro b cb t hb ht
    obtain ⟨hbc, hb₀⟩ := hsess hb ht
    obtain ⟨hal, k, hk, hbn⟩ := h.session b cb t hb₀ ht
    refine ⟨hal.cons_died fun heq => ?_, k, hk, List.mem_cons_of_mem _ hbn⟩
    exact hbc (h.oneSession b c cb co t hb₀ hc ht (CmsObj.session.inj heq ▸ hs))
  · intro e ep x he hx
    obtain ⟨hal, b, cb, t, hb, hmem, ht, hbn⟩ := h.held e ep x he hx
    have hbc := (h.ne_of_bare hc hs hbare he (fun hbr => hbr.not_holds x hx) hb hmem ht).1
    exact ⟨hal.cons_died CmsObj.noConfusion, b, cb, t, by rw [Function.update_of_ne hbc, hb], hmem, ht,
      List.mem_cons_of_mem _ hbn⟩
  · intro e ep t he ht
    obtain ⟨b, cb, hb, hmem, hcb⟩ := h.user e ep t he ht
    have hbare' : ¬ ep.Bare := fun hbr => by
      rw [hbr.2.2] at ht
      cases ht
    have hbc := (h.ne_of_bare hc hs hbare he hbare' hb hmem hcb).1
    exact ⟨b, cb, by rw [Function.update_of_ne hbc, hb], hmem, hcb⟩
  · intro a b ca cb k ha hb hka hkb
    obtain ⟨ca₀, ha₀, hka₀⟩ := hconn ha
    obtain ⟨cb₀, hb₀, hkb₀⟩ := hconn hb
    exact h.oneConn a b ca₀ cb₀ k ha₀ hb₀ (hka₀.trans hka) (hkb₀.trans hkb)
  · intro a b ca cb t ha hb hta htb
    exact h.oneSession a b ca cb t (hsess ha hta).2 (hsess hb htb).2 hta htb
  · intro t k ht
    by_cases hts : t = s
    · exact Or.inl (hts ▸ List.mem_cons_self ..)
    · refine (h.sessionsHeld t k (born_of_cons_died ht)).imp (List.mem_cons_of_mem _) ?_
      rintro ⟨b, cb, hb, htb, hkb⟩
      -- no other session belongs to `c`
      have hbc : b ≠ c := by
        rintro rfl
        obtain rfl := Option.some.inj (hb.symm.trans hc)
        exact hts (Option.some.inj (htb.symm.trans hs))
      exact ⟨b, cb, by rw [Function.update_of_ne hbc, hb], htb, hkb⟩
  · intro x t hx
    exact (h.childrenHeld x t (born_of_cons_died hx)).imp_left (List.mem_cons_of_mem _)

/-- A connection of the library dies once the session is gone. -/
theorem dropConnection (h : Attached E n C D) {c k : ℕ} {co : MqConnection} (hc : C c = some co)
    (hk : co.pConnection = some k) (hs : co.pSession = none) :
    Attached (.died (.connection k) :: E) n
      (Function.update C c (some { co with pConnection := none })) D := by
  have hconn : ∀ {b cb j}, Function.update C c (some { co with pConnection := none }) b = some cb →
      cb.pConnection = some j → b ≠ c ∧ C b = some cb := by
    intro b cb j hb hj
    obtain ⟨rfl, rfl⟩ | hb := Heap.update_eq_some.mp hb
    · cases hj
    · exact hb
  have hsess : ∀ {b cb t}, Function.update C c (some { co with pConnection := none }) b = some cb →
      cb.pSession = some t → C b = some cb := by
    intro b cb t hb ht
    obtain ⟨rfl, rfl⟩ | ⟨-, hb⟩ := Heap.update_eq_some.mp hb
    · rw [hs] at ht
      cases ht
    · exact hb
  refine ⟨⟨⟨h.conn c co k hc hk, fun _ hy => h.sessions_died hc hk hs hy⟩, h.disciplined⟩,
    fun y p hy => h.fresh y p (born_of_cons_died hy), fun y p hy => h.shape y p (born_of_cons_died hy),
    ?_, ?_, h.held_elsewhere _ hc hs fun hx => hx.cons_died CmsObj.noConfusion,
    h.user_elsewhere _ hc hs, ?_, ?_, h.oneHolder, h.twoSlots, ?_, ?_⟩
  · intro b cb j hb hj
    obtain ⟨hbc, hb₀⟩ := hconn hb hj
    refine (h.conn b cb j hb₀ hj).cons_died fun heq => ?_
    exact hbc (h.oneConn b c cb co j hb₀ hc hj (CmsObj.connection.inj heq ▸ hk))
  · intro b cb t hb ht
    obtain ⟨hal, j, hj, hbn⟩ := h.session b cb t (hsess hb ht) ht
    exact ⟨hal.cons_died CmsObj.noConfusion, j, hj, List.mem_cons_of_mem _ hbn⟩
  · intro a b ca cb j ha hb hja hjb
    exact h.oneConn a b ca cb j (hconn ha hja).2 (hconn hb hjb).2 hja hjb
  · intro a b ca cb t ha hb hta htb
    exact h.oneSession a b ca cb t (hsess ha hta) (hsess hb htb) hta htb
  · intro t j ht
    exact h.sessionsHeld_elsewhere _ hc hs (born_of_cons_died ht)
  · intro x t hx
    exact (h.childrenHeld x t (born_of_cons_died hx)).imp_left (List.mem_cons_of_mem _)

/-! ## Births -/

theorem not_born (h : Attached E n C D) {o : CmsObj} (ho : o.id = n) : ¬ Born E o := by
  rintro ⟨p, hp⟩
  exact absurd (h.fresh o p hp) (by omega)

theorem not_died (h : Attached E n C D) {o : CmsObj} (ho : o.id = n) : Event.died o ∉ E :=
  fun hd => h.not_born ho (h.disciplined.born_of_died hd)

/-- The birth of the next object. -/
theorem born_fresh (h : Attached E n C D) {o : CmsObj} {p : Option CmsObj} (ho : o.id = n) :
    ∀ y q, Event.born y q ∈ Event.born o p :: E → y.id < n + 1 := by
  intro y q hy
  rcases List.mem_cons.mp hy with heq | hy
  · rw [(Event.born.inj heq).1, ho]
    exact Nat.lt_succ_self n
  · exact Nat.lt_succ_of_lt (h.fresh y q hy)

/-- A connection without a session gets a connection of the library. -/
theorem openConnection (h : Attached E n C D) {c : ℕ} {co : MqConnection} (hc : C c = some co)
    (hs : co.pSession = none) :
    Attached (.born (.connection n) none :: E) (n + 1)
      (Function.update C c (some { co with pConnection := some n })) D := by
  have hborn : ∀ {y p}, Event.born y (some p) ∈ Event.born (.connection n) none :: E →
      Event.born y (some p) ∈ E := fun hy => (List.mem_cons.mp hy).resolve_left nofun
  have hsess : ∀ {b cb t}, Function.update C c (some { co with pConnection := some n }) b = some cb →
      cb.pSession = some t → C b = some cb := by
    intro b cb t hb ht
    obtain ⟨rfl, rfl⟩ | ⟨-, hb⟩ := Heap.update_eq_some.mp hb
    · rw [hs] at ht
      cases ht
    · exact hb
  -- a connection of the library is held as before, or it is the new one
  have hconn : ∀ {b cb j}, Function.update C c (some { co with pConnection := some n }) b = some cb →
      cb.pConnection = some j → b = c ∧ j = n ∨ j ≠ n ∧ C b = some cb := by
    intro b cb j hb hj
    obtain ⟨rfl, rfl⟩ | ⟨-, hb₀⟩ := Heap.update_eq_some.mp hb
    · exact Or.inl ⟨rfl, (Option.some.inj hj).symm⟩
    · refine Or.inr ⟨?_, hb₀⟩
      rintro rfl
      exact h.not_born rfl (h.conn b cb j hb₀ hj).1
  refine ⟨⟨⟨h.not_born rfl, nofun⟩, h.disciplined⟩, h.born_fresh rfl,
    fun y p hy => h.shape y p (hborn hy), ?_, ?_, h.held_elsewhere _ hc hs Alive.cons_born,
    h.user_elsewhere _ hc hs, ?_, ?_, h.oneHolder, h.twoSlots, ?_, ?_⟩
  · intro b cb j hb hj
    rcases hconn hb hj with ⟨-, rfl⟩ | ⟨-, hb₀⟩
    · exact alive_of_born (h.not_died rfl)
    · exact (h.conn b cb j hb₀ hj).cons_born
  · intro b cb t hb ht
    obtain ⟨hal, j, hj, hbn⟩ := h.session b cb t (hsess hb ht) ht
    exact ⟨hal.cons_born, j, hj, List.mem_cons_of_mem _ hbn⟩
  · intro a b ca cb j ha hb hja hjb
    rcases hconn ha hja with ⟨rfl, rfl⟩ | ⟨hjn, ha₀⟩ <;> rcases hconn hb hjb with ⟨rfl, hjn'⟩ | ⟨hjn', hb₀⟩
    · rfl
    · exact absurd rfl hjn'
    · exact absurd hjn' hjn
    · exact h.oneConn a b ca cb j ha₀ hb₀ hja hjb
  · intro a b ca cb t ha hb hta htb
    exact h.oneSession a b ca cb t (hsess ha hta) (hsess hb htb) hta htb
  · intro t j ht
    exact h.sessionsHeld_elsewhere _ hc hs (hborn ht)
  · intro x t hx
    exact (h.childrenHeld x t (hborn hx)).imp_left (List.mem_cons_of_mem _)

/-- A connection that has a connection of the library and no session gets a session. -/
theorem openSession (h : Attached E n C D) {c k : ℕ} {co : MqConnection} (hc : C c = some co)
    (hk : co.pConnection = some k) (hs : co.pSession = none) :
    Attached (.born (.session n) (some (.connection k)) :: E) (n + 1)
      (Function.update C c (some { co with pSession := some n })) D := by
  have hconn : ∀ {b cb}, Function.update C c (some { co with pSession := some n }) b = some cb →
      ∃ cb₀, C b = some cb₀ ∧ cb₀.pConnection = cb.pConnection := by
    intro b cb hb
    obtain ⟨rfl, rfl⟩ | ⟨-, hb⟩ := Heap.update_eq_some.mp hb
    · exact ⟨co, hc, rfl⟩
    · exact ⟨cb, hb, rfl⟩
  have hsess : ∀ {b cb t}, Function.update C c (some { co with pSession := some n }) b = some cb →
      cb.pSession = some t → b = c ∧ t = n ∧ cb = { co with pSession := some n } ∨
        t ≠ n ∧ C b = some cb := by
    intro b cb t hb ht
    obtain ⟨rfl, rfl⟩ | ⟨-, hb₀⟩ := Heap.update_eq_some.mp hb
    · exact Or.inl ⟨rfl, (Option.some.inj ht).symm, rfl⟩
    · refine Or.inr ⟨?_, hb₀⟩
      rintro rfl
      exact h.not_born rfl (h.session b cb t hb₀ ht).1.1
  refine ⟨⟨⟨h.not_born rfl, fun q hq => ?_⟩, h.disciplined⟩, h.born_fresh rfl, ?_, ?_, ?_,
    h.held_elsewhere _ hc hs Alive.cons_born, h.user_elsewhere _ hc hs, ?_, ?_, h.oneHolder,
    h.twoSlots, ?_, ?_⟩
  · obtain rfl := Option.some.inj hq
    exact h.conn c co k hc hk
  · intro y p hy
    rcases List.mem_cons.mp hy with heq | hy
    · cases heq
      exact Or.inr ⟨n, k, rfl, rfl⟩
    · exact h.shape y p hy
  · intro b cb j hb hj
    obtain ⟨cb₀, hb₀, hj₀⟩ := hconn hb
    exact (h.conn b cb₀ j hb₀ (hj₀.trans hj)).cons_born
  · intro b cb t hb ht
    rcases hsess hb ht with ⟨-, rfl, rfl⟩ | ⟨-, hb₀⟩
    · exact ⟨alive_of_born (h.not_died rfl), k, hk, List.mem_cons_self ..⟩
    · obtain ⟨hal, j, hj, hbn⟩ := h.session b cb t hb₀ ht
      exact ⟨hal.cons_born, j, hj, List.mem_cons_of_mem _ hbn⟩
  · intro a b ca cb j ha hb hja hjb
    obtain ⟨ca₀, ha₀, hja₀⟩ := hconn ha
    obtain ⟨cb₀, hb₀, hjb₀⟩ := hconn hb
    exact h.oneConn a b ca₀ cb₀ j ha₀ hb₀ (hja₀.trans hja) (hjb₀.trans hjb)
  · intro a b ca cb t ha hb hta htb
    rcases hsess ha hta with ⟨rfl, rfl, -⟩ | ⟨htn, ha₀⟩ <;>
      rcases hsess hb htb with ⟨rfl, htn', -⟩ | ⟨htn', hb₀⟩
    · rfl
    · exact absurd rfl htn'
    · exact absurd htn' htn
    · exact h.oneSession a b ca cb t ha₀ hb₀ hta htb
  · intro t j ht
    rcases List.mem_cons.mp ht with heq | ht
    · cases heq
      exact Or.inr ⟨c, _, Function.update_self .., rfl, hk⟩
    · exact h.sessionsHeld_elsewhere _ hc hs ht
  · intro x t hx
    have hx := (List.mem_cons.mp hx).resolve_left nofun
    exact (h.childrenHeld x t hx).imp_left (List.mem_cons_of_mem _)

/-- An endpoint takes over the session of its connection. -/
theorem attach (h : Attached E n C D) {c e s : ℕ} {co : MqConnection} {ep : MqEndpoint}
    (hc : C c = some co) (hmem : e ∈ co.endpoints) (hs : co.pSession = some s)
    (he : D e = some ep) :
    Attached E n C (Function.update D e (some { ep with pSession := some s })) := by
  have hold : ∀ {a ap}, Function.update D e (some { ep with pSession := some s }) a = some ap →
      ∃ ap₀, D a = some ap₀ ∧ (∀ y, ap.Holds y ↔ ap₀.Holds y) ∧
        ap.pDestination = ap₀.pDestination ∧ ap.pCp = ap₀.pCp := by
    intro a ap ha
    obtain ⟨rfl, rfl⟩ | ⟨-, ha⟩ := Heap.update_eq_some.mp ha
    · exact ⟨ep, he, fun _ => Iff.rfl, rfl, rfl⟩
    · exact ⟨ap, ha, fun _ => Iff.rfl, rfl, rfl⟩
  refine ⟨h.disciplined, h.fresh, h.shape, h.conn, h.session, ?_, ?_, h.oneConn, h.oneSession, ?_, ?_,
    h.sessionsHeld, ?_⟩
  · intro a ap x ha hx
    obtain ⟨ap₀, ha₀, hh, -⟩ := hold ha
    exact h.held a ap₀ x ha₀ ((hh x).mp hx)
  · intro a ap t ha ht
    obtain ⟨rfl, rfl⟩ | ⟨-, ha⟩ := Heap.update_eq_some.mp ha
    · exact ⟨c, co, hc, hmem, hs.trans ht⟩
    · exact h.user a ap t ha ht
  · intro a b ap bp x ha hb hxa hxb
    obtain ⟨ap₀, ha₀, hh, -⟩ := hold ha
    obtain ⟨bp₀, hb₀, hh', -⟩ := hold hb
    exact h.oneHolder a b ap₀ bp₀ x ha₀ hb₀ ((hh x).mp hxa) ((hh' x).mp hxb)
  · intro a ap x ha hd
    obtain ⟨ap₀, ha₀, -, hd₀, hp₀⟩ := hold ha
    rw [hp₀]
    exact h.twoSlots a ap₀ x ha₀ (hd₀ ▸ hd)
  · intro x t hx
    exact (h.childrenHeld x t hx).imp_right (Heap.exists_update he id)

/-- An endpoint gets a new child of the session of its connection. -/
theorem bear (h : Attached E n C D) {c e s : ℕ} {co : MqConnection} {ep : MqEndpoint}
    (ep' : MqEndpoint) (hc : C c = some co) (hmem : e ∈ co.endpoints) (hs : co.pSession = some s)
    (he : D e = some ep)
    (hep : ∀ y, ep'.Holds y ↔ ep.Holds y ∨ y = n)
    (hslots : ∀ y, ep'.pDestination = some y → ep'.pCp ≠ some y)
    (hsess : ep'.pSession = ep.pSession) :
    Attached (.born (.child n) (some (.session s)) :: E) (n + 1) C
      (Function.update D e (some ep')) := by
  have hfresh : ∀ {a ap}, D a = some ap → ¬ ap.Holds n :=
    fun {a ap} ha hx => h.not_born rfl (h.held a ap n ha hx).1.1
  have hold : ∀ {a ap y}, Function.update D e (some ep') a = some ap → ap.Holds y →
      a = e ∧ y = n ∨ y ≠ n ∧ ∃ ap₀, D a = some ap₀ ∧ ap₀.Holds y := by
    intro a ap y ha hy
    by_cases hyn : y = n
    · by_cases hae : a = e
      · exact Or.inl ⟨hae, hyn⟩
      · rw [Function.update_of_ne hae] at ha
        exact absurd (hyn ▸ hy) (hfresh ha)
    · refine Or.inr ⟨hyn, ?_⟩
      obtain ⟨rfl, rfl⟩ | ⟨-, ha⟩ := Heap.update_eq_some.mp ha
      · exact ⟨ep, he, ((hep y).mp hy).resolve_right hyn⟩
      · exact ⟨ap, ha, hy⟩
  refine ⟨⟨⟨h.not_born rfl, fun q hq => ?_⟩, h.disciplined⟩, h.born_fresh rfl, ?_,
    fun b cb j hb hj => (h.conn b cb j hb hj).cons_born, ?_, ?_, ?_, h.oneConn, h.oneSession, ?_, ?_, ?_,
    ?_⟩
  · obtain rfl := Option.some.inj hq
    exact (h.session c co s hc hs).1
  · intro y p hy
    rcases List.mem_cons.mp hy with heq | hy
    · cases heq
      exact Or.inl ⟨n, s, rfl, rfl⟩
    · exact h.shape y p hy
  · intro b cb t hb ht
    obtain ⟨hal, j, hj, hbn⟩ := h.session b cb t hb ht
    exact ⟨hal.cons_born, j, hj, List.mem_cons_of_mem _ hbn⟩
  · intro a ap y ha hy
    rcases hold ha hy with ⟨rfl, rfl⟩ | ⟨-, ap₀, ha₀, hy₀⟩
    · exact ⟨alive_of_born (h.not_died rfl), c, co, s, hc, hmem, hs, List.mem_cons_self ..⟩
    · obtain ⟨hal, b, cb, t, hb, hm, ht, hbn⟩ := h.held a ap₀ y ha₀ hy₀
      exact ⟨hal.cons_born, b, cb, t, hb, hm, ht, List.mem_cons_of_mem _ hbn⟩
  · intro a ap t ha ht
    obtain ⟨rfl, rfl⟩ | ⟨-, ha⟩ := Heap.update_eq_some.mp ha
    · exact h.user a ep t he (hsess.symm.trans ht)
    · exact h.user a ap t ha ht
  · intro a b ap bp y ha hb hya hyb
    rcases hold ha hya with ⟨rfl, rfl⟩ | ⟨hyn, ap₀, ha₀, hya₀⟩ <;>
      rcases hold hb hyb with ⟨rfl, hyn'⟩ | ⟨hyn', bp₀, hb₀, hyb₀⟩
    · rfl
    · exact absurd rfl hyn'
    · exact absurd hyn' hyn
    · exact h.oneHolder a b ap₀ bp₀ y ha₀ hb₀ hya₀ hyb₀
  · intro a ap y ha hd
    obtain ⟨rfl, rfl⟩ | ⟨-, ha⟩ := Heap.update_eq_some.mp ha
    · exact hslots y hd
    · exact h.twoSlots a ap y ha hd
  · intro t j ht
    have ht := (List.mem_cons.mp ht).resolve_left nofun
    exact (h.sessionsHeld t j ht).imp_left (List.mem_cons_of_mem _)
  · intro y t hy
    rcases List.mem_cons.mp hy with heq | hy
    · cases heq
      exact Or.inr ⟨e, ep', Function.update_self .., (hep n).mpr (Or.inr rfl)⟩
    · exact (h.childrenHeld y t hy).imp (List.mem_cons_of_mem _)
        (Heap.exists_update he fun hya => (hep y).mpr (Or.inl hya))

end Attached
end AppUtil.Mq
