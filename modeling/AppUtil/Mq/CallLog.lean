import AppUtil.Mq.Release

/-! # What an operation asks of the library

Every function adds calls to the log. A `close()` among them is of the producer or consumer of an
endpoint that the function deletes, and such an endpoint is never deleted without it. -/
namespace AppUtil.Mq
open AppUtil.Lib AppUtil.Lib.Lifetime
open AppUtil.Lib.Formatting (cstr)
set_option autoImplicit false

/-- `m'` is `m` after some calls. What they close is in `R`, and is deleted unless `close()` throws. -/
structure Cms.Extends (R : ℕ → Prop) (m m' : Cms) : Prop where
  throws : m'.closeThrows = m.closeThrows
  log : ∃ calls, m'.log = calls ++ m.log ∧
    ∀ x, .close x ∈ calls → R x ∧ (m.closeThrows x = false → .deleteEndpoint x ∈ calls)

namespace Cms.Extends
variable {R S : ℕ → Prop} {m m' m'' : Cms}

theorem refl (R : ℕ → Prop) (m : Cms) : Cms.Extends R m m :=
  ⟨rfl, [], rfl, fun _ hx => nomatch hx⟩

theorem mono (h : Cms.Extends R m m') (hRS : ∀ x, R x → S x) : Cms.Extends S m m' := by
  obtain ⟨calls, hlog, hcalls⟩ := h.log
  exact ⟨h.throws, calls, hlog, fun x hx => ⟨hRS x (hcalls x hx).1, (hcalls x hx).2⟩⟩

theorem trans (h : Cms.Extends R m m') (h' : Cms.Extends R m' m'') : Cms.Extends R m m'' := by
  obtain ⟨calls, hlog, hcalls⟩ := h.log
  obtain ⟨calls', hlog', hcalls'⟩ := h'.log
  refine ⟨h'.throws.trans h.throws, calls' ++ calls, ?_, fun x hx => ?_⟩
  · rw [hlog', hlog, List.append_assoc]
  · rcases List.mem_append.mp hx with hx | hx
    · obtain ⟨hR, hdel⟩ := hcalls' x hx
      rw [h.throws] at hdel
      exact ⟨hR, fun ht => List.mem_append_left calls (hdel ht)⟩
    · obtain ⟨hR, hdel⟩ := hcalls x hx
      exact ⟨hR, fun ht => List.mem_append_right calls' (hdel ht)⟩

/-- Any other call. -/
theorem call {k : CmsCall} (R : ℕ → Prop) (m : Cms) (hk : ∀ x, k ≠ .close x) :
    Cms.Extends R m (m.call k) :=
  ⟨rfl, [k], rfl, fun x hx => absurd (List.mem_singleton.mp hx).symm (hk x)⟩

theorem create {k : ℕ → CmsCall} (R : ℕ → Prop) (m : Cms) (hk : ∀ x, k m.next ≠ .close x) :
    Cms.Extends R m (m.create k) :=
  ⟨rfl, [k m.next], rfl, fun x hx => absurd (List.mem_singleton.mp hx).symm (hk x)⟩

theorem subset (h : Cms.Extends R m m') : m.log ⊆ m'.log := by
  obtain ⟨calls, hlog, -⟩ := h.log
  rw [hlog]
  exact List.subset_append_right calls m.log

theorem closes (h : Cms.Extends R m m') {x : ℕ} (hx : .close x ∈ m'.log) :
    .close x ∈ m.log ∨ R x := by
  obtain ⟨calls, hlog, hcalls⟩ := h.log
  rw [hlog] at hx
  rcases List.mem_append.mp hx with hx | hx
  · exact Or.inr (hcalls x hx).1
  · exact Or.inl hx

/-- What is closed without an exception is deleted too. -/
theorem deletes (h : Cms.Extends R m m')
    (hm : ∀ x, .close x ∈ m.log → m.closeThrows x = false → .deleteEndpoint x ∈ m.log) {x : ℕ}
    (hx : .close x ∈ m'.log) (ht : m'.closeThrows x = false) : .deleteEndpoint x ∈ m'.log := by
  have hsub := h.subset
  obtain ⟨calls, hlog, hcalls⟩ := h.log
  rw [h.throws] at ht
  rw [hlog] at hx ⊢
  rcases List.mem_append.mp hx with hx | hx
  · exact List.mem_append_left _ ((hcalls x hx).2 ht)
  · exact List.mem_append_right _ (hm x hx ht)

end Cms.Extends

theorem releaseDestination_extends (R : ℕ → Prop) (m : Cms) (d : Option ℕ) :
    Cms.Extends R m (releaseDestination m d) := by
  cases d with
  | none => exact Cms.Extends.refl R m
  | some d => exact Cms.Extends.call R m fun _ => CmsCall.noConfusion

theorem releaseCp_extends {R : ℕ → Prop} (m : Cms) {pCp : Option ℕ} (hR : ∀ x, pCp = some x → R x) :
    Cms.Extends R m (releaseCp m pCp) := by
  cases pCp with
  | none => exact Cms.Extends.refl R m
  | some e =>
    have hclose : ∀ {x : ℕ}, CmsCall.close x = .close e → R x ∧ x = e := by
      intro x hx
      obtain rfl := CmsCall.close.inj hx
      exact ⟨hR x rfl, rfl⟩
    cases ht : m.closeThrows e with
    | true =>
      refine ⟨releaseCp_closeThrows m _, [.close e], by simp [releaseCp, Cms.call, ht], fun x hx => ?_⟩
      obtain ⟨hRx, rfl⟩ := hclose (List.mem_singleton.mp hx)
      exact ⟨hRx, fun hf => absurd (ht.symm.trans hf) (by decide)⟩
    | false =>
      refine ⟨releaseCp_closeThrows m _, [.deleteEndpoint e, .close e],
        by simp [releaseCp, Cms.call, ht], fun x hx => ?_⟩
      obtain ⟨hRx, rfl⟩ := hclose (by simpa using hx)
      exact ⟨hRx, fun _ => List.mem_cons_self ..⟩

theorem releaseDst_extends {R : ℕ → Prop} (m : Cms) (d : Option ℕ) {pCp : Option ℕ}
    (hR : ∀ x, pCp = some x → R x) : Cms.Extends R m (releaseDst m d pCp) :=
  (releaseDestination_extends R m d).trans (releaseCp_extends _ hR)

namespace Mem

/-- `m'` is `m` without some of its endpoints, each of which has been closed, and nothing else has. -/
structure Shrinks (m m' : Mem) : Prop where
  endsNext : m'.ends.next = m.ends.next
  ends : ∀ e ep, m'.ends.cell e = some ep → m.ends.cell e = some ep
  log : Cms.Extends
    (fun x => ∃ e ep, m.ends.cell e = some ep ∧ ep.pCp = some x ∧ m'.ends.cell e = none) m.cms m'.cms
  closed : ∀ e ep x, m.ends.cell e = some ep → ep.pCp = some x → m'.ends.cell e = none →
    .close x ∈ m'.cms.log

variable {m m' m'' : Mem} {c : ℕ} {co : MqConnection}

/-- The endpoints stay and nothing is closed. -/
theorem Shrinks.of_ends (hends : m'.ends = m.ends) (hlog : Cms.Extends (fun _ => False) m.cms m'.cms) :
    Shrinks m m' := by
  refine ⟨by rw [hends], fun e ep he => by rwa [hends] at he, hlog.mono fun _ => False.elim, ?_⟩
  intro e ep x he _ hn
  rw [hends, he] at hn
  cases hn

theorem Shrinks.refl (m : Mem) : Shrinks m m := .of_ends rfl (.refl _ _)

theorem Shrinks.trans (h : Shrinks m m') (h' : Shrinks m' m'') : Shrinks m m'' := by
  have hgone : ∀ {e}, m'.ends.cell e = none → m''.ends.cell e = none := by
    intro e hn
    cases he : m''.ends.cell e with
    | none => rfl
    | some ep =>
      rw [h'.ends e ep he] at hn
      cases hn
  refine ⟨h'.endsNext.trans h.endsNext, fun e ep he => h.ends e ep (h'.ends e ep he), ?_, ?_⟩
  · refine (h.log.mono ?_).trans (h'.log.mono ?_)
    · rintro x ⟨e, ep, he, hx, hn⟩
      exact ⟨e, ep, he, hx, hgone hn⟩
    · rintro x ⟨e, ep, he, hx, hn⟩
      exact ⟨e, ep, h.ends e ep he, hx, hn⟩
  · intro e ep x he hx hn
    cases he' : m'.ends.cell e with
    | none => exact h'.log.subset (h.closed e ep x he hx he')
    | some ep' =>
      obtain rfl := Option.some.inj ((h.ends e ep' he').symm.trans he)
      exact h'.closed e ep' x he' hx hn

/-! ## Taking a connection down -/

theorem destroyAll_extends {l : List ℕ} (hx : l.foldlM destroy m = .ok m') :
    Cms.Extends (fun x => ∃ e ∈ l, ∃ ep, m.ends.cell e = some ep ∧ ep.pCp = some x) m.cms m'.cms := by
  -- an endpoint that has been destroyed has no producer or consumer any more
  refine (foldlM_inv (P := fun t : Mem =>
    Cms.Extends (fun x => ∃ e ∈ l, ∃ ep, m.ends.cell e = some ep ∧ ep.pCp = some x) m.cms t.cms ∧
      ∀ e ep x, t.ends.cell e = some ep → ep.pCp = some x →
        ∃ ep₀, m.ends.cell e = some ep₀ ∧ ep₀.pCp = some x)
    (fun t a t' ha ht hx => ?_) ⟨.refl _ _, fun e ep x he hx => ⟨ep, he, hx⟩⟩ hx).1
  obtain ⟨hlog, hold⟩ := ht
  obtain ⟨ap, hap, -⟩ := bind_eq_ok.mp hx
  have hap := Heap.deref_eq_ok.mp hap
  rw [destroy_ok hap] at hx
  obtain rfl := Except.ok.inj hx
  constructor
  · apply hlog.trans
    apply releaseDst_extends
    intro x hxc
    obtain ⟨ep₀, he₀, hx₀⟩ := hold a ap x hap hxc
    exact ⟨a, ha, ep₀, he₀, hx₀⟩
  · intro e ep x he hxc
    rw [Heap.modify_cell] at he
    by_cases hea : e = a
    · rw [if_pos hea] at he
      obtain ⟨ep', -, rfl⟩ := Option.map_eq_some_iff.mp he
      cases hxc
    · rw [if_neg hea] at he
      exact hold e ep x he hxc

theorem dropSession_extends (R : ℕ → Prop) (hx : m.dropSession c = .ok m') :
    Cms.Extends R m.cms m'.cms := by
  obtain ⟨co, -, hx⟩ := bind_eq_ok.mp hx
  obtain rfl := Except.ok.inj hx
  cases co.pSession with
  | none => exact .refl R m.cms
  | some s => exact .call R m.cms fun _ => CmsCall.noConfusion

theorem dropConnection_extends (R : ℕ → Prop) (hx : m.dropConnection c = .ok m') :
    Cms.Extends R m.cms m'.cms := by
  obtain ⟨co, -, hx⟩ := bind_eq_ok.mp hx
  obtain rfl := Except.ok.inj hx
  cases co.pConnection with
  | none => exact .refl R m.cms
  | some k => exact .call R m.cms fun _ => CmsCall.noConfusion

theorem destroyConn_extends (hc : m.conns.cell c = some co) (hx : m.destroyConn c = .ok m') :
    Cms.Extends (fun x => ∃ e ∈ co.endpoints, ∃ ep, m.ends.cell e = some ep ∧ ep.pCp = some x)
      m.cms m'.cms := by
  simp only [destroyConn, Heap.deref_ok hc, ok_bind] at hx
  obtain ⟨m₁, hx₁, hx⟩ := bind_eq_ok.mp hx
  obtain ⟨m₂, hx₂, hx⟩ := bind_eq_ok.mp hx
  obtain ⟨m₃, hx₃, hx₄⟩ := bind_eq_ok.mp hx
  have hloops : co.endpoints.foldlM destroy m = .ok m₂ := by
    rw [MqConnection.endpoints, List.foldlM_append, hx₁]
    exact hx₂
  exact (destroyAll_extends hloops).trans
    ((dropSession_extends _ hx₃).trans (dropConnection_extends _ hx₄))

theorem disConn_shrinks (hc : m.conns.cell c = some co) (hnd : co.endpoints.Nodup)
    (hl : ∀ e ∈ co.endpoints, ∃ ep, m.ends.cell e = some ep) (hx : m.disConn c = .ok m') :
    Shrinks m m' := by
  obtain ⟨m₁, hx₁, hd⟩ := destroyConn_ok hc hl
  have hc₁ : m₁.conns.cell c = some { co with pSession := none, pConnection := none } := by
    rw [hd.conns, if_pos rfl]
  obtain ⟨m₂, hx₂, hcleared⟩ := clearLists_ok hc₁ hnd fun e he => by
    have he : e ∈ co.endpoints := he
    obtain ⟨ep, hep⟩ := hl e he
    exact ⟨ep.cleared, by rw [hd.ends, if_pos he, hep]; rfl⟩
  have hlog := disConn_log hc hnd hl hx
  have hext := destroyConn_extends hc hx₁
  obtain ⟨m₃, hx₃, hdown⟩ := disConn_ok hc hnd hl
  obtain rfl := Except.ok.inj (hx.symm.trans hx₃)
  simp only [disConn, hx₁, ok_bind, hx₂] at hx
  obtain rfl := Except.ok.inj hx
  have hcell : ∀ e, m₂.ends.cell e = if e ∈ co.endpoints then none else m.ends.cell e := hdown.ends
  refine ⟨hdown.kept.endsNext, fun e ep he => ?_, ?_, fun e ep x he hcp hn => ?_⟩
  · rw [hcell] at he
    by_cases hmem : e ∈ co.endpoints
    · rw [if_pos hmem] at he
      cases he
    · rwa [if_neg hmem] at he
  · rw [hcleared.cms]
    apply hext.mono
    rintro x ⟨e, hmem, ep, he, hcp⟩
    exact ⟨e, ep, he, hcp, by rw [hcell, if_pos hmem]⟩
  · by_cases hmem : e ∈ co.endpoints
    · exact (hlog.ends e hmem ep he).closed x hcp
    · rw [hcell, if_neg hmem, he] at hn
      cases hn

/-! ## The other members -/

theorem delEnd_shrinks (kind : EndKind) {strName : Str} {nType : MqMsgMode} {r : Bool}
    (hc : m.conns.cell c = some co) (hl : ∀ e ∈ co.endpoints, ∃ ep, m.ends.cell e = some ep)
    (hx : m.delEnd c kind strName nType = .ok (r, m')) : Shrinks m m' := by
  cases hfind : (co.list kind).find? (m.isMatch strName nType) with
  | none =>
    rw [delEnd_none kind hc hl hfind] at hx
    cases hx
    exact .refl m
  | some e =>
    have hf := findEnd_ok (m := m) strName nType (l := co.list kind)
      fun b hb => hl b (MqConnection.mem_endpoints.mpr ⟨kind, hb⟩)
    rw [hfind] at hf
    obtain ⟨ep, hep⟩ :=
      hl e (MqConnection.mem_endpoints.mpr ⟨kind, List.mem_of_find?_eq_some hfind⟩)
    simp only [delEnd, Heap.deref_ok hc, hf, ok_bind, destroy_ok hep] at hx
    obtain ⟨m₂, hx₂, hr⟩ := bind_eq_ok.mp hx
    cases hr
    have hep₁ : (m.ends.modify e MqEndpoint.cleared).cell e = some ep.cleared := by
      rw [Heap.modify_cell, if_pos rfl, hep]
      rfl
    obtain rfl := Except.ok.inj ((deleteEnd_ok hep₁).symm.trans hx₂)
    have hcell : ∀ b, ((m.ends.modify e MqEndpoint.cleared).remove e).cell b =
        if b = e then none else m.ends.cell b := by
      intro b
      rw [Heap.remove_cell]
      by_cases hb : b = e
      · rw [if_pos hb, if_pos hb]
      · rw [if_neg hb, if_neg hb, Heap.modify_cell, if_neg hb]
    have hgone := (hcell e).trans (if_pos rfl)
    refine ⟨rfl, fun b bp hb => ?_, ?_, fun b bp x hb hcp hn => ?_⟩
    · rw [hcell] at hb
      by_cases hbe : b = e
      · rw [if_pos hbe] at hb
        cases hb
      · rwa [if_neg hbe] at hb
    · apply releaseDst_extends
      intro x hcp
      exact ⟨e, ep, hep, hcp, hgone⟩
    · by_cases hbe : b = e
      · subst hbe
        obtain rfl := Option.some.inj (hep.symm.trans hb)
        exact (releaseDst_log m.cms ep).2.closed x hcp
      · rw [hcell, if_neg hbe, hb] at hn
        cases hn

theorem conn_shrinks {out : ConnOutcome} {r : Bool} (hx : m.conn c out = .ok (r, m')) :
    Shrinks m m' := by
  obtain ⟨co, -, hx⟩ := bind_eq_ok.mp hx
  have hcreate := Cms.Extends.create (k := .createConnection) (fun _ => False) m.cms
    fun _ => CmsCall.noConfusion
  have hstart := hcreate.trans (.call (k := .startConnection m.cms.next) _ _ fun _ => CmsCall.noConfusion)
  cases out with
  | factoryThrows =>
    cases hx
    exact .refl m
  | startThrows =>
    cases hx
    exact .of_ends rfl hstart
  | sessionThrows =>
    cases hx
    exact .of_ends rfl hstart
  | connected =>
    cases hx
    exact .of_ends rfl (hstart.trans (.create (k := .createSession m.cms.next) _ _ fun _ => CmsCall.noConfusion))

theorem sendMsg_shrinks {p : ℕ} {strMsg : Str} {out : SendOutcome} {r : Bool}
    (hx : m.sendMsg p strMsg out = .ok (r, m')) : Shrinks m m' := by
  obtain ⟨ep, -, hx⟩ := bind_eq_ok.mp hx
  cases hs : ep.pSession with
  | none =>
    simp only [hs, pure_eq_ok] at hx
    cases hx
    exact .of_ends rfl (.refl _ _)
  | some s =>
    have hmsg := Cms.Extends.call (k := .createBytesMessage s strMsg) (fun _ => False) m.cms
      fun _ => CmsCall.noConfusion
    simp only [hs, pure_eq_ok] at hx
    by_cases hm : out = .msgThrows
    · rw [if_pos hm] at hx
      cases hx
      exact .of_ends rfl hmsg
    · rw [if_neg hm] at hx
      cases hcp : ep.pCp with
      | none =>
        simp only [hcp] at hx
        cases hx
        exact .of_ends rfl hmsg
      | some x =>
        simp only [hcp] at hx
        cases hx
        exact .of_ends rfl (hmsg.trans (.call (k := .send x strMsg) _ _ fun _ => CmsCall.noConfusion))

/-! ## Adding an endpoint -/

/-- `m'` is `m` with a new endpoint, whose producer or consumer, if it has one, was made by this
session for a destination of its name and mode. -/
structure Gains (m : Mem) (kind : EndKind) (strName : Str) (nType : MqMsgMode) (cb : Option ℕ)
    (user : ℕ) (m' : Mem) : Prop where
  endsNext : m'.ends.next = m.ends.next + 1
  other : ∀ e, e ≠ m.ends.next → m'.ends.cell e = m.ends.cell e
  self : ∃ ep, m'.ends.cell m.ends.next = some ep ∧ ep.pMsgCb = cb ∧ ep.pUser = user ∧
    ∀ x, ep.pCp = some x → m.cms.next ≤ x ∧ ∃ s d, .createEndpoint kind s x d ∈ m'.cms.log ∧
      .createDestination s d nType (cstr strName) ∈ m'.cms.log
  log : Cms.Extends (fun _ => False) m.cms m'.cms

theorem create_gains {kind : EndKind} {e : ℕ} {ep : MqEndpoint} {pSession : Option ℕ}
    {out : CreateOutcome} (he : m.ends.cell e = some ep) (hbare : ep.pCp = none)
    (hx : m.create kind e pSession out = .ok m') :
    m'.ends.next = m.ends.next ∧ (∀ b, b ≠ e → m'.ends.cell b = m.ends.cell b) ∧
      Cms.Extends (fun _ => False) m.cms m'.cms ∧
      ∃ ep', m'.ends.cell e = some ep' ∧ ep'.pMsgCb = ep.pMsgCb ∧ ep'.pUser = ep.pUser ∧
        ∀ x, ep'.pCp = some x → m.cms.next ≤ x ∧ ∃ s d, .createEndpoint kind s x d ∈ m'.cms.log ∧
          .createDestination s d ep.nMode (cstr ep.strName) ∈ m'.cms.log := by
  cases pSession with
  | none =>
    cases hx
    refine ⟨rfl, fun _ _ => rfl, .refl _ _, ep, he, rfl, rfl, fun x hcp => ?_⟩
    rw [hbare] at hcp
    cases hcp
  | some s =>
    simp only [create, Heap.deref_ok he, ok_bind, pure_eq_ok] at hx
    have hdst := Cms.Extends.create
      (k := fun d => CmsCall.createDestination s d ep.nMode (cstr ep.strName)) (fun _ => False) m.cms
      fun _ => CmsCall.noConfusion
    have hcp := hdst.trans (.create
      (k := fun x => CmsCall.createEndpoint kind s x m.cms.next) _ _ fun _ => CmsCall.noConfusion)
    have hconf := hcp.trans
      (.call (k := .configureEndpoint (m.cms.next + 1)) _ _ fun _ => CmsCall.noConfusion)
    have hother : ∀ {f : MqEndpoint → MqEndpoint} {h : Heap MqEndpoint} {b}, b ≠ e →
        (h.modify e f).cell b = h.cell b := fun hb => by rw [Heap.modify_cell, if_neg hb]
    have hself : ∀ {f : MqEndpoint → MqEndpoint} {h : Heap MqEndpoint} {ap}, h.cell e = some ap →
        (h.modify e f).cell e = some (f ap) := fun ha => by
      rw [Heap.modify_cell, if_pos rfl, ha, Option.map_some]
    cases out with
    | dstThrows =>
      cases hx
      refine ⟨rfl, fun b hb => hother hb, .refl _ _, _, hself he, rfl, rfl, fun x hx => ?_⟩
      cases hbare.symm.trans hx
    | cpThrows =>
      cases hx
      refine ⟨rfl, fun b hb => (hother hb).trans (hother hb), hdst, _, hself (hself he), rfl, rfl,
        fun x hx => ?_⟩
      cases hbare.symm.trans hx
    | configureThrows =>
      cases hx
      refine ⟨rfl, fun b hb => ((hother hb).trans (hother hb)).trans (hother hb), hconf, _,
        hself (hself (hself he)), rfl, rfl, fun x hx => ?_⟩
      obtain rfl := Option.some.inj hx
      exact ⟨Nat.le_succ _, s, m.cms.next, by simp [Cms.call, Cms.create],
        by simp [Cms.call, Cms.create]⟩
    | created =>
      cases hx
      refine ⟨rfl, fun b hb => ((hother hb).trans (hother hb)).trans (hother hb), hconf, _,
        hself (hself (hself he)), rfl, rfl, fun x hx => ?_⟩
      obtain rfl := Option.some.inj hx
      exact ⟨Nat.le_succ _, s, m.cms.next, by simp [Cms.call, Cms.create],
        by simp [Cms.call, Cms.create]⟩

theorem addEnd_gains (kind : EndKind) (strName : Str) (nType : MqMsgMode) (cb : Option ℕ) (user : ℕ)
    {env : Env} {p : Option ℕ} (hx : m.addEnd c kind strName nType cb user env = .ok (p, m')) :
    (p = none ∧ m' = m) ∨ (p = some m.ends.next ∧ Gains m kind strName nType cb user m') := by
  cases hnew : env.newEnd with
  | false =>
    simp only [addEnd, hnew, if_true] at hx
    cases hx
    exact Or.inl ⟨rfl, rfl⟩
  | true =>
    simp only [addEnd, hnew, Bool.true_eq_false, if_false] at hx
    obtain ⟨⟨e, m₁⟩, hpush, hx⟩ := bind_eq_ok.mp hx
    obtain ⟨co, hc, -⟩ := bind_eq_ok.mp hpush
    rw [pushEnd_ok kind strName nType cb user (Heap.deref_eq_ok.mp hc)] at hpush
    cases hpush
    obtain ⟨m₂, hx₂, hr⟩ := bind_eq_ok.mp hx
    cases hr
    obtain ⟨co₁, -, hx₂⟩ := bind_eq_ok.mp hx₂
    obtain ⟨hnext, hother, hlog, ep, hep, hcb, huser, hcp⟩ :=
      create_gains (Heap.alloc_cell_next ..) rfl hx₂
    refine Or.inr ⟨rfl, hnext, fun b hb => ?_, ⟨ep, hep, hcb, huser, hcp⟩, hlog⟩
    rw [hother b hb, Heap.alloc_cell, if_neg hb]

end Mem
end AppUtil.Mq
