import AppUtil.Mq.Teardown

/-! # The failure callback against adding endpoints

`onException` runs on a thread of the library and takes the connection's lock twice, for
`DestroyConn` and for the deleting part of `DisConn`; adding an endpoint is a push under the lock
and `Create` outside it. These steps interleave as they like. -/
namespace AppUtil.Mq
open AppUtil.Lib AppUtil.Lib.Lifetime
set_option autoImplicit false

/-- The memory, the endpoints whose `Create` is still to come, and the number of callbacks between
`DestroyConn` and the deleting part. -/
structure Race where
  mem : Mem
  pending : List (ℕ × EndKind)
  gap : ℕ

inductive RaceStep where
  | push (kind : EndKind) (strName : Str) (nType : MqMsgMode) (pfnMsgCb : Option ℕ) (pUser : ℕ)
  | create (i : ℕ) (out : CreateOutcome)
  | destroyConn
  | clearLists
  deriving DecidableEq, Repr

namespace Race

/-- A step on the connection at `c`. A step that nobody is at does nothing. -/
def exec (c : ℕ) (r : Race) : RaceStep → Except Fault Race
  | .push kind strName nType cb user => do
    let (e, m) ← r.mem.pushEnd c kind strName nType cb user
    pure { r with mem := m, pending := (e, kind) :: r.pending }
  | .create i out =>
    match r.pending[i]? with
    | none => pure r
    | some (e, kind) => do
      let m ← r.mem.createEnd c kind e out
      pure { r with mem := m, pending := r.pending.eraseIdx i }
  | .destroyConn => do
    let m ← r.mem.destroyConn c
    pure { r with mem := m, gap := r.gap + 1 }
  | .clearLists =>
    if r.gap = 0 then pure r
    else do
      let m ← r.mem.clearLists c
      pure { r with mem := m, gap := r.gap - 1 }

/-- What must not go wrong, besides the faults: what was deleted held nothing of the library any
more, the library's objects are used and released while they and their sessions are alive, and
what was not released is held by a live endpoint in a list. -/
structure Safe (r : Race) : Prop where
  released : ∀ d ∈ r.mem.deletions,
    d.listed = true ∧ d.obj.pDestination = none ∧ d.obj.pCp = none
  ordered : Ordered r.mem.cms.events
  kept : ∀ x s, Event.born (.child x) (some (.session s)) ∈ r.mem.cms.events →
    Event.died (.child x) ∈ r.mem.cms.events ∨
    ∃ e ep b cb, r.mem.ends.cell e = some ep ∧ ep.Holds x ∧ r.mem.conns.cell b = some cb ∧
      e ∈ cb.endpoints

/-! ## Invariant -/

/-- An endpoint waits for `Create` in the list of the connection, alive and bare, unless the session
is gone; and it is gone while a callback is between its two parts. -/
structure Inv (c : ℕ) (r : Race) : Prop where
  owned : r.mem.Owned
  wired : r.mem.Wired
  live : ∃ co, r.mem.conns.cell c = some co
  gone : r.gap ≠ 0 → ∀ co, r.mem.conns.cell c = some co → co.pSession = none
  waiting : ∀ co, r.mem.conns.cell c = some co → co.pSession ≠ none →
    ∀ p ∈ r.pending, p.1 ∈ co.endpoints ∧ ∃ ep, r.mem.ends.cell p.1 = some ep ∧ ep.Bare
  distinct : (r.pending.map Prod.fst).Nodup
  old : ∀ p ∈ r.pending, p.1 < r.mem.ends.next

variable {c : ℕ} {r : Race}

theorem Inv.safe (h : Inv c r) : Safe r := by
  refine ⟨h.owned.deleted, h.wired.disciplined.ordered, fun x s hx => ?_⟩
  refine (h.wired.childrenHeld x s hx).imp_right ?_
  rintro ⟨e, ep, he, hh⟩
  obtain ⟨b, cb, hb, hmem⟩ := h.owned.stored e ep he
  exact ⟨e, ep, b, cb, he, hh, hb, hmem⟩

theorem bare_of_gone {m : Mem} (ho : m.Owned) (hw : m.Wired) {co : MqConnection}
    (hc : m.conns.cell c = some co) (hs : co.pSession = none) {e : ℕ} (he : e ∈ co.endpoints)
    {ep : MqEndpoint} (hep : m.ends.cell e = some ep) : ep.Bare := by
  have hno : ∀ b cb t, m.conns.cell b = some cb → e ∈ cb.endpoints → cb.pSession ≠ some t := by
    intro b cb t hb hmem ht
    obtain rfl := ho.disjoint b c cb co e hb hc hmem he
    obtain rfl := Option.some.inj (hb.symm.trans hc)
    rw [hs] at ht
    cases ht
  have hholds : ∀ x, ¬ ep.Holds x := by
    intro x hx
    obtain ⟨-, b, cb, t, hb, hmem, ht, -⟩ := hw.held e ep x hep hx
    exact hno b cb t hb hmem ht
  refine ⟨Option.eq_none_iff_forall_not_mem.mpr fun x hx => hholds x (Or.inl hx),
    Option.eq_none_iff_forall_not_mem.mpr fun x hx => hholds x (Or.inr hx),
    Option.eq_none_iff_forall_not_mem.mpr fun t ht => ?_⟩
  obtain ⟨b, cb, hb, hmem, hcb⟩ := hw.user e ep t hep ht
  exact hno b cb t hb hmem hcb

/-! ## The steps -/

theorem push_inv (h : Inv c r) (kind : EndKind) (strName : Str) (nType : MqMsgMode)
    (cb : Option ℕ) (user : ℕ) :
    ∃ r', r.exec c (.push kind strName nType cb user) = .ok r' ∧ Inv c r' := by
  obtain ⟨co, hc⟩ := h.live
  have hx := Mem.pushEnd_ok kind strName nType cb user hc
  set m : Mem := { r.mem with
    ends := r.mem.ends.alloc ⟨none, none, none, nType, strName, cb, user⟩
    conns := r.mem.conns.modify c fun co =>
      co.setList kind (co.list kind ++ [r.mem.ends.next]) } with hm
  set co₁ := co.setList kind (co.list kind ++ [r.mem.ends.next]) with hco₁
  have hc₁ : m.conns.cell c = some co₁ := by simp [hm, Heap.modify_cell, hc, hco₁]
  have hadd : Mem.Added r.mem c co kind ⟨none, none, none, nType, strName, cb, user⟩ m := by
    refine ⟨rfl, rfl, rfl, rfl, fun b => ?_, fun e => rfl⟩
    by_cases hb : b = c
    · rw [if_pos hb, hb, hc₁]
    · simp [hm, Heap.modify_cell, hb]
  have hsub : ∀ e ∈ co.endpoints, e ∈ co₁.endpoints := fun e he =>
    (MqConnection.endpoints_append_perm co kind _).mem_iff.mpr (List.mem_cons_of_mem _ he)
  have hnew : r.mem.ends.next ∈ co₁.endpoints :=
    (MqConnection.endpoints_append_perm co kind _).mem_iff.mpr (List.mem_cons_self ..)
  refine ⟨{ r with mem := m, pending := (r.mem.ends.next, kind) :: r.pending },
    by simp only [exec, hx, ok_bind, pure_eq_ok], h.owned.added hc hadd,
    Mem.pushEnd_wired kind strName nType cb user h.wired hc, ⟨co₁, hc₁⟩, fun hg co' hco' => ?_,
    fun co' hco' hs p hp => ?_, ?_, fun p hp => ?_⟩
  · obtain rfl := Option.some.inj (hc₁.symm.trans hco')
    rw [hco₁, MqConnection.setList_pSession]
    exact h.gone hg co hc
  · obtain rfl := Option.some.inj (hc₁.symm.trans hco')
    rw [hco₁, MqConnection.setList_pSession] at hs
    rcases List.mem_cons.mp hp with rfl | hp
    · exact ⟨hnew, _, Heap.alloc_cell_next .., rfl, rfl, rfl⟩
    · obtain ⟨hmem, ep, hep, hb⟩ := h.waiting co hc hs p hp
      exact ⟨hsub _ hmem, ep, Heap.alloc_cell_of_live _ hep, hb⟩
  · refine List.nodup_cons.mpr ⟨fun hmem => ?_, h.distinct⟩
    obtain ⟨p, hp, heq⟩ := List.mem_map.mp hmem
    exact absurd (h.old p hp) (by rw [heq]; exact Nat.lt_irrefl _)
  · rcases List.mem_cons.mp hp with rfl | hp
    · exact Nat.lt_succ_self _
    · exact Nat.lt_succ_of_lt (h.old p hp)

/-- The endpoints that still wait are others than the one whose turn it was. -/
theorem ne_of_mem_eraseIdx {l : List (ℕ × EndKind)} {i : ℕ} {p q : ℕ × EndKind}
    (hnd : (l.map Prod.fst).Nodup) (hi : l[i]? = some p) (hq : q ∈ l.eraseIdx i) : q.1 ≠ p.1 := by
  obtain ⟨j, hji, hj⟩ := List.mem_eraseIdx_iff_getElem?.mp hq
  intro heq
  have hlt : j < (l.map Prod.fst).length := by
    rw [List.length_map]
    exact (List.getElem?_eq_some_iff.mp hj).1
  refine hji ((List.getElem?_inj hlt hnd).mp ?_)
  rw [List.getElem?_map, List.getElem?_map, hi, hj, Option.map_some, Option.map_some, heq]

theorem create_inv (h : Inv c r) (i : ℕ) (out : CreateOutcome) :
    ∃ r', r.exec c (.create i out) = .ok r' ∧ Inv c r' := by
  cases hi : r.pending[i]? with
  | none => exact ⟨r, by simp only [exec, hi, pure_eq_ok], h⟩
  | some p =>
    obtain ⟨e, kind⟩ := p
    obtain ⟨co, hc⟩ := h.live
    have hp : (e, kind) ∈ r.pending := List.mem_of_getElem? hi
    have hsub : ∀ p ∈ r.pending.eraseIdx i, p ∈ r.pending :=
      fun p hp => List.mem_of_mem_eraseIdx hp
    have hdistinct : ((r.pending.eraseIdx i).map Prod.fst).Nodup :=
      ((List.eraseIdx_sublist ..).map _).nodup h.distinct
    cases hs : co.pSession with
    | none =>
      -- nothing is touched
      have hx : r.mem.createEnd c kind e out = .ok r.mem := by
        simp [Mem.createEnd, Heap.deref_ok hc, hs, Mem.create]
      exact ⟨{ r with pending := r.pending.eraseIdx i },
        by simp only [exec, hi, hx, ok_bind, pure_eq_ok], h.owned, h.wired, ⟨co, hc⟩, h.gone,
        fun co' hco' hs' p hp => h.waiting co' hco' hs' p (hsub p hp), hdistinct,
        fun p hp => h.old p (hsub p hp)⟩
    | some s =>
      have hne : co.pSession ≠ none := hs.trans_ne (Option.some_ne_none s)
      obtain ⟨hmem, ep, hep, hbare⟩ := h.waiting co hc hne _ hp
      obtain ⟨m, hx, ht⟩ := Mem.create_ok kind co.pSession out hep
      have hx' : r.mem.createEnd c kind e out = .ok m := by
        simp [Mem.createEnd, Heap.deref_ok hc, hx]
      obtain ⟨ep', hep', -, -⟩ := ht.self ep hep
      have hconns : m.conns = r.mem.conns := ht.shape.conns
      have ho : m.Owned := by
        refine h.owned.keep (fun b => by rw [hconns]) (fun a => ?_)
          (by rw [ht.deletions]; exact List.Subset.refl _)
        by_cases hae : a = e
        · rw [hae, hep, hep']
          rfl
        · rw [ht.other a hae]
      refine ⟨{ r with mem := m, pending := r.pending.eraseIdx i },
        by simp only [exec, hi, hx', ok_bind, pure_eq_ok], ho,
        Mem.createEnd_wired kind out h.wired hc hep hmem hbare hx', ⟨co, by rw [hconns, hc]⟩, ?_,
        fun co' hco' hs' p hp' => ?_, hdistinct, fun p hp => ?_⟩
      · rw [hconns]
        exact h.gone
      · rw [hconns] at hco'
        obtain ⟨hmem', ap, hap, hb⟩ := h.waiting co' hco' hs' p (hsub p hp')
        refine ⟨hmem', ap, ?_, hb⟩
        have hpe : p.1 ≠ e := ne_of_mem_eraseIdx h.distinct hi hp'
        rw [ht.other _ hpe, hap]
      · rw [ht.shape.next]
        exact h.old p (hsub p hp)

theorem destroyConn_inv (h : Inv c r) : ∃ r', r.exec c .destroyConn = .ok r' ∧ Inv c r' := by
  obtain ⟨co, hc⟩ := h.live
  have hl := h.owned.live c co hc
  obtain ⟨m, hx, hd⟩ := Mem.destroyConn_ok hc hl
  have hc' : m.conns.cell c = some { co with pSession := none, pConnection := none } := by
    rw [hd.conns, if_pos rfl]
  have hgone : ∀ co', m.conns.cell c = some co' → co'.pSession = none := by
    intro co' hco'
    obtain rfl := Option.some.inj (hc'.symm.trans hco')
    rfl
  refine ⟨{ r with mem := m, gap := r.gap + 1 }, by simp only [exec, hx, ok_bind, pure_eq_ok],
    ?_, Mem.destroyConn_wired h.wired hc hl hx, ⟨_, hc'⟩, fun _ => hgone,
    fun co' hco' hs => absurd (hgone co' hco') hs, h.distinct, fun p hp => ?_⟩
  · refine h.owned.keep (fun b => ?_) (fun e => ?_) (by rw [hd.deletions]; exact List.Subset.refl _)
    · rw [hd.conns]
      by_cases hb : b = c
      · rw [if_pos hb, hb, hc]
        rfl
      · rw [if_neg hb]
    · rw [hd.ends]
      by_cases he : e ∈ co.endpoints <;> simp [he]
  · rw [hd.kept.endsNext]
    exact h.old p hp

theorem clearLists_inv (h : Inv c r) : ∃ r', r.exec c .clearLists = .ok r' ∧ Inv c r' := by
  by_cases hg : r.gap = 0
  · exact ⟨r, by simp only [exec, if_pos hg, pure_eq_ok], h⟩
  · obtain ⟨co, hc⟩ := h.live
    have hs := h.gone hg co hc
    have hbare : ∀ e ∈ co.endpoints, ∀ ep, r.mem.ends.cell e = some ep → ep.Bare :=
      fun e he ep hep => bare_of_gone h.owned h.wired hc hs he hep
    obtain ⟨m, hx, hcl⟩ :=
      Mem.clearLists_ok hc (h.owned.nodup c co hc) (h.owned.live c co hc)
    have hc' : m.conns.cell c = some { co with listProducer := [], listConsumer := [] } := by
      rw [hcl.conns, if_pos rfl]
    have hgone : ∀ co', m.conns.cell c = some co' → co'.pSession = none := by
      intro co' hco'
      obtain rfl := Option.some.inj (hc'.symm.trans hco')
      exact hs
    refine ⟨{ r with mem := m, gap := r.gap - 1 },
      by simp only [exec, if_neg hg, hx, ok_bind, pure_eq_ok], ?_,
      Mem.clearLists_wired h.wired hc (h.owned.nodup c co hc) (h.owned.live c co hc) hbare hx,
      ⟨_, hc'⟩, fun _ => hgone, fun co' hco' hs => absurd (hgone co' hco') hs, h.distinct,
      fun p hp => ?_⟩
    · refine h.owned.emptied hc rfl hcl.conns hcl.ends fun d hd => ?_
      refine (hcl.deletions d hd).imp_right ?_
      rintro ⟨hlisted, hptr, hobj⟩
      have hb := hbare _ hptr _ hobj
      exact ⟨hlisted, hb.1, hb.2.1⟩
    · rw [hcl.kept.endsNext]
      exact h.old p hp

theorem exec_inv (h : Inv c r) (l : RaceStep) : ∃ r', r.exec c l = .ok r' ∧ Inv c r' := by
  cases l with
  | push kind strName nType cb user => exact push_inv h kind strName nType cb user
  | create i out => exact create_inv h i out
  | destroyConn => exact destroyConn_inv h
  | clearLists => exact clearLists_inv h

/-- **Adding an endpoint against a failure of the broker.** From any stored connection of any
reachable manager, any number of adds and callbacks interleave without a fault; no endpoint or
session is touched after its deletion, and what is deleted has been released. -/
theorem addEnd_onException (closeThrows : ℕ → Bool) (s : MqMgr)
    (h : Reaches MqMgr.exec (fun _ => True) (MqMgr.init closeThrows) s) (c : ℕ) (co : MqConnection)
    (hc : s.mem.conns.cell c = some co) (steps : List RaceStep) :
    Holds (exec c) Safe ⟨s.mem, [], 0⟩ steps := by
  obtain ⟨hs, hw⟩ := MqMgr.reaches_wired h
  have hinv : Inv c ⟨s.mem, [], 0⟩ :=
    ⟨hs.mem, hw, ⟨co, hc⟩, fun hg => absurd rfl hg, fun _ _ _ _ hp => absurd hp List.not_mem_nil,
      List.nodup_nil, fun _ hp => absurd hp List.not_mem_nil⟩
  exact (Holds.of_step (L := fun _ => True) (fun r l _ hr => exec_inv hr l) hinv
    fun _ _ => trivial).mono fun r hr => hr.safe

theorem addEnd_onException_sample : ∃ s co, (MqMgr.init fun _ => false).exec
      (.addProducer (urlOf ⟨['S'], ['D'], .mqModeQueue⟩) .ok) = .ok s ∧
    s.mem.conns.cell 0 = some co ∧
    Holds (exec 0) Safe ⟨s.mem, [], 0⟩
      [.push .consumer ['E'] .mqModeTopic (some 0) 0, .destroyConn, .create 0 .created,
        .clearLists] := by
  obtain ⟨s, hx, co, hco⟩ : ∃ s, (MqMgr.init fun _ => false).exec
      (.addProducer (urlOf ⟨['S'], ['D'], .mqModeQueue⟩) .ok) = .ok s ∧
      ∃ co, s.mem.conns.cell 0 = some co := ⟨_, rfl, _, rfl⟩
  exact ⟨s, co, hx, hco, addEnd_onException _ s (.next _ .start trivial hx) 0 co hco _⟩

end Race
end AppUtil.Mq
