import AppUtil.Mq.Teardown

/-! # What `DisConn` deletes

Each object of the library that a connection holds has one call that deletes it, except for a producer
or consumer whose `close()` throws: `ReleaseDst` sets the pointer to NULL and does not delete it. -/
namespace AppUtil.Mq
open AppUtil.Lib AppUtil.Lib.Lifetime
set_option autoImplicit false

/-- The object that the call deletes. -/
def CmsCall.deletes : CmsCall → Option CmsObj
  | .deleteDestination d => some (.child d)
  | .deleteEndpoint e => some (.child e)
  | .deleteSession s => some (.session s)
  | .deleteConnection k => some (.connection k)
  | _ => none

theorem CmsCall.event_of_deletes {closeThrows : ℕ → Bool} {call : CmsCall} {o : CmsObj}
    (h : call.deletes = some o) : call.event closeThrows = .died o := by
  cases call <;> cases h <;> rfl

namespace Mem
variable {m m' : Mem} {c : ℕ} {co : MqConnection}

/-- What the connection and its endpoints hold of the library. -/
def HeldBy (m : Mem) (co : MqConnection) : CmsObj → Prop
  | .connection k => co.pConnection = some k
  | .session s => co.pSession = some s
  | .child x => ∃ e ∈ co.endpoints, ∃ ep, m.ends.cell e = some ep ∧ ep.Holds x

/-- After `DisConn` what the connection held has been deleted once, and nothing is left of it. -/
def ReleasesAll (m : Mem) (c : ℕ) (co : MqConnection) : Prop :=
  ∃ m', m.disConn c = .ok m' ∧
    (∀ o, m.HeldBy co o → m'.cms.log.countP (fun call => call.deletes = some o) = 1) ∧
    ∃ co', m'.conns.cell c = some co' ∧ co'.pSession = none ∧ co'.pConnection = none ∧
      co'.listProducer = [] ∧ co'.listConsumer = []

/-- No `close()` of a producer or consumer of the connection throws. -/
def ClosesQuietly (m : Mem) (co : MqConnection) : Prop :=
  ∀ e ∈ co.endpoints, ∀ ep x, m.ends.cell e = some ep → ep.pCp = some x → m.cms.closeThrows x = false

/-! ## The calls -/

/-- The calls of `ReleaseDst` for the endpoint are in the log. -/
structure Released (closeThrows : ℕ → Bool) (ep : MqEndpoint) (log : List CmsCall) : Prop where
  destination : ∀ d, ep.pDestination = some d → .deleteDestination d ∈ log
  closed : ∀ x, ep.pCp = some x → .close x ∈ log
  deleted : ∀ x, ep.pCp = some x → closeThrows x = false → .deleteEndpoint x ∈ log

theorem Released.mono {closeThrows : ℕ → Bool} {ep : MqEndpoint} {log log' : List CmsCall}
    (h : Released closeThrows ep log) (hsub : log ⊆ log') : Released closeThrows ep log' :=
  ⟨fun d hd => hsub (h.destination d hd), fun x hx => hsub (h.closed x hx),
    fun x hx ht => hsub (h.deleted x hx ht)⟩

theorem releaseDestination_log (s : Cms) (pdst : Option ℕ) :
    s.log ⊆ (releaseDestination s pdst).log ∧
      ∀ d, pdst = some d → .deleteDestination d ∈ (releaseDestination s pdst).log := by
  cases pdst with
  | none => exact ⟨List.Subset.refl _, nofun⟩
  | some d =>
    refine ⟨List.subset_cons_self .., fun d' hd => ?_⟩
    obtain rfl := Option.some.inj hd
    exact List.mem_cons_self ..

theorem releaseCp_log (s : Cms) (pCp : Option ℕ) :
    s.log ⊆ (releaseCp s pCp).log ∧ ∀ x, pCp = some x → .close x ∈ (releaseCp s pCp).log ∧
      (s.closeThrows x = false → .deleteEndpoint x ∈ (releaseCp s pCp).log) := by
  cases pCp with
  | none => exact ⟨List.Subset.refl _, nofun⟩
  | some x =>
    cases ht : s.closeThrows x with
    | true =>
      have hlog : (releaseCp s (some x)).log = .close x :: s.log := by
        simp [releaseCp, Cms.call, ht]
      rw [hlog]
      refine ⟨List.subset_cons_self .., fun y hy => ?_⟩
      obtain rfl := Option.some.inj hy
      exact ⟨List.mem_cons_self .., fun hf => absurd (ht.symm.trans hf) (by decide)⟩
    | false =>
      have hlog : (releaseCp s (some x)).log = .deleteEndpoint x :: .close x :: s.log := by
        simp [releaseCp, Cms.call, ht]
      rw [hlog]
      refine ⟨fun call hcall => List.mem_cons_of_mem _ (List.mem_cons_of_mem _ hcall), fun y hy => ?_⟩
      obtain rfl := Option.some.inj hy
      exact ⟨List.mem_cons_of_mem _ (List.mem_cons_self ..), fun _ => List.mem_cons_self ..⟩

theorem releaseDst_log (s : Cms) (ep : MqEndpoint) :
    s.log ⊆ (releaseDst s ep.pDestination ep.pCp).log ∧
      Released s.closeThrows ep (releaseDst s ep.pDestination ep.pCp).log := by
  obtain ⟨hsub₁, hdst⟩ := releaseDestination_log s ep.pDestination
  obtain ⟨hsub₂, hcp⟩ := releaseCp_log (releaseDestination s ep.pDestination) ep.pCp
  rw [releaseDestination_closeThrows] at hcp
  exact ⟨List.Subset.trans hsub₁ hsub₂, fun d hd => hsub₂ (hdst d hd), fun x hx => (hcp x hx).1,
    fun x hx => (hcp x hx).2⟩

/-- By induction on the list: what has been released before is cleared when it is met again. -/
theorem destroyAll_log {l : List ℕ} (hl : ∀ e ∈ l, ∃ ep, m.ends.cell e = some ep)
    (hx : l.foldlM destroy m = .ok m') : m.cms.log ⊆ m'.cms.log ∧
      ∀ e ∈ l, ∀ ep, m.ends.cell e = some ep → Released m.cms.closeThrows ep m'.cms.log := by
  induction l generalizing m with
  | nil =>
    cases hx
    exact ⟨List.Subset.refl _, nofun⟩
  | cons a l ih =>
    obtain ⟨ap, ha⟩ := hl a (List.mem_cons_self ..)
    rw [List.foldlM_cons, destroy_ok ha, ok_bind] at hx
    have hother : ∀ {e ep}, e ≠ a → m.ends.cell e = some ep →
        (m.ends.modify a MqEndpoint.cleared).cell e = some ep := by
      intro e ep hne he
      rw [Heap.modify_cell, if_neg hne, he]
    obtain ⟨hsub₁, hreleased⟩ := releaseDst_log m.cms ap
    obtain ⟨hsub₂, hrest⟩ := ih (fun e he => by
      obtain ⟨ep, hep⟩ := hl e (List.mem_cons_of_mem a he)
      by_cases hne : e = a
      · subst hne
        exact ⟨ep.cleared, by rw [Heap.modify_cell, if_pos rfl, hep, Option.map_some]⟩
      · exact ⟨ep, hother hne hep⟩) hx
    refine ⟨List.Subset.trans hsub₁ hsub₂, fun e he ep hep => ?_⟩
    by_cases hne : e = a
    · subst hne
      obtain rfl := Option.some.inj (ha.symm.trans hep)
      exact hreleased.mono hsub₂
    · have hmem : e ∈ l := (List.mem_cons.mp he).resolve_left hne
      have hr := hrest e hmem ep (hother hne hep)
      rwa [releaseDst_closeThrows] at hr

theorem dropSession_log (hc : m.conns.cell c = some co) (hx : m.dropSession c = .ok m') :
    m.cms.log ⊆ m'.cms.log ∧ ∀ s, co.pSession = some s → .deleteSession s ∈ m'.cms.log := by
  simp only [dropSession, Heap.deref_ok hc, ok_bind, pure_eq_ok] at hx
  obtain rfl := Except.ok.inj hx
  cases co.pSession with
  | none =>
    refine ⟨List.Subset.refl _, fun s' hs => ?_⟩
    cases hs
  | some s =>
    refine ⟨List.subset_cons_self .., fun s' hs => ?_⟩
    obtain rfl := Option.some.inj hs
    exact List.mem_cons_self ..

theorem dropConnection_log (hc : m.conns.cell c = some co) (hx : m.dropConnection c = .ok m') :
    m.cms.log ⊆ m'.cms.log ∧ ∀ k, co.pConnection = some k → .deleteConnection k ∈ m'.cms.log := by
  simp only [dropConnection, Heap.deref_ok hc, ok_bind, pure_eq_ok] at hx
  obtain rfl := Except.ok.inj hx
  cases co.pConnection with
  | none =>
    refine ⟨List.Subset.refl _, fun k' hk => ?_⟩
    cases hk
  | some k =>
    refine ⟨List.subset_cons_self .., fun k' hk => ?_⟩
    obtain rfl := Option.some.inj hk
    exact List.mem_cons_self ..

/-- What `DisConn` has asked of the library. -/
structure AllReleased (m : Mem) (co : MqConnection) (log : List CmsCall) : Prop where
  ends : ∀ e ∈ co.endpoints, ∀ ep, m.ends.cell e = some ep → Released m.cms.closeThrows ep log
  session : ∀ s, co.pSession = some s → .deleteSession s ∈ log
  connection : ∀ k, co.pConnection = some k → .deleteConnection k ∈ log

theorem destroyConn_log (hc : m.conns.cell c = some co)
    (hl : ∀ e ∈ co.endpoints, ∃ ep, m.ends.cell e = some ep) (hx : m.destroyConn c = .ok m') :
    AllReleased m co m'.cms.log := by
  obtain ⟨m₂, hx₂, hs₂, -, -⟩ := destroyAll_ok hl
  have hloops := hx₂
  rw [MqConnection.endpoints, List.foldlM_append] at hloops
  obtain ⟨m₁, hx₁, hx₁₂⟩ := bind_eq_ok.mp hloops
  simp only [destroyConn, Heap.deref_ok hc, ok_bind, hx₁, hx₁₂] at hx
  obtain ⟨m₃, hx₃, hx₄⟩ := bind_eq_ok.mp hx
  have hcell₂ : m₂.conns.cell c = some co := by rw [hs₂.conns, hc]
  obtain ⟨m₃', hx₃', -, -, -, hn₃⟩ := dropSession_ok hcell₂
  obtain rfl := Except.ok.inj (hx₃.symm.trans hx₃')
  have hcell₃ : m₃.conns.cell c = some { co with pSession := none } := by
    simp [hn₃, Heap.modify_cell, hcell₂]
  obtain ⟨-, hends⟩ := destroyAll_log hl hx₂
  obtain ⟨hsub₃, hsession⟩ := dropSession_log hcell₂ hx₃
  obtain ⟨hsub₄, hconnection⟩ := dropConnection_log hcell₃ hx₄
  exact ⟨fun e he ep hep => (hends e he ep hep).mono (List.Subset.trans hsub₃ hsub₄),
    fun s hs => hsub₄ (hsession s hs), hconnection⟩

theorem disConn_log (hc : m.conns.cell c = some co) (hnd : co.endpoints.Nodup)
    (hl : ∀ e ∈ co.endpoints, ∃ ep, m.ends.cell e = some ep) (hx : m.disConn c = .ok m') :
    AllReleased m co m'.cms.log := by
  obtain ⟨m₁, hx₁, hd⟩ := destroyConn_ok hc hl
  have hlog := destroyConn_log hc hl hx₁
  have hc₁ : m₁.conns.cell c = some { co with pSession := none, pConnection := none } := by
    rw [hd.conns, if_pos rfl]
  obtain ⟨m₂, hx₂, hcleared⟩ := clearLists_ok hc₁ hnd fun e he => by
    have he : e ∈ co.endpoints := he
    obtain ⟨ep, hep⟩ := hl e he
    exact ⟨ep.cleared, by rw [hd.ends, if_pos he, hep]; rfl⟩
  simp only [disConn, hx₁, ok_bind, hx₂] at hx
  obtain rfl := Except.ok.inj hx
  rwa [hcleared.cms]

/-! ## The result -/

/-- All is deleted exactly when nothing is left undeleted by an exception. -/
theorem releasesAll_iff_closesQuietly (ho : m.Owned) (hw : m.Wired) (hc : m.conns.cell c = some co) :
    m.ReleasesAll c co ↔ m.ClosesQuietly co := by
  have hnd := ho.nodup c co hc
  have hl := ho.live c co hc
  obtain ⟨m', hx, hdown⟩ := disConn_ok hc hnd hl
  have hlog := disConn_log hc hnd hl hx
  have hdisc := (disConn_wired hw hc hnd hl hx).disciplined
  have hthrows : m'.cms.closeThrows = m.cms.closeThrows := hdown.kept.throws
  constructor
  · rintro ⟨m'', hx'', hdeleted, -⟩ e he ep x hep hcp
    obtain rfl := Except.ok.inj (hx.symm.trans hx'')
    by_contra hthrow
    have hcount := hdeleted (.child x) ⟨e, he, ep, hep, Or.inr hcp⟩
    obtain ⟨call, hcall, hdel⟩ := List.countP_pos_iff.mp (by rw [hcount]; exact Nat.one_pos)
    have hdel : call.deletes = some (.child x) := of_decide_eq_true hdel
    -- the call of `close()` was the end of the object already
    have hclose : (CmsCall.close x).event m'.cms.closeThrows = .died (.child x) := by
      rw [hthrows]
      exact if_pos (Bool.not_eq_false _ ▸ hthrow)
    have heq := hdisc.died_unique ((hlog.ends e he ep hep).closed x hcp) hcall hclose
      (CmsCall.event_of_deletes hdel)
    rw [← heq] at hdel
    cases hdel
  · intro hquiet
    refine ⟨m', hx, fun o hheld => ?_, MqConnection.new, ?_, rfl, rfl, rfl, rfl⟩
    · have hdeletes : ∃ call ∈ m'.cms.log, call.deletes = some o := by
        cases o with
        | connection k => exact ⟨_, hlog.connection k hheld, rfl⟩
        | session s => exact ⟨_, hlog.session s hheld, rfl⟩
        | child x =>
          obtain ⟨e, he, ep, hep, hdst | hcp⟩ := hheld
          · exact ⟨_, (hlog.ends e he ep hep).destination x hdst, rfl⟩
          · exact ⟨_, (hlog.ends e he ep hep).deleted x hcp (hquiet e he ep x hep hcp), rfl⟩
      obtain ⟨call, hcall, hdel⟩ := hdeletes
      exact hdisc.countP_died (fun _ hb => CmsCall.event_of_deletes (of_decide_eq_true hb)) hcall
        (decide_eq_true hdel)
    · rw [hdown.conns, if_pos rfl]

end Mem

namespace MqMgr
variable {s : MqMgr}

/-- **What a connection holds is deleted** by `DisConn`, in every state of every run, exactly when no
`close()` of its producers and consumers throws. -/
theorem disConn_releases_iff (closeThrows : ℕ → Bool) (h : Reaches exec (fun _ => True) (init closeThrows) s)
    (c : ℕ) (co : MqConnection) (hc : s.mem.conns.cell c = some co) :
    s.mem.ReleasesAll c co ↔ s.mem.ClosesQuietly co := by
  obtain ⟨hs, hw⟩ := reaches_wired h
  exact Mem.releasesAll_iff_closesQuietly hs.mem hw hc

/-- A connection with one producer, for whatever `close()` will do. -/
theorem one_producer (closeThrows : ℕ → Bool) : ∃ s,
    Reaches exec (fun _ => True) (init closeThrows) s ∧
      s.mem.conns.cell 0 = some ⟨some 0, some 1, [0], []⟩ ∧
      s.mem.ends.cell 0 = some ⟨some 2, some 3, some 1, .mqModeQueue, ['D'], none, 0⟩ ∧
      s.mem.cms.closeThrows = closeThrows := by
  obtain ⟨s, hx, hc, he, ht⟩ : ∃ s, (init closeThrows).exec
      (.addProducer (urlOf ⟨['S'], ['D'], .mqModeQueue⟩) .ok) = .ok s ∧
      s.mem.conns.cell 0 = some ⟨some 0, some 1, [0], []⟩ ∧
      s.mem.ends.cell 0 = some ⟨some 2, some 3, some 1, .mqModeQueue, ['D'], none, 0⟩ ∧
      s.mem.cms.closeThrows = closeThrows := ⟨_, rfl, rfl, rfl, rfl⟩
  exact ⟨s, .next _ .start trivial hx, hc, he, ht⟩

theorem disConn_releases_sample : ∃ s : MqMgr, s.mem.ReleasesAll 0 ⟨some 0, some 1, [0], []⟩ := by
  obtain ⟨s, hreach, hc, -, ht⟩ := one_producer fun _ => false
  refine ⟨s, (disConn_releases_iff _ hreach 0 _ hc).mpr fun e he ep x hep hx => ?_⟩
  rw [ht]

/-- A producer whose `close()` throws is not deleted. -/
theorem throwing_producer_kept : ∃ s, Reaches exec (fun _ => True) (init fun _ => true) s ∧
    s.mem.conns.cell 0 = some ⟨some 0, some 1, [0], []⟩ ∧
    ¬ s.mem.ReleasesAll 0 ⟨some 0, some 1, [0], []⟩ := by
  obtain ⟨s, hreach, hc, he, ht⟩ := one_producer fun _ => true
  refine ⟨s, hreach, hc, fun h => ?_⟩
  obtain ⟨hs, hw⟩ := reaches_wired hreach
  have hquiet := (Mem.releasesAll_iff_closesQuietly hs.mem hw hc).mp h
  have hfalse := hquiet 0 (List.mem_cons_self ..) _ 3 he rfl
  rw [ht] at hfalse
  cases hfalse

end MqMgr
end AppUtil.Mq
