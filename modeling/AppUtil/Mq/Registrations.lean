import AppUtil.Mq.Ownership

/-! # How the registrations change with the memory

One pair of lemmas for each change that a member of the manager makes: the new state is owned, and
these are its registrations in terms of the old ones. -/
namespace AppUtil.Mq.MqMgr
open AppUtil.Lib
set_option autoImplicit false

variable {s : MqMgr}

/-- Registrations only depend on the stored connections and on the cells of the two heaps. -/
theorem registered_congr {s s' : MqMgr} (hmap : s'.mapConn = s.mapConn)
    (hconns : s'.mem.conns.cell = s.mem.conns.cell) (hends : s'.mem.ends.cell = s.mem.ends.cell)
    (kind : EndKind) (d : Dst) (e : ℕ) : s'.Registered kind d e ↔ s.Registered kind d e := by
  unfold Registered
  rw [hmap, hconns, hends]

theorem owned_congr {s s' : MqMgr} (hs : s.Owned) (hmap : s'.mapConn = s.mapConn)
    (hconns : s'.mem.conns.cell = s.mem.conns.cell) (hends : s'.mem.ends.cell = s.mem.ends.cell)
    (hdel : s'.mem.deletions ⊆ s.mem.deletions) : s'.Owned := by
  constructor
  · exact hs.mem.congr hconns hends hdel
  · rw [hmap, hconns]; exact hs.connLive
  · rw [hmap]; exact hs.connInj
  · rw [hmap, hconns]; exact hs.connStored

/-! ## Connections -/

section Connections
variable {svr : Str} {c : ℕ} {co : MqConnection} {m' : Mem} {t : StrMap ℕ}

theorem Owned.ne_next (hs : s.Owned) {svr : Str} {b : ℕ} (hb : s.mapConn.lookup svr = some b) :
    b ≠ s.mem.conns.next := by
  obtain ⟨cb, hcb⟩ := hs.connLive svr b hb
  exact Nat.ne_of_lt (Heap.lt_next hcb)

/-- `m'` and `t` are the memory and the map with a new connection, still empty, under `svr`. -/
structure Opened (s : MqMgr) (svr : Str) (co : MqConnection) (m' : Mem) (t : StrMap ℕ) : Prop where
  fresh : s.mapConn.lookup svr = none
  empty : co.endpoints = []
  lookup : ∀ svr', t.lookup svr' =
    if svr' = svr then some s.mem.conns.next else s.mapConn.lookup svr'
  conns : ∀ b, m'.conns.cell b = if b = s.mem.conns.next then some co else s.mem.conns.cell b
  ends : m'.ends = s.mem.ends
  deletions : m'.deletions = s.mem.deletions

theorem owned_opened (hs : s.Owned) (ho : Opened s svr co m' t) :
    { s with mem := m', mapConn := t }.Owned := by
  have hnone : s.mem.conns.cell s.mem.conns.next = none := (s.mem.conns.fresh _ (Nat.le_refl _)).1
  constructor
  · refine hs.mem.conn_changed (c := s.mem.conns.next) (fun b hb => by rw [ho.conns, if_neg hb])
      (fun cb hcb => ?_) (fun cb hcb => ?_) (by rw [ho.ends])
      (by rw [ho.deletions]; exact List.Subset.refl _)
    · rw [hnone] at hcb
      cases hcb
    · rw [ho.conns, if_pos rfl] at hcb
      exact Option.some.inj hcb ▸ ho.empty
  · intro svr' b hb
    dsimp only at hb ⊢
    rw [ho.lookup] at hb
    rw [ho.conns]
    by_cases h : svr' = svr
    · rw [if_pos h] at hb
      exact ⟨co, by rw [if_pos (Option.some.inj hb).symm]⟩
    · rw [if_neg h] at hb
      rw [if_neg (hs.ne_next hb)]
      exact hs.connLive svr' b hb
  · intro svr₁ svr₂ b h₁ h₂
    dsimp only at h₁ h₂
    rw [ho.lookup] at h₁ h₂
    by_cases e₁ : svr₁ = svr <;> by_cases e₂ : svr₂ = svr
    · rw [e₁, e₂]
    · rw [if_pos e₁] at h₁
      rw [if_neg e₂] at h₂
      exact absurd (Option.some.inj h₁).symm (hs.ne_next h₂)
    · rw [if_neg e₁] at h₁
      rw [if_pos e₂] at h₂
      exact absurd (Option.some.inj h₂).symm (hs.ne_next h₁)
    · rw [if_neg e₁] at h₁
      rw [if_neg e₂] at h₂
      exact hs.connInj svr₁ svr₂ b h₁ h₂
  · intro b cb hb
    dsimp only at hb ⊢
    rw [ho.conns] at hb
    by_cases h : b = s.mem.conns.next
    · exact ⟨svr, by rw [ho.lookup, if_pos rfl, h]⟩
    · rw [if_neg h] at hb
      obtain ⟨svr', hl'⟩ := hs.connStored b cb hb
      have hne : svr' ≠ svr := by
        rintro rfl
        rw [ho.fresh] at hl'
        cases hl'
      exact ⟨svr', by rw [ho.lookup, if_neg hne, hl']⟩

theorem registered_opened (hs : s.Owned) (ho : Opened s svr co m' t)
    (kind : EndKind) (d : Dst) (e : ℕ) :
    { s with mem := m', mapConn := t }.Registered kind d e ↔ s.Registered kind d e := by
  constructor
  · rintro ⟨b, cb, ep, hb, hcb, hmem, he, hep⟩
    dsimp only at hb hcb he
    rw [ho.lookup] at hb
    rw [ho.conns] at hcb
    by_cases h : d.strMQSvr = svr
    · -- the new connection has no endpoints
      rw [if_pos h] at hb
      rw [if_pos (Option.some.inj hb).symm] at hcb
      obtain rfl := Option.some.inj hcb
      have := MqConnection.mem_endpoints.mpr ⟨kind, hmem⟩
      rw [ho.empty] at this
      cases this
    · rw [if_neg h] at hb
      rw [if_neg (hs.ne_next hb)] at hcb
      exact ⟨b, cb, ep, hb, hcb, hmem, by rw [← ho.ends]; exact he, hep⟩
  · rintro ⟨b, cb, ep, hb, hcb, hmem, he, hep⟩
    have h : d.strMQSvr ≠ svr := by
      intro h
      rw [h, ho.fresh] at hb
      cases hb
    refine ⟨b, cb, ep, ?_, ?_, hmem, ?_, hep⟩
    · dsimp only
      rw [ho.lookup, if_neg h, hb]
    · dsimp only
      rw [ho.conns, if_neg (hs.ne_next hb), hcb]
    · dsimp only
      rw [ho.ends]
      exact he

/-- `m'` and `t` are the memory and the map without the connection at `c`, which was empty and
stored under `svr`. -/
structure Closed (s : MqMgr) (svr : Str) (c : ℕ) (co : MqConnection) (m' : Mem) (t : StrMap ℕ) :
    Prop where
  stored : s.mapConn.lookup svr = some c
  live : s.mem.conns.cell c = some co
  empty : co.endpoints = []
  lookup : ∀ svr', t.lookup svr' = if svr' = svr then none else s.mapConn.lookup svr'
  conns : ∀ b, m'.conns.cell b = if b = c then none else s.mem.conns.cell b
  ends : m'.ends = s.mem.ends
  deletions : m'.deletions = s.mem.deletions

theorem owned_closed (hs : s.Owned) (hc : Closed s svr c co m' t) :
    { s with mem := m', mapConn := t }.Owned := by
  constructor
  · refine hs.mem.conn_changed (c := c) (fun b hb => by rw [hc.conns, if_neg hb])
      (fun cb hcb => ?_) (fun cb hcb => ?_) (by rw [hc.ends])
      (by rw [hc.deletions]; exact List.Subset.refl _)
    · exact Option.some.inj (hc.live.symm.trans hcb) ▸ hc.empty
    · rw [hc.conns, if_pos rfl] at hcb
      cases hcb
  · intro svr' b hb
    dsimp only at hb ⊢
    rw [hc.lookup] at hb
    by_cases h : svr' = svr
    · rw [if_pos h] at hb
      cases hb
    · rw [if_neg h] at hb
      have hbc : b ≠ c := by
        rintro rfl
        exact h (hs.connInj _ _ b hb hc.stored)
      obtain ⟨cb, hcb⟩ := hs.connLive svr' b hb
      exact ⟨cb, by rw [hc.conns, if_neg hbc, hcb]⟩
  · intro svr₁ svr₂ b h₁ h₂
    dsimp only at h₁ h₂
    rw [hc.lookup] at h₁ h₂
    by_cases e₁ : svr₁ = svr
    · rw [if_pos e₁] at h₁
      cases h₁
    · by_cases e₂ : svr₂ = svr
      · rw [if_pos e₂] at h₂
        cases h₂
      · rw [if_neg e₁] at h₁
        rw [if_neg e₂] at h₂
        exact hs.connInj svr₁ svr₂ b h₁ h₂
  · intro b cb hb
    dsimp only at hb ⊢
    rw [hc.conns] at hb
    by_cases h : b = c
    · rw [if_pos h] at hb
      cases hb
    · rw [if_neg h] at hb
      obtain ⟨svr', hl'⟩ := hs.connStored b cb hb
      have hne : svr' ≠ svr := by
        rintro rfl
        exact h (Option.some.inj (hl'.symm.trans hc.stored))
      exact ⟨svr', by rw [hc.lookup, if_neg hne, hl']⟩

theorem registered_closed (hc : Closed s svr c co m' t) (kind : EndKind) (d : Dst) (e : ℕ) :
    { s with mem := m', mapConn := t }.Registered kind d e ↔ s.Registered kind d e := by
  constructor
  · rintro ⟨b, cb, ep, hb, hcb, hmem, he, hep⟩
    dsimp only at hb hcb he
    rw [hc.lookup] at hb
    rw [hc.conns] at hcb
    rw [hc.ends] at he
    by_cases h : d.strMQSvr = svr
    · rw [if_pos h] at hb
      cases hb
    · rw [if_neg h] at hb
      by_cases hbc : b = c
      · rw [if_pos hbc] at hcb
        cases hcb
      · rw [if_neg hbc] at hcb
        exact ⟨b, cb, ep, hb, hcb, hmem, he, hep⟩
  · rintro ⟨b, cb, ep, hb, hcb, hmem, he, hep⟩
    have hbc : b ≠ c := by
      rintro rfl
      have := MqConnection.mem_endpoints.mpr ⟨kind, hmem⟩
      rw [← Option.some.inj (hc.live.symm.trans hcb), hc.empty] at this
      cases this
    have h : d.strMQSvr ≠ svr := by
      intro h
      rw [h, hc.stored] at hb
      exact hbc (Option.some.inj hb).symm
    refine ⟨b, cb, ep, ?_, ?_, hmem, ?_, hep⟩
    · dsimp only
      rw [hc.lookup, if_neg h, hb]
    · dsimp only
      rw [hc.conns, if_neg hbc, hcb]
    · dsimp only
      rw [hc.ends]
      exact he

end Connections

/-! ## Endpoints -/

section Endpoints
variable {svr : Str} {c : ℕ} {co : MqConnection} {kind : EndKind} {m' : Mem}

/-- The same connections are stored when one of them changes. -/
theorem owned_changed (hs : s.Owned) {v : MqConnection} (hc : s.mem.conns.cell c = some co)
    (hm : m'.Owned)
    (hconns : ∀ b, m'.conns.cell b = if b = c then some v else s.mem.conns.cell b) :
    { s with mem := m' }.Owned := by
  refine ⟨hm, fun svr' b hb => ?_, hs.connInj, fun b cb hb => ?_⟩
  · obtain ⟨cb, hcb⟩ := hs.connLive svr' b hb
    dsimp only
    rw [hconns]
    by_cases h : b = c
    · exact ⟨v, by rw [if_pos h]⟩
    · exact ⟨cb, by rw [if_neg h, hcb]⟩
  · dsimp only at hb
    rw [hconns] at hb
    by_cases h : b = c
    · exact h ▸ hs.connStored c co hc
    · rw [if_neg h] at hb
      exact hs.connStored b cb hb

theorem owned_added (hs : s.Owned) {ep : MqEndpoint} (hc : s.mem.conns.cell c = some co)
    (ha : Mem.Added s.mem c co kind ep m') : { s with mem := m' }.Owned :=
  owned_changed hs hc (hs.mem.added hc ha) ha.conns

theorem registered_added (hs : s.Owned) {ep : MqEndpoint} (hl : s.mapConn.lookup svr = some c)
    (hc : s.mem.conns.cell c = some co) (ha : Mem.Added s.mem c co kind ep m')
    (k : EndKind) (d : Dst) (e : ℕ) :
    { s with mem := m' }.Registered k d e ↔ s.Registered k d e ∨
      k = kind ∧ d = ⟨svr, ep.strName, ep.nMode⟩ ∧ e = s.mem.ends.next := by
  constructor
  · rintro ⟨b, cb, ep', hb, hcb, hmem, he, hname, hmode⟩
    dsimp only at hb hcb he
    rw [ha.conns] at hcb
    rw [ha.ends] at he
    by_cases hbc : b = c
    · subst hbc
      rw [if_pos rfl] at hcb
      obtain rfl := Option.some.inj hcb
      by_cases hen : e = s.mem.ends.next
      · rw [if_pos hen] at he
        obtain rfl := Option.some.inj he
        have hsvr := hs.connInj _ _ b hb hl
        have hk : k = kind := by
          by_contra hk
          rw [MqConnection.list_setList, if_neg hk] at hmem
          exact hs.mem.next_notMem hc (hen ▸ MqConnection.mem_endpoints.mpr ⟨k, hmem⟩)
        refine Or.inr ⟨hk, ?_, hen⟩
        rw [← hsvr, hname, hmode]
      · rw [if_neg hen] at he
        rw [MqConnection.list_setList] at hmem
        refine Or.inl ⟨b, co, ep', hb, hc, ?_, he, hname, hmode⟩
        by_cases hk : k = kind
        · subst hk
          rw [if_pos rfl] at hmem
          simpa [hen] using hmem
        · rwa [if_neg hk] at hmem
    · rw [if_neg hbc] at hcb
      have hen : e ≠ s.mem.ends.next := by
        rintro rfl
        exact hs.mem.next_notMem hcb (MqConnection.mem_endpoints.mpr ⟨k, hmem⟩)
      rw [if_neg hen] at he
      exact Or.inl ⟨b, cb, ep', hb, hcb, hmem, he, hname, hmode⟩
  · rintro (⟨b, cb, ep', hb, hcb, hmem, he, hname, hmode⟩ | ⟨rfl, rfl, rfl⟩)
    · have hen : e ≠ s.mem.ends.next := Nat.ne_of_lt (Heap.lt_next he)
      have he' : m'.ends.cell e = some ep' := by rw [ha.ends, if_neg hen, he]
      by_cases hbc : b = c
      · subst hbc
        obtain rfl := Option.some.inj (hc.symm.trans hcb)
        refine ⟨b, _, ep', hb, by dsimp only; rw [ha.conns, if_pos rfl], ?_, he', hname, hmode⟩
        rw [MqConnection.list_setList]
        by_cases hk : k = kind
        · subst hk
          rw [if_pos rfl]
          exact List.mem_append_left _ hmem
        · rwa [if_neg hk]
      · exact ⟨b, cb, ep', hb, by dsimp only; rw [ha.conns, if_neg hbc, hcb], hmem, he', hname, hmode⟩
    · refine ⟨c, _, ep, hl, by dsimp only; rw [ha.conns, if_pos rfl], ?_,
        by dsimp only; rw [ha.ends, if_pos rfl], rfl, rfl⟩
      rw [MqConnection.list_setList, if_pos rfl]
      exact List.mem_append_right _ (List.mem_singleton.mpr rfl)

theorem owned_removed (hs : s.Owned) {e : ℕ} (hc : s.mem.conns.cell c = some co)
    (he : e ∈ co.list kind) (hr : Mem.Removed s.mem c co kind e m') : { s with mem := m' }.Owned :=
  owned_changed hs hc (hs.mem.removed hc he hr) hr.conns

theorem registered_removed (hs : s.Owned) {e : ℕ} (hc : s.mem.conns.cell c = some co)
    (he : e ∈ co.list kind) (hr : Mem.Removed s.mem c co kind e m')
    (k : EndKind) (d : Dst) (x : ℕ) :
    { s with mem := m' }.Registered k d x ↔ s.Registered k d x ∧ x ≠ e := by
  have hnd := hs.mem.nodup c co hc
  have hkind : ∀ k x, x ∈ (co.setList kind ((co.list kind).erase e)).list k ↔
      x ∈ co.list k ∧ x ≠ e := by
    intro k x
    have hPC := List.nodup_append.mp hnd
    have hlist : (co.list kind).Nodup := by
      cases kind
      · exact hPC.1
      · exact hPC.2.1
    rw [MqConnection.list_setList]
    by_cases hk : k = kind
    · subst hk
      rw [if_pos rfl, hlist.mem_erase_iff, and_comm]
    · rw [if_neg hk]
      refine ⟨fun hx => ⟨hx, ?_⟩, And.left⟩
      rintro rfl
      cases k <;> cases kind
      · exact hk rfl
      · exact hPC.2.2 x hx x he rfl
      · exact hPC.2.2 x he x hx rfl
      · exact hk rfl
  constructor
  · rintro ⟨b, cb, ep, hb, hcb, hmem, hx, hname, hmode⟩
    dsimp only at hb hcb hx
    rw [hr.ends] at hx
    rw [hr.conns] at hcb
    by_cases hxe : x = e
    · rw [if_pos hxe] at hx
      cases hx
    · rw [if_neg hxe] at hx
      refine ⟨?_, hxe⟩
      by_cases hbc : b = c
      · subst hbc
        rw [if_pos rfl] at hcb
        obtain rfl := Option.some.inj hcb
        exact ⟨b, co, ep, hb, hc, ((hkind k x).mp hmem).1, hx, hname, hmode⟩
      · rw [if_neg hbc] at hcb
        exact ⟨b, cb, ep, hb, hcb, hmem, hx, hname, hmode⟩
  · rintro ⟨⟨b, cb, ep, hb, hcb, hmem, hx, hname, hmode⟩, hxe⟩
    have hx' : m'.ends.cell x = some ep := by rw [hr.ends, if_neg hxe, hx]
    by_cases hbc : b = c
    · subst hbc
      obtain rfl := Option.some.inj (hc.symm.trans hcb)
      exact ⟨b, _, ep, hb, by dsimp only; rw [hr.conns, if_pos rfl], (hkind k x).mpr ⟨hmem, hxe⟩,
        hx', hname, hmode⟩
    · exact ⟨b, cb, ep, hb, by dsimp only; rw [hr.conns, if_neg hbc, hcb], hmem, hx', hname, hmode⟩

theorem owned_down (hs : s.Owned) (hc : s.mem.conns.cell c = some co)
    (hd : Mem.Down s.mem c co m') : { s with mem := m' }.Owned :=
  owned_changed hs hc (hs.mem.down hc hd) hd.conns

theorem registered_down (hs : s.Owned) (hl : s.mapConn.lookup svr = some c)
    (hc : s.mem.conns.cell c = some co) (hd : Mem.Down s.mem c co m')
    (k : EndKind) (d : Dst) (x : ℕ) :
    { s with mem := m' }.Registered k d x ↔ s.Registered k d x ∧ d.strMQSvr ≠ svr := by
  constructor
  · rintro ⟨b, cb, ep, hb, hcb, hmem, hx, hname, hmode⟩
    dsimp only at hb hcb hx
    rw [hd.conns] at hcb
    rw [hd.ends] at hx
    have hbc : b ≠ c := by
      rintro rfl
      rw [if_pos rfl] at hcb
      obtain rfl := Option.some.inj hcb
      cases k <;> cases hmem
    rw [if_neg hbc] at hcb
    have hxc : x ∉ co.endpoints := fun h =>
      hbc (hs.mem.disjoint b c cb co x hcb hc (MqConnection.mem_endpoints.mpr ⟨k, hmem⟩) h)
    rw [if_neg hxc] at hx
    refine ⟨⟨b, cb, ep, hb, hcb, hmem, hx, hname, hmode⟩, fun hsvr => ?_⟩
    rw [hsvr, hl] at hb
    exact hbc (Option.some.inj hb).symm
  · rintro ⟨⟨b, cb, ep, hb, hcb, hmem, hx, hname, hmode⟩, hsvr⟩
    have hbc : b ≠ c := by
      rintro rfl
      exact hsvr (hs.connInj _ _ b hb hl)
    have hxc : x ∉ co.endpoints := fun h =>
      hbc (hs.mem.disjoint b c cb co x hcb hc (MqConnection.mem_endpoints.mpr ⟨k, hmem⟩) h)
    exact ⟨b, cb, ep, hb, by dsimp only; rw [hd.conns, if_neg hbc, hcb], hmem,
      by dsimp only; rw [hd.ends, if_neg hxc, hx], hname, hmode⟩

end Endpoints

end AppUtil.Mq.MqMgr
