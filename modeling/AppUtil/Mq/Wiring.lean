import AppUtil.Mq.Handles

/-! # The members of `MqConnection` and the objects of the library

Each member keeps the memory wired to the library as `Attached` says. -/
namespace AppUtil.Mq
open AppUtil.Lib AppUtil.Lib.Lifetime
set_option autoImplicit false

/-! ## `ReleaseDst` -/

namespace Attached
variable {m : Cms} {C : ℕ → Option MqConnection} {D : ℕ → Option MqEndpoint} {e : ℕ}
  {ep : MqEndpoint}

/-- Writing back what is there. -/
theorem update_self {E : List (Event CmsObj)} {n : ℕ} (h : Attached E n C D) {ep' : MqEndpoint}
    (he : D e = some ep) (hep : ep' = ep) : Attached E n C (Function.update D e (some ep')) := by
  rw [hep, ← he, Function.update_eq_self]
  exact h

theorem releaseDestination (h : Attached m.events m.next C D) (he : D e = some ep) :
    Attached (Mq.releaseDestination m ep.pDestination).events
      (Mq.releaseDestination m ep.pDestination).next C
      (Function.update D e (some { ep with pDestination := none })) := by
  cases hd : ep.pDestination with
  | none => exact h.update_self he (by rw [← hd])
  | some d =>
    refine h.dropChild he (Or.inl hd) (fun y => ?_) (fun y hy => by cases hy) rfl
    constructor
    · rintro (hy | hy)
      · cases hy
      · refine ⟨Or.inr hy, ?_⟩
        rintro rfl
        exact h.twoSlots e ep y he hd hy
    · rintro ⟨hy | hy, hne⟩
      · rw [hd] at hy
        exact absurd (Option.some.inj hy).symm hne
      · exact Or.inr hy

/-- Closing and deleting, or closing in vain: either way the object is released. -/
theorem releaseCp (h : Attached m.events m.next C D) (he : D e = some ep)
    (hd : ep.pDestination = none) :
    Attached (Mq.releaseCp m ep.pCp).events (Mq.releaseCp m ep.pCp).next C
      (Function.update D e (some { ep with pCp := none })) := by
  cases hp : ep.pCp with
  | none => exact h.update_self he (by rw [← hp])
  | some x =>
    have hx : ep.Holds x := Or.inr hp
    have hholds : ∀ y, MqEndpoint.Holds { ep with pCp := none } y ↔ ep.Holds y ∧ y ≠ x := by
      intro y
      constructor
      · rintro (hy | hy)
        · rw [show ep.pDestination = some y from hy] at hd
          cases hd
        · cases hy
      · rintro ⟨hy | hy, hne⟩
        · rw [hd] at hy
          cases hy
        · rw [hp] at hy
          exact absurd (Option.some.inj hy).symm hne
    have hslots : ∀ y, ({ ep with pCp := none } : MqEndpoint).pDestination = some y →
        ({ ep with pCp := none } : MqEndpoint).pCp ≠ some y := fun _ _ => nofun
    cases ht : m.closeThrows x with
    | true =>
      have hev : (Mq.releaseCp m (some x)).events = .died (.child x) :: m.events := by
        simp [Mq.releaseCp, ht, CmsCall.event]
      have hnext : (Mq.releaseCp m (some x)).next = m.next := by simp [Mq.releaseCp, ht]
      rw [hev, hnext]
      exact h.dropChild he hx hholds hslots rfl
    | false =>
      have hev : (Mq.releaseCp m (some x)).events =
          .died (.child x) :: .used (.child x) :: m.events := by
        simp [Mq.releaseCp, ht, CmsCall.event]
      have hnext : (Mq.releaseCp m (some x)).next = m.next := by simp [Mq.releaseCp, ht]
      rw [hev, hnext]
      exact (h.used (h.held e ep x he hx).1).dropChild he hx hholds hslots rfl

/-- An endpoint that holds nothing of the library forgets the session. -/
theorem forget {E : List (Event CmsObj)} {n : ℕ} (h : Attached E n C D) (he : D e = some ep)
    (hd : ep.pDestination = none) (hp : ep.pCp = none) :
    Attached E n C (Function.update D e (some { ep with pSession := none })) := by
  refine h.reshape ⟨fun c co hc _ => ⟨co, hc, rfl, rfl⟩,
    fun c co hc _ => ⟨co, hc, rfl, rfl, fun _ he _ => he⟩, fun a ap ha => ?_, fun a ap x ha hx => ?_⟩
  · by_cases hae : a = e
    · subst hae
      rw [Function.update_self] at ha
      exact Or.inl (Option.some.inj ha ▸ ⟨hd, hp, rfl⟩)
    · rw [Function.update_of_ne hae] at ha
      exact Or.inr ha
  · have hae : a ≠ e := by
      rintro rfl
      obtain rfl := Option.some.inj (he.symm.trans ha)
      rcases hx with hx | hx
      · rw [hd] at hx
        cases hx
      · rw [hp] at hx
        cases hx
    rw [Function.update_of_ne hae, ha]

end Attached

namespace Mem

/-- The memory and the library agree. -/
def Wired (m : Mem) : Prop := Attached m.cms.events m.cms.next m.conns.cell m.ends.cell

theorem wired_of_cells {m : Mem} {C : ℕ → Option MqConnection} {D : ℕ → Option MqEndpoint}
    (hC : m.conns.cell = C) (hD : m.ends.cell = D) (h : Attached m.cms.events m.cms.next C D) :
    m.Wired := by
  subst hC hD
  exact h

variable {m m' : Mem} {c e : ℕ} {co : MqConnection} {ep : MqEndpoint}

/-! ## Endpoints -/

theorem destroy_wired (h : m.Wired) (he : m.ends.cell e = some ep) :
    { m with
      ends := m.ends.modify e MqEndpoint.cleared
      cms := releaseDst m.cms ep.pDestination ep.pCp }.Wired := by
  have h₁ := h.releaseDestination he
  have h₂ := h₁.releaseCp (Function.update_self ..) rfl
  have h₃ := h₂.forget (Function.update_self ..) rfl rfl
  simp only [Function.update_idem] at h₃
  exact wired_of_cells rfl (Heap.modify_eq_update MqEndpoint.cleared he) h₃

theorem destroyAll_wired {l : List ℕ} (h : m.Wired) (hx : l.foldlM destroy m = .ok m') :
    m'.Wired := by
  refine foldlM_inv (P := Wired) (fun m e m' _ h hx => ?_) h hx
  obtain ⟨ep, he, -⟩ := bind_eq_ok.mp hx
  have he := Heap.deref_eq_ok.mp he
  rw [destroy_ok he] at hx
  obtain rfl := Except.ok.inj hx
  exact destroy_wired h he

/-- The cells of the endpoints after a change that only takes bare endpoints away. -/
theorem Wired.without (h : m.Wired) (hcms : m'.cms = m.cms) (hconns : m'.conns.cell = m.conns.cell)
    (hends : ∀ a ap, m'.ends.cell a = some ap → m.ends.cell a = some ap)
    (hkept : ∀ a ap, m.ends.cell a = some ap → ¬ ap.Bare → m'.ends.cell a = some ap) : m'.Wired := by
  refine wired_of_cells hconns rfl ?_
  rw [hcms]
  refine h.reshape ⟨fun c co hc _ => ⟨co, hc, rfl, rfl⟩,
    fun c co hc _ => ⟨co, hc, rfl, rfl, fun _ he _ => he⟩, fun a ap ha => Or.inr (hends a ap ha), ?_⟩
  exact fun a ap x ha hx => hkept a ap ha fun hb => hb.not_holds x hx

theorem deleteEnd_wired (h : m.Wired) (hbare : ∀ ep, m.ends.cell e = some ep → ep.Bare)
    (hx : m.deleteEnd e = .ok m') : m'.Wired := by
  obtain ⟨h', hf, -⟩ := bind_eq_ok.mp hx
  obtain ⟨⟨ep, he⟩, -⟩ := Heap.free_eq_ok hf
  rw [deleteEnd_ok he] at hx
  obtain rfl := Except.ok.inj hx
  refine h.without rfl rfl (fun a ap ha => ?_) fun a ap ha hne => ?_
  · rw [Heap.remove_cell] at ha
    by_cases hae : a = e
    · rw [if_pos hae] at ha
      cases ha
    · rwa [if_neg hae] at ha
  · have hae : a ≠ e := by
      rintro rfl
      exact hne (hbare ap ha)
    rw [Heap.remove_cell, if_neg hae, ha]

theorem deleteAll_wired {l : List ℕ} (h : m.Wired)
    (hbare : ∀ e ∈ l, ∀ ep, m.ends.cell e = some ep → ep.Bare)
    (hx : l.foldlM deleteEnd m = .ok m') : m'.Wired := by
  refine (foldlM_inv
    (P := fun m => m.Wired ∧ ∀ e ∈ l, ∀ ep, m.ends.cell e = some ep → ep.Bare)
    (fun m e m' he h hx => ⟨deleteEnd_wired h.1 (h.2 e he) hx, fun a ha ap hap => ?_⟩)
    ⟨h, hbare⟩ hx).1
  obtain ⟨h', hf, -⟩ := bind_eq_ok.mp hx
  obtain ⟨⟨ep, hep⟩, -⟩ := Heap.free_eq_ok hf
  rw [deleteEnd_ok hep] at hx
  obtain rfl := Except.ok.inj hx
  rw [Heap.remove_cell] at hap
  by_cases hae : a = e
  · rw [if_pos hae] at hap
    cases hap
  · rw [if_neg hae] at hap
    exact h.2 a ha ap hap

/-! ## Taking a connection down -/

theorem dropSession_wired (h : m.Wired) (hc : m.conns.cell c = some co)
    (hbare : ∀ e ∈ co.endpoints, ∀ ep, m.ends.cell e = some ep → ep.Bare)
    (hx : m.dropSession c = .ok m') : m'.Wired := by
  simp only [dropSession, Heap.deref_ok hc, ok_bind, pure_eq_ok] at hx
  obtain rfl := Except.ok.inj hx
  refine wired_of_cells (Heap.modify_eq_update _ hc) rfl ?_
  cases hs : co.pSession with
  | none =>
    have hco : { co with pSession := none } = co := by rw [← hs]
    rw [hco, ← hc, Function.update_eq_self]
    exact h
  | some s => exact h.dropSession hc hs hbare

theorem dropConnection_wired (h : m.Wired) (hc : m.conns.cell c = some co)
    (hs : co.pSession = none) (hx : m.dropConnection c = .ok m') : m'.Wired := by
  simp only [dropConnection, Heap.deref_ok hc, ok_bind, pure_eq_ok] at hx
  obtain rfl := Except.ok.inj hx
  refine wired_of_cells (Heap.modify_eq_update _ hc) rfl ?_
  cases hk : co.pConnection with
  | none =>
    have hco : { co with pConnection := none } = co := by rw [← hk]
    rw [hco, ← hc, Function.update_eq_self]
    exact h
  | some k => exact h.dropConnection hc hk hs

theorem destroyConn_wired (h : m.Wired) (hc : m.conns.cell c = some co)
    (hl : ∀ e ∈ co.endpoints, ∃ ep, m.ends.cell e = some ep)
    (hx : m.destroyConn c = .ok m') : m'.Wired := by
  have hp : ∀ e ∈ co.listProducer, ∃ ep, m.ends.cell e = some ep :=
    fun e he => hl e (List.mem_append_left _ he)
  obtain ⟨m₁, hx₁, hs₁, -, hc₁⟩ := destroyAll_ok hp
  have hq : ∀ e ∈ co.listConsumer, ∃ ep, m₁.ends.cell e = some ep := by
    intro e he
    obtain ⟨ep, hep⟩ := hl e (List.mem_append_right _ he)
    rw [hc₁, hep]
    by_cases hP : e ∈ co.listProducer
    · exact ⟨ep.cleared, by simp [hP]⟩
    · exact ⟨ep, by simp [hP]⟩
  obtain ⟨m₂, hx₂, hs₂, -, hc₂⟩ := destroyAll_ok hq
  have hw₂ : m₂.Wired := destroyAll_wired (destroyAll_wired h hx₁) hx₂
  have hcell₂ : m₂.conns.cell c = some co := by rw [hs₂.conns, hs₁.conns, hc]
  -- both loops have cleared every endpoint of the connection
  have hbare : ∀ e ∈ co.endpoints, ∀ ep, m₂.ends.cell e = some ep → ep.Bare := by
    intro e he ep hep
    rw [hc₂, hc₁] at hep
    have hmap : ∀ {o : Option MqEndpoint}, o.map MqEndpoint.cleared = some ep → ep.Bare := by
      intro o ho
      obtain ⟨ep₀, -, rfl⟩ := Option.map_eq_some_iff.mp ho
      exact ep₀.cleared_bare
    rcases List.mem_append.mp he with hP | hC
    · rw [if_pos hP] at hep
      by_cases hC : e ∈ co.listConsumer
      · rw [if_pos hC] at hep
        exact hmap hep
      · rw [if_neg hC] at hep
        exact hmap hep
    · rw [if_pos hC] at hep
      exact hmap hep
  obtain ⟨m₃, hx₃, -, -, -, hn₃⟩ := dropSession_ok hcell₂
  have hcell₃ : m₃.conns.cell c = some { co with pSession := none } := by
    simp [hn₃, Heap.modify_cell, hcell₂]
  have hw₃ : m₃.Wired := dropSession_wired hw₂ hcell₂ hbare hx₃
  simp only [destroyConn, Heap.deref_ok hc, ok_bind, hx₁, hx₂, hx₃] at hx
  exact dropConnection_wired hw₃ hcell₃ rfl hx

theorem clearList_wired (kind : EndKind) (h : m.Wired) (hc : m.conns.cell c = some co)
    (hnd : (co.list kind).Nodup) (hl : ∀ e ∈ co.list kind, ∃ ep, m.ends.cell e = some ep)
    (hbare : ∀ e ∈ co.list kind, ∀ ep, m.ends.cell e = some ep → ep.Bare)
    (hx : m.clearList c kind = .ok m') : m'.Wired := by
  have hlisted : ∀ e ∈ co.list kind, m.listed e = true :=
    fun e he => listed_of_mem hc (MqConnection.mem_endpoints.mpr ⟨kind, he⟩)
  obtain ⟨m₁, hx₁, hs, -, hcell, -⟩ := deleteAll_ok hnd hl hlisted
  have hw : m₁.Wired := deleteAll_wired h hbare hx₁
  have hc₁ : m₁.conns.cell c = some co := by rw [hs.conns, hc]
  simp only [clearList, Heap.deref_ok hc, ok_bind, hx₁, pure_eq_ok] at hx
  obtain rfl := Except.ok.inj hx
  refine wired_of_cells (Heap.modify_eq_update _ hc₁) rfl ?_
  refine hw.reshape (Attached.reshaped_setList kind [] hc₁ (fun e he hlive => ?_)
    (fun _ _ => Or.inr) fun _ _ _ ha _ => ha)
  -- the members of the cleared list are dead
  rw [hcell, if_pos he] at hlive
  exact absurd rfl hlive

theorem clearLists_wired (h : m.Wired) (hc : m.conns.cell c = some co) (hnd : co.endpoints.Nodup)
    (hl : ∀ e ∈ co.endpoints, ∃ ep, m.ends.cell e = some ep)
    (hbare : ∀ e ∈ co.endpoints, ∀ ep, m.ends.cell e = some ep → ep.Bare)
    (hx : m.clearLists c = .ok m') : m'.Wired := by
  obtain ⟨hndP, hndC, hPC⟩ := List.nodup_append.mp hnd
  have hlP : ∀ e ∈ co.list .producer, ∃ ep, m.ends.cell e = some ep :=
    fun e he => hl e (List.mem_append_left _ he)
  obtain ⟨m₁, hx₁, -, -, hn₁, he₁, -⟩ := clearList_ok .producer hc hndP hlP
  have hw₁ := clearList_wired .producer h hc hndP hlP
    (fun e he => hbare e (List.mem_append_left _ he)) hx₁
  have hc₁ : m₁.conns.cell c = some (co.setList .producer []) := by simp [hn₁]
  have hsame : ∀ e ∈ co.listConsumer, m₁.ends.cell e = m.ends.cell e := by
    intro e he
    have hP : e ∉ co.list .producer := fun hp => hPC e hp e he rfl
    rw [he₁, if_neg hP]
  simp only [clearLists, hx₁, ok_bind] at hx
  refine clearList_wired .consumer hw₁ hc₁ hndC (fun e he => ?_) (fun e he ep hep => ?_) hx
  · rw [hsame e he]
    exact hl e (List.mem_append_right _ he)
  · rw [hsame e he] at hep
    exact hbare e (List.mem_append_right _ he) ep hep

theorem disConn_wired (h : m.Wired) (hc : m.conns.cell c = some co) (hnd : co.endpoints.Nodup)
    (hl : ∀ e ∈ co.endpoints, ∃ ep, m.ends.cell e = some ep) (hx : m.disConn c = .ok m') :
    m'.Wired := by
  obtain ⟨m₁, hx₁, hd⟩ := destroyConn_ok hc hl
  have hw := destroyConn_wired h hc hl hx₁
  have hcleared : ∀ e ∈ co.endpoints, ∀ ep, m₁.ends.cell e = some ep →
      ∃ ep₀, m.ends.cell e = some ep₀ ∧ ep = ep₀.cleared := by
    intro e he ep hep
    rw [hd.ends, if_pos he] at hep
    obtain ⟨ep₀, h₀, rfl⟩ := Option.map_eq_some_iff.mp hep
    exact ⟨ep₀, h₀, rfl⟩
  have hc₁ : m₁.conns.cell c = some { co with pSession := none, pConnection := none } := by
    rw [hd.conns, if_pos rfl]
  simp only [disConn, hx₁, ok_bind] at hx
  refine clearLists_wired hw hc₁ hnd (fun e he => ?_) (fun e he ep hep => ?_) hx
  · have he : e ∈ co.endpoints := he
    obtain ⟨ep, hep⟩ := hl e he
    exact ⟨ep.cleared, by rw [hd.ends, if_pos he, hep]; rfl⟩
  · obtain ⟨ep₀, -, rfl⟩ := hcleared e he ep hep
    exact ep₀.cleared_bare

/-! ## Connecting -/

theorem conn_wired (out : ConnOutcome) (h : m.Wired) (hc : m.conns.cell c = some co)
    (hs : co.pSession = none) {r : Bool} (hx : m.conn c out = .ok (r, m')) : m'.Wired := by
  simp only [conn, Heap.deref_ok hc, ok_bind, pure_eq_ok] at hx
  -- the library's connection is there, and started
  have h₁ := h.openConnection hc hs
  have h₂ := h₁.used (o := .connection m.cms.next) (h₁.conn c _ _ (Function.update_self ..) rfl)
  have hcell := Heap.modify_eq_update (fun co : MqConnection => { co with pConnection := some m.cms.next }) hc
  cases out with
  | factoryThrows =>
    cases hx
    exact h
  | startThrows =>
    cases hx
    exact wired_of_cells hcell rfl h₂
  | sessionThrows =>
    cases hx
    exact wired_of_cells hcell rfl h₂
  | connected =>
    cases hx
    have h₃ := h₂.openSession (Function.update_self ..) rfl hs
    have hc₁ : (m.conns.modify c fun co => { co with pConnection := some m.cms.next }).cell c =
        some { co with pConnection := some m.cms.next } := by rw [hcell, Function.update_self]
    have hcell₂ := Heap.modify_eq_update
      (fun co : MqConnection => { co with pSession := some (m.cms.next + 1) }) hc₁
    rw [hcell, Function.update_idem] at hcell₂
    rw [Function.update_idem] at h₃
    exact wired_of_cells hcell₂ rfl h₃

/-! ## Adding and deleting an endpoint -/

theorem pushEnd_wired (kind : EndKind) (strName : Str) (nType : MqMsgMode) (cb : Option ℕ) (user : ℕ)
    (h : m.Wired) (hc : m.conns.cell c = some co) :
    { m with
      ends := m.ends.alloc ⟨none, none, none, nType, strName, cb, user⟩
      conns := m.conns.modify c fun co =>
        co.setList kind (co.list kind ++ [m.ends.next]) }.Wired := by
  have hnone : m.ends.cell m.ends.next = none := (m.ends.fresh _ (Nat.le_refl _)).1
  refine wired_of_cells (Heap.modify_eq_update _ hc) rfl ?_
  refine h.reshape (Attached.reshaped_setList kind _ hc (fun e he _ => List.mem_append_left _ he)
    (fun a ap ha => ?_) fun a ap x ha _ => Heap.alloc_cell_of_live _ ha)
  rw [Heap.alloc_cell] at ha
  by_cases han : a = m.ends.next
  · rw [if_pos han] at ha
    exact Or.inl (Option.some.inj ha ▸ ⟨rfl, rfl, rfl⟩)
  · rw [if_neg han] at ha
    exact Or.inr ha

/-- `Create` on an endpoint of the connection whose session it is given. -/
theorem create_wired (kind : EndKind) (out : CreateOutcome) (h : m.Wired)
    (hc : m.conns.cell c = some co) (he : m.ends.cell e = some ep) (hmem : e ∈ co.endpoints)
    (hbare : ep.Bare) (hx : m.create kind e co.pSession out = .ok m') : m'.Wired := by
  cases hs : co.pSession with
  | none =>
    rw [hs] at hx
    exact Except.ok.inj hx ▸ h
  | some s =>
    rw [hs] at hx
    simp only [create, Heap.deref_ok he, ok_bind, pure_eq_ok] at hx
    have hcell₁ := Heap.modify_eq_update (fun ep : MqEndpoint => { ep with pSession := some s }) he
    have h₁ := h.attach hc hmem hs he
    -- the destination
    have h₂ := h₁.bear (e := e) { ep with pSession := some s, pDestination := some m.cms.next }
      hc hmem hs (Function.update_self ..)
      (fun y => by simp [MqEndpoint.Holds, hbare.1, hbare.2.1, eq_comm])
      (fun y _ => by simp [hbare.2.1]) rfl
    -- the producer or consumer
    have h₃ := h₂.bear (e := e)
      { ep with
        pSession := some s, pDestination := some m.cms.next, pCp := some (m.cms.next + 1) }
      hc hmem hs (Function.update_self ..)
      (fun y => by simp [MqEndpoint.Holds, hbare.2.1, eq_comm])
      (fun y hy => by
        obtain rfl := Option.some.inj hy
        simp) rfl
    have h₄ := h₃.used (o := .child (m.cms.next + 1))
      (h₃.held e _ _ (Function.update_self ..) (Or.inr rfl)).1
    rw [Function.update_idem] at h₂
    rw [Function.update_idem, Function.update_idem] at h₃ h₄
    have hcell₂ : ((m.ends.modify e fun ep => { ep with pSession := some s }).modify e
        fun ep => { ep with pDestination := some m.cms.next }).cell =
        Function.update m.ends.cell e
          (some { ep with pSession := some s, pDestination := some m.cms.next }) := by
      rw [Heap.modify_eq_update _ (by rw [hcell₁, Function.update_self]), hcell₁, Function.update_idem]
    have hcell₃ : (((m.ends.modify e fun ep => { ep with pSession := some s }).modify e
        fun ep => { ep with pDestination := some m.cms.next }).modify e
          fun ep => { ep with pCp := some (m.cms.next + 1) }).cell =
        Function.update m.ends.cell e (some { ep with
          pSession := some s, pDestination := some m.cms.next, pCp := some (m.cms.next + 1) }) := by
      rw [Heap.modify_eq_update _ (by rw [hcell₂, Function.update_self]), hcell₂, Function.update_idem]
    cases out with
    | dstThrows =>
      cases hx
      exact wired_of_cells rfl hcell₁ h₁
    | cpThrows =>
      cases hx
      exact wired_of_cells rfl hcell₂ h₂
    | created =>
      cases hx
      exact wired_of_cells rfl hcell₃ h₄
    | configureThrows =>
      cases hx
      exact wired_of_cells rfl hcell₃ h₄

theorem createEnd_wired (kind : EndKind) (out : CreateOutcome) (h : m.Wired)
    (hc : m.conns.cell c = some co) (he : m.ends.cell e = some ep) (hmem : e ∈ co.endpoints)
    (hbare : ep.Bare) (hx : m.createEnd c kind e out = .ok m') : m'.Wired := by
  simp only [createEnd, Heap.deref_ok hc, ok_bind] at hx
  exact create_wired kind out h hc he hmem hbare hx

theorem addEnd_wired (kind : EndKind) (strName : Str) (nType : MqMsgMode) (cb : Option ℕ) (user : ℕ)
    {env : Env} {p : Option ℕ} (h : m.Wired)
    (hx : m.addEnd c kind strName nType cb user env = .ok (p, m')) : m'.Wired := by
  cases hnew : env.newEnd with
  | false =>
    simp only [addEnd, hnew, if_true] at hx
    cases hx
    exact h
  | true =>
    simp only [addEnd, hnew, Bool.true_eq_false, if_false] at hx
    obtain ⟨⟨e, m₁⟩, hpush, hx⟩ := bind_eq_ok.mp hx
    obtain ⟨co, hc, -⟩ := bind_eq_ok.mp hpush
    have hc := Heap.deref_eq_ok.mp hc
    have hw := pushEnd_wired kind strName nType cb user h hc
    rw [pushEnd_ok kind strName nType cb user hc] at hpush
    cases hpush
    obtain ⟨m₂, hx₂, hr⟩ := bind_eq_ok.mp hx
    cases hr
    set co₁ := co.setList kind (co.list kind ++ [m.ends.next]) with hco₁
    have hc₁ : (m.conns.modify c fun co =>
        co.setList kind (co.list kind ++ [m.ends.next])).cell c = some co₁ := by
      rw [Heap.modify_eq_update _ hc, Function.update_self]
    have hmem : m.ends.next ∈ co₁.endpoints := by
      refine MqConnection.mem_endpoints.mpr ⟨kind, ?_⟩
      rw [hco₁, MqConnection.list_setList, if_pos rfl]
      exact List.mem_append_right _ (List.mem_singleton.mpr rfl)
    exact createEnd_wired kind env.create hw hc₁ (Heap.alloc_cell_next ..) hmem ⟨rfl, rfl, rfl⟩ hx₂

theorem delEnd_wired (kind : EndKind) {strName : Str} {nType : MqMsgMode} {r : Bool} (h : m.Wired)
    (hc : m.conns.cell c = some co) (hl : ∀ e ∈ co.endpoints, ∃ ep, m.ends.cell e = some ep)
    (hx : m.delEnd c kind strName nType = .ok (r, m')) : m'.Wired := by
  cases hfind : (co.list kind).find? (m.isMatch strName nType) with
  | none =>
    rw [delEnd_none kind hc hl hfind] at hx
    cases hx
    exact h
  | some e =>
    have hf := findEnd_ok (m := m) strName nType (l := co.list kind)
      fun b hb => hl b (MqConnection.mem_endpoints.mpr ⟨kind, hb⟩)
    rw [hfind] at hf
    obtain ⟨ep, hep⟩ :=
      hl e (MqConnection.mem_endpoints.mpr ⟨kind, List.mem_of_find?_eq_some hfind⟩)
    have hw₁ := destroy_wired h hep
    simp only [delEnd, Heap.deref_ok hc, hf, ok_bind, destroy_ok hep] at hx
    obtain ⟨m₂, hx₂, hr⟩ := bind_eq_ok.mp hx
    cases hr
    have hcell₁ := Heap.modify_eq_update MqEndpoint.cleared hep
    have hw₂ : m₂.Wired := by
      refine deleteEnd_wired hw₁ (fun ep' hep' => ?_) hx₂
      rw [hcell₁, Function.update_self] at hep'
      exact Option.some.inj hep' ▸ ep.cleared_bare
    -- the endpoint is dead by now, so that the list may lose it
    have hep₁ : (m.ends.modify e MqEndpoint.cleared).cell e = some ep.cleared := by
      rw [hcell₁, Function.update_self]
    obtain rfl := Except.ok.inj ((deleteEnd_ok hep₁).symm.trans hx₂)
    refine wired_of_cells (Heap.modify_eq_update _ hc) rfl ?_
    refine hw₂.reshape (Attached.reshaped_setList kind _ hc (fun a ha hlive => ?_)
      (fun _ _ => Or.inr) fun _ _ _ ha _ => ha)
    have hae : a ≠ e := by
      rintro rfl
      exact hlive (if_pos rfl)
    exact (List.mem_erase_of_ne hae).mpr ha

/-! ## Sending -/

theorem sendMsg_wired {p : ℕ} {strMsg : Str} {out : SendOutcome} {r : Bool} (h : m.Wired)
    (hx : m.sendMsg p strMsg out = .ok (r, m')) : m'.Wired := by
  obtain ⟨ep, hp, hx⟩ := bind_eq_ok.mp hx
  have hp := Heap.deref_eq_ok.mp hp
  cases hs : ep.pSession with
  | none =>
    simp only [hs, pure_eq_ok] at hx
    cases hx
    exact h
  | some s =>
    obtain ⟨c, co, hc, -, hco⟩ := h.user p ep s hp hs
    have h₁ := h.used (h.session c co s hc hco).1
    simp only [hs, pure_eq_ok] at hx
    by_cases hm : out = .msgThrows
    · rw [if_pos hm] at hx
      cases hx
      exact h₁
    · rw [if_neg hm] at hx
      cases hcp : ep.pCp with
      | none =>
        simp only [hcp] at hx
        cases hx
        exact h₁
      | some x =>
        simp only [hcp] at hx
        cases hx
        exact h₁.used (h₁.held p ep x hp (Or.inr hcp)).1

end Mem
end AppUtil.Mq
