import AppUtil.Mq.Connection
import AppUtil.Lib.Run

/-! # What the members of `MqConnection` do to the memory

One lemma for each member: it does not fault when the objects it meets are live, and this is what
it leaves in the two heaps. Nothing here looks at the library's log. -/
namespace AppUtil.Mq.Mem
open AppUtil.Lib
set_option autoImplicit false

/-! ## Endpoints -/

theorem destroy_ok {m : Mem} {e : ℕ} {ep : MqEndpoint} (he : m.ends.cell e = some ep) :
    m.destroy e = .ok { m with
      ends := m.ends.modify e MqEndpoint.cleared
      cms := releaseDst m.cms ep.pDestination ep.pCp } := by
  simp [destroy, Heap.deref_ok he]

theorem deleteEnd_ok {m : Mem} {e : ℕ} {ep : MqEndpoint} (he : m.ends.cell e = some ep) :
    m.deleteEnd e = .ok { m with
      ends := m.ends.remove e
      deletions := ⟨e, ep, m.listed e⟩ :: m.deletions } := by
  simp [deleteEnd, Heap.free_ok he, he]

/-- `m` and `m'` agree on everything but the endpoints' own contents and the library. -/
structure SameShape (m m' : Mem) : Prop where
  conns : m'.conns = m.conns
  next : m'.ends.next = m.ends.next
  sends : m'.sends = m.sends
  throws : m'.cms.closeThrows = m.cms.closeThrows

theorem SameShape.trans {m m' m'' : Mem} (h : SameShape m m') (h' : SameShape m' m'') :
    SameShape m m'' :=
  ⟨h'.conns.trans h.conns, h'.next.trans h.next, h'.sends.trans h.sends, h'.throws.trans h.throws⟩

/-- The loop of `DestroyConn` over one list. -/
theorem destroyAll_ok {m : Mem} {l : List ℕ} (hl : ∀ e ∈ l, ∃ ep, m.ends.cell e = some ep) :
    ∃ m', l.foldlM destroy m = .ok m' ∧ SameShape m m' ∧ m'.deletions = m.deletions ∧
      ∀ e, m'.ends.cell e =
        if e ∈ l then (m.ends.cell e).map MqEndpoint.cleared else m.ends.cell e := by
  induction l generalizing m with
  | nil => exact ⟨m, rfl, ⟨rfl, rfl, rfl, rfl⟩, rfl, fun e => by simp⟩
  | cons a l ih =>
    obtain ⟨ep, ha⟩ := hl a (List.mem_cons_self ..)
    set m₁ : Mem := { m with
      ends := m.ends.modify a MqEndpoint.cleared
      cms := releaseDst m.cms ep.pDestination ep.pCp } with hm₁
    have hcell : ∀ e, m₁.ends.cell e =
        if e = a then (m.ends.cell e).map MqEndpoint.cleared else m.ends.cell e := fun e => rfl
    have hl₁ : ∀ e ∈ l, ∃ ep, m₁.ends.cell e = some ep := by
      intro e he
      obtain ⟨ep', he'⟩ := hl e (List.mem_cons_of_mem a he)
      rw [hcell, he']
      by_cases h : e = a
      · exact ⟨ep'.cleared, by simp [h]⟩
      · exact ⟨ep', by simp [h]⟩
    obtain ⟨m', hx, hs, hd, hc⟩ := ih hl₁
    have hs₁ : SameShape m m₁ := ⟨rfl, rfl, rfl, by simp [hm₁]⟩
    refine ⟨m', ?_, hs₁.trans hs, hd, fun e => ?_⟩
    · rw [List.foldlM_cons, destroy_ok ha, ok_bind]
      exact hx
    · rw [hc, hcell]
      by_cases h : e = a
      · -- an endpoint that is met twice is cleared already
        subst h
        cases m.ends.cell e <;> simp [MqEndpoint.cleared]
      · simp [h]

/-- The loop of `DisConn` over one list, taken while the connection still has the list. -/
theorem deleteAll_ok {m : Mem} {l : List ℕ} (hnd : l.Nodup)
    (hl : ∀ e ∈ l, ∃ ep, m.ends.cell e = some ep) (hlisted : ∀ e ∈ l, m.listed e = true) :
    ∃ m', l.foldlM deleteEnd m = .ok m' ∧ SameShape m m' ∧ m'.cms = m.cms ∧
      (∀ e, m'.ends.cell e = if e ∈ l then none else m.ends.cell e) ∧
      ∀ d ∈ m'.deletions, d ∈ m.deletions ∨
        d.listed = true ∧ d.ptr ∈ l ∧ m.ends.cell d.ptr = some d.obj := by
  induction l generalizing m with
  | nil => exact ⟨m, rfl, ⟨rfl, rfl, rfl, rfl⟩, rfl, fun e => by simp, fun d hd => Or.inl hd⟩
  | cons a l ih =>
    obtain ⟨hal, hnd⟩ := List.nodup_cons.mp hnd
    obtain ⟨ep, ha⟩ := hl a (List.mem_cons_self ..)
    set m₁ : Mem := { m with
      ends := m.ends.remove a
      deletions := ⟨a, ep, m.listed a⟩ :: m.deletions } with hm₁
    have hcell : ∀ e, m₁.ends.cell e = if e = a then none else m.ends.cell e := fun e => rfl
    have hne : ∀ e ∈ l, e ≠ a := fun e he h => hal (h ▸ he)
    obtain ⟨m', hx, hs, hcms, hc, hd⟩ := ih (m := m₁) hnd
      (fun e he => by
        obtain ⟨ep', he'⟩ := hl e (List.mem_cons_of_mem a he)
        exact ⟨ep', by rw [hcell, if_neg (hne e he), he']⟩)
      (fun e he => hlisted e (List.mem_cons_of_mem a he))
    have hs₁ : SameShape m m₁ := ⟨rfl, rfl, rfl, rfl⟩
    refine ⟨m', ?_, hs₁.trans hs, hcms, fun e => ?_, fun d hd' => ?_⟩
    · rw [List.foldlM_cons, deleteEnd_ok ha, ok_bind]
      exact hx
    · rw [hc, hcell]
      by_cases h : e = a <;> simp [h]
    · rcases hd d hd' with hmem | ⟨hlist, hptr, hobj⟩
      · rcases List.mem_cons.mp hmem with rfl | hold
        · exact Or.inr ⟨hlisted a (List.mem_cons_self ..), List.mem_cons_self .., ha⟩
        · exact Or.inl hold
      · rw [hcell, if_neg (hne _ hptr)] at hobj
        exact Or.inr ⟨hlist, List.mem_cons_of_mem a hptr, hobj⟩

/-! ## Taking a connection down -/

/-- The part of `m'` that no member of `MqConnection` changes but `SendMsg`, `AddProducer` and
`AddConsumer`. -/
structure Kept (m m' : Mem) : Prop where
  connsNext : m'.conns.next = m.conns.next
  endsNext : m'.ends.next = m.ends.next
  sends : m'.sends = m.sends
  throws : m'.cms.closeThrows = m.cms.closeThrows

theorem Kept.trans {m m' m'' : Mem} (h : Kept m m') (h' : Kept m' m'') : Kept m m'' :=
  ⟨h'.connsNext.trans h.connsNext, h'.endsNext.trans h.endsNext, h'.sends.trans h.sends,
    h'.throws.trans h.throws⟩

theorem SameShape.kept {m m' : Mem} (h : SameShape m m') : Kept m m' :=
  ⟨by rw [h.conns], h.next, h.sends, h.throws⟩

theorem dropSession_ok {m : Mem} {c : ℕ} {co : MqConnection} (hc : m.conns.cell c = some co) :
    ∃ m', m.dropSession c = .ok m' ∧ Kept m m' ∧ m'.ends = m.ends ∧ m'.deletions = m.deletions ∧
      m'.conns = m.conns.modify c fun co => { co with pSession := none } := by
  simp only [dropSession, Heap.deref_ok hc, ok_bind, pure_eq_ok]
  cases co.pSession <;> exact ⟨_, rfl, ⟨rfl, rfl, rfl, rfl⟩, rfl, rfl, rfl⟩

theorem dropConnection_ok {m : Mem} {c : ℕ} {co : MqConnection} (hc : m.conns.cell c = some co) :
    ∃ m', m.dropConnection c = .ok m' ∧ Kept m m' ∧ m'.ends = m.ends ∧
      m'.deletions = m.deletions ∧
      m'.conns = m.conns.modify c fun co => { co with pConnection := none } := by
  simp only [dropConnection, Heap.deref_ok hc, ok_bind, pure_eq_ok]
  cases co.pConnection <;> exact ⟨_, rfl, ⟨rfl, rfl, rfl, rfl⟩, rfl, rfl, rfl⟩

/-- After `DestroyConn` the session and the connection are gone and the endpoints hold nothing. -/
structure Destroyed (m : Mem) (c : ℕ) (co : MqConnection) (m' : Mem) : Prop where
  kept : Kept m m'
  deletions : m'.deletions = m.deletions
  conns : ∀ b, m'.conns.cell b =
    if b = c then some { co with pSession := none, pConnection := none } else m.conns.cell b
  ends : ∀ e, m'.ends.cell e =
    if e ∈ co.endpoints then (m.ends.cell e).map MqEndpoint.cleared else m.ends.cell e

theorem destroyConn_ok {m : Mem} {c : ℕ} {co : MqConnection} (hc : m.conns.cell c = some co)
    (hl : ∀ e ∈ co.endpoints, ∃ ep, m.ends.cell e = some ep) :
    ∃ m', m.destroyConn c = .ok m' ∧ Destroyed m c co m' := by
  have hp : ∀ e ∈ co.listProducer, ∃ ep, m.ends.cell e = some ep :=
    fun e he => hl e (List.mem_append_left _ he)
  obtain ⟨m₁, hx₁, hs₁, hd₁, hc₁⟩ := destroyAll_ok hp
  have hq : ∀ e ∈ co.listConsumer, ∃ ep, m₁.ends.cell e = some ep := by
    intro e he
    obtain ⟨ep, hep⟩ := hl e (List.mem_append_right _ he)
    rw [hc₁, hep]
    by_cases h : e ∈ co.listProducer
    · exact ⟨ep.cleared, by simp [h]⟩
    · exact ⟨ep, by simp [h]⟩
  obtain ⟨m₂, hx₂, hs₂, hd₂, hc₂⟩ := destroyAll_ok hq
  have hcell₂ : m₂.conns.cell c = some co := by rw [hs₂.conns, hs₁.conns, hc]
  obtain ⟨m₃, hx₃, hk₃, he₃, hd₃, hn₃⟩ := dropSession_ok hcell₂
  have hcell₃ : m₃.conns.cell c = some { co with pSession := none } := by
    simp [hn₃, Heap.modify_cell, hcell₂]
  obtain ⟨m₄, hx₄, hk₄, he₄, hd₄, hn₄⟩ := dropConnection_ok hcell₃
  refine ⟨m₄, ?_, ?_⟩
  · simp only [destroyConn, Heap.deref_ok hc, ok_bind, hx₁, hx₂, hx₃, hx₄]
  · refine ⟨(hs₁.trans hs₂).kept.trans (hk₃.trans hk₄), ?_, fun b => ?_, fun e => ?_⟩
    · rw [hd₄, hd₃, hd₂, hd₁]
    · rw [hn₄, hn₃, hs₂.conns, hs₁.conns, Heap.modify_cell, Heap.modify_cell]
      by_cases h : b = c
      · subst h; simp [hc]
      · simp [h]
    · rw [he₄, he₃, hc₂, hc₁]
      simp only [MqConnection.endpoints, List.mem_append]
      by_cases hP : e ∈ co.listProducer <;> by_cases hC : e ∈ co.listConsumer <;>
        cases m.ends.cell e <;> simp [hP, hC, MqEndpoint.cleared]

/-- After the second part of `DisConn` the endpoints are gone and the lists are empty. -/
structure Cleared (m : Mem) (c : ℕ) (co : MqConnection) (m' : Mem) : Prop where
  kept : Kept m m'
  cms : m'.cms = m.cms
  conns : ∀ b, m'.conns.cell b =
    if b = c then some { co with listProducer := [], listConsumer := [] } else m.conns.cell b
  ends : ∀ e, m'.ends.cell e = if e ∈ co.endpoints then none else m.ends.cell e
  deletions : ∀ d ∈ m'.deletions, d ∈ m.deletions ∨
    d.listed = true ∧ d.ptr ∈ co.endpoints ∧ m.ends.cell d.ptr = some d.obj

theorem clearList_ok {m : Mem} {c : ℕ} {co : MqConnection} (kind : EndKind)
    (hc : m.conns.cell c = some co) (hnd : (co.list kind).Nodup)
    (hl : ∀ e ∈ co.list kind, ∃ ep, m.ends.cell e = some ep) :
    ∃ m', m.clearList c kind = .ok m' ∧ Kept m m' ∧ m'.cms = m.cms ∧
      (∀ b, m'.conns.cell b = if b = c then some (co.setList kind []) else m.conns.cell b) ∧
      (∀ e, m'.ends.cell e = if e ∈ co.list kind then none else m.ends.cell e) ∧
      ∀ d ∈ m'.deletions, d ∈ m.deletions ∨
        d.listed = true ∧ d.ptr ∈ co.list kind ∧ m.ends.cell d.ptr = some d.obj := by
  have hlisted : ∀ e ∈ co.list kind, m.listed e = true :=
    fun e he => listed_of_mem hc (MqConnection.mem_endpoints.mpr ⟨kind, he⟩)
  obtain ⟨m₁, hx, hs, hcms, hcell, hd⟩ := deleteAll_ok hnd hl hlisted
  refine ⟨{ m₁ with conns := m₁.conns.modify c fun co => co.setList kind [] }, ?_, ?_, hcms,
    fun b => ?_, hcell, hd⟩
  · simp only [clearList, Heap.deref_ok hc, ok_bind, hx, pure_eq_ok]
  · exact ⟨by rw [Heap.modify_next, hs.conns], hs.next, hs.sends, hs.throws⟩
  · rw [Heap.modify_cell, hs.conns]
    by_cases h : b = c
    · subst h; simp [hc]
    · simp [h]

theorem clearLists_ok {m : Mem} {c : ℕ} {co : MqConnection} (hc : m.conns.cell c = some co)
    (hnd : co.endpoints.Nodup) (hl : ∀ e ∈ co.endpoints, ∃ ep, m.ends.cell e = some ep) :
    ∃ m', m.clearLists c = .ok m' ∧ Cleared m c co m' := by
  obtain ⟨hndP, hndC, hPC⟩ := List.nodup_append.mp hnd
  obtain ⟨m₁, hx₁, hk₁, hcms₁, hn₁, he₁, hd₁⟩ := clearList_ok .producer hc hndP
    (fun e he => hl e (List.mem_append_left _ he))
  have hc₁ : m₁.conns.cell c = some (co.setList .producer []) := by simp [hn₁]
  have hl₁ : ∀ e ∈ (co.setList .producer []).list .consumer, ∃ ep, m₁.ends.cell e = some ep := by
    intro e he
    have hC : e ∈ co.listConsumer := he
    have hP : e ∉ co.list .producer := fun hp => hPC e hp e hC rfl
    obtain ⟨ep, hep⟩ := hl e (List.mem_append_right _ hC)
    exact ⟨ep, by rw [he₁, if_neg hP, hep]⟩
  obtain ⟨m₂, hx₂, hk₂, hcms₂, hn₂, he₂, hd₂⟩ := clearList_ok .consumer hc₁ hndC hl₁
  refine ⟨m₂, ?_, ⟨hk₁.trans hk₂, hcms₂.trans hcms₁, fun b => ?_, fun e => ?_, fun d hd => ?_⟩⟩
  · simp only [clearLists, hx₁, hx₂, ok_bind]
  · rw [hn₂, hn₁]
    by_cases h : b = c
    · simp [h, MqConnection.setList]
    · simp [h]
  · rw [he₂, he₁]
    have hC : (co.setList .producer []).list .consumer = co.listConsumer := rfl
    have hP : co.list .producer = co.listProducer := rfl
    simp only [hC, hP, MqConnection.endpoints, List.mem_append]
    by_cases h₁ : e ∈ co.listConsumer <;> by_cases h₂ : e ∈ co.listProducer <;> simp [h₁, h₂]
  · rcases hd₂ d hd with hd | ⟨hlist, hptr, hobj⟩
    · rcases hd₁ d hd with hd | ⟨hlist, hptr, hobj⟩
      · exact Or.inl hd
      · exact Or.inr ⟨hlist, List.mem_append_left _ hptr, hobj⟩
    · have hC : d.ptr ∈ co.listConsumer := hptr
      have hP : d.ptr ∉ co.list .producer := fun hp => hPC _ hp _ hC rfl
      rw [he₁, if_neg hP] at hobj
      exact Or.inr ⟨hlist, List.mem_append_right _ hC, hobj⟩

/-- After `DisConn` the connection is as the constructor left it and its endpoints are gone. What
was deleted held nothing any more. -/
structure Down (m : Mem) (c : ℕ) (co : MqConnection) (m' : Mem) : Prop where
  kept : Kept m m'
  conns : ∀ b, m'.conns.cell b = if b = c then some MqConnection.new else m.conns.cell b
  ends : ∀ e, m'.ends.cell e = if e ∈ co.endpoints then none else m.ends.cell e
  deletions : ∀ d ∈ m'.deletions, d ∈ m.deletions ∨ d.ptr ∈ co.endpoints ∧
    d.listed = true ∧ d.obj.pDestination = none ∧ d.obj.pCp = none

theorem disConn_ok {m : Mem} {c : ℕ} {co : MqConnection} (hc : m.conns.cell c = some co)
    (hnd : co.endpoints.Nodup) (hl : ∀ e ∈ co.endpoints, ∃ ep, m.ends.cell e = some ep) :
    ∃ m', m.disConn c = .ok m' ∧ Down m c co m' := by
  obtain ⟨m₁, hx₁, h₁⟩ := destroyConn_ok hc hl
  set co₁ : MqConnection := { co with pSession := none, pConnection := none } with hco₁
  have hc₁ : m₁.conns.cell c = some co₁ := by simp [h₁.conns, hco₁]
  have hends : co₁.endpoints = co.endpoints := rfl
  have hl₁ : ∀ e ∈ co₁.endpoints, ∃ ep, m₁.ends.cell e = some ep := by
    intro e he
    obtain ⟨ep, hep⟩ := hl e he
    rw [hends] at he
    exact ⟨ep.cleared, by simp [h₁.ends, he, hep]⟩
  obtain ⟨m₂, hx₂, h₂⟩ := clearLists_ok hc₁ hnd hl₁
  refine ⟨m₂, ?_, ⟨h₁.kept.trans h₂.kept, fun b => ?_, fun e => ?_, fun d hd => ?_⟩⟩
  · simp only [disConn, hx₁, hx₂, ok_bind]
  · rw [h₂.conns, h₁.conns]
    by_cases h : b = c
    · simp [h, hco₁, MqConnection.new]
    · simp [h]
  · rw [h₂.ends, h₁.ends, hends]
    by_cases h : e ∈ co.endpoints <;> simp [h]
  · rcases h₂.deletions d hd with hd | ⟨hlist, hptr, hobj⟩
    · exact Or.inl (h₁.deletions ▸ hd)
    · rw [hends] at hptr
      rw [h₁.ends, if_pos hptr] at hobj
      obtain ⟨ep, -, hep⟩ := Option.map_eq_some_iff.mp hobj
      exact Or.inr ⟨hptr, hlist, by rw [← hep]; rfl, by rw [← hep]; rfl⟩

/-! ## Adding an endpoint -/

/-- `m'` is `m` with the contents of one endpoint changed, but not its name and mode. -/
structure Touched (m : Mem) (e : ℕ) (m' : Mem) : Prop where
  shape : SameShape m m'
  deletions : m'.deletions = m.deletions
  other : ∀ b, b ≠ e → m'.ends.cell b = m.ends.cell b
  self : ∀ ep, m.ends.cell e = some ep →
    ∃ ep', m'.ends.cell e = some ep' ∧ ep'.strName = ep.strName ∧ ep'.nMode = ep.nMode

theorem create_ok {m : Mem} {e : ℕ} {ep : MqEndpoint} (kind : EndKind) (pSession : Option ℕ)
    (out : CreateOutcome) (he : m.ends.cell e = some ep) :
    ∃ m', m.create kind e pSession out = .ok m' ∧ Touched m e m' := by
  cases pSession with
  | none => exact ⟨m, rfl, ⟨rfl, rfl, rfl, rfl⟩, rfl, fun _ _ => rfl, fun ep h => ⟨ep, h, rfl, rfl⟩⟩
  | some s =>
    simp only [create, Heap.deref_ok he, ok_bind, pure_eq_ok]
    cases out <;> refine ⟨_, rfl, ⟨rfl, rfl, rfl, rfl⟩, rfl, fun b hb => ?_, fun ep h => ?_⟩
    all_goals first
      | simp [Heap.modify_cell, hb]
      | simp [Heap.modify_cell, h]

/-- The test of the search loops. -/
def isMatch (m : Mem) (strName : Str) (nType : MqMsgMode) (e : ℕ) : Bool :=
  match m.ends.cell e with
  | some ep => decide (ep.strName = strName ∧ ep.nMode = nType)
  | none => false

theorem isMatch_iff {m : Mem} {strName : Str} {nType : MqMsgMode} {e : ℕ} :
    m.isMatch strName nType e = true ↔
      ∃ ep, m.ends.cell e = some ep ∧ ep.strName = strName ∧ ep.nMode = nType := by
  unfold isMatch
  cases m.ends.cell e <;> simp

theorem findEnd_ok {m : Mem} (strName : Str) (nType : MqMsgMode) {l : List ℕ}
    (hl : ∀ e ∈ l, ∃ ep, m.ends.cell e = some ep) :
    m.findEnd strName nType l = .ok (l.find? (m.isMatch strName nType)) := by
  induction l with
  | nil => rfl
  | cons e l ih =>
    obtain ⟨ep, hep⟩ := hl e (List.mem_cons_self ..)
    have ih := ih fun b hb => hl b (List.mem_cons_of_mem e hb)
    by_cases h : ep.strName = strName ∧ ep.nMode = nType
    · have hm : m.isMatch strName nType e = true := by simp [isMatch, hep, h]
      simp [findEnd, Heap.deref_ok hep, h, List.find?_cons_of_pos hm]
    · have hm : ¬ m.isMatch strName nType e = true := by simpa [isMatch, hep] using h
      simp [findEnd, Heap.deref_ok hep, h, List.find?_cons_of_neg hm, ih]

/-- `m'` is `m` with a new endpoint `ep` at the end of one list of the connection at `c`. -/
structure Added (m : Mem) (c : ℕ) (co : MqConnection) (kind : EndKind) (ep : MqEndpoint)
    (m' : Mem) : Prop where
  connsNext : m'.conns.next = m.conns.next
  endsNext : m'.ends.next = m.ends.next + 1
  sends : m'.sends = m.sends
  deletions : m'.deletions = m.deletions
  conns : ∀ b, m'.conns.cell b =
    if b = c then some (co.setList kind (co.list kind ++ [m.ends.next])) else m.conns.cell b
  ends : ∀ e, m'.ends.cell e = if e = m.ends.next then some ep else m.ends.cell e

theorem pushEnd_ok {m : Mem} {c : ℕ} {co : MqConnection} (kind : EndKind) (strName : Str)
    (nType : MqMsgMode) (cb : Option ℕ) (user : ℕ) (hc : m.conns.cell c = some co) :
    m.pushEnd c kind strName nType cb user = .ok (m.ends.next, { m with
      ends := m.ends.alloc ⟨none, none, none, nType, strName, cb, user⟩
      conns := m.conns.modify c fun co => co.setList kind (co.list kind ++ [m.ends.next]) }) := by
  simp [pushEnd, Heap.deref_ok hc]

theorem addEnd_ok {m : Mem} {c : ℕ} {co : MqConnection} (kind : EndKind) (strName : Str)
    (nType : MqMsgMode) (cb : Option ℕ) (user : ℕ) {env : Env} (hc : m.conns.cell c = some co)
    (hnew : env.newEnd = true) :
    ∃ m' ep, m.addEnd c kind strName nType cb user env = .ok (some m.ends.next, m') ∧
      Added m c co kind ep m' ∧ ep.strName = strName ∧ ep.nMode = nType := by
  set e := m.ends.next with he
  set ep₀ : MqEndpoint := ⟨none, none, none, nType, strName, cb, user⟩ with hep₀
  set m₁ : Mem := { m with
    ends := m.ends.alloc ep₀
    conns := m.conns.modify c fun co => co.setList kind (co.list kind ++ [m.ends.next]) } with hm₁
  set co₁ := co.setList kind (co.list kind ++ [e]) with hco₁
  have hc₁ : m₁.conns.cell c = some co₁ := by simp [hm₁, Heap.modify_cell, hc, hco₁, he]
  have he₁ : m₁.ends.cell e = some ep₀ := by simp [hm₁, he]
  obtain ⟨m₂, hx₂, ht⟩ := create_ok kind co₁.pSession env.create he₁
  obtain ⟨ep, hep, hname, hmode⟩ := ht.self ep₀ he₁
  refine ⟨m₂, ep, ?_, ⟨?_, ?_, ?_, ?_, fun b => ?_, fun b => ?_⟩, hname, hmode⟩
  · simp only [addEnd, hnew, pushEnd_ok kind strName nType cb user hc, ok_bind, createEnd,
      Bool.true_eq_false, if_false]
    rw [← hm₁, Heap.deref_ok hc₁, ok_bind, ← he, hx₂]
    rfl
  · rw [ht.shape.conns]; rfl
  · rw [ht.shape.next]; rfl
  · exact ht.shape.sends
  · exact ht.deletions
  · rw [ht.shape.conns]
    by_cases h : b = c
    · subst h; simp [hc₁, hco₁, he]
    · simp [hm₁, Heap.modify_cell, h]
  · by_cases h : b = e
    · subst h; rw [hep, if_pos he]
    · rw [ht.other b h]
      simp [hm₁, Heap.alloc_cell, h, ← he]

/-! ## Deleting an endpoint -/

/-- `m'` is `m` without the endpoint `e`, which was in one list of the connection at `c`. -/
structure Removed (m : Mem) (c : ℕ) (co : MqConnection) (kind : EndKind) (e : ℕ) (m' : Mem) :
    Prop where
  kept : Kept m m'
  conns : ∀ b, m'.conns.cell b =
    if b = c then some (co.setList kind ((co.list kind).erase e)) else m.conns.cell b
  ends : ∀ b, m'.ends.cell b = if b = e then none else m.ends.cell b
  deletions : ∀ d ∈ m'.deletions, d ∈ m.deletions ∨
    d.listed = true ∧ d.obj.pDestination = none ∧ d.obj.pCp = none

theorem delEnd_none {m : Mem} {c : ℕ} {co : MqConnection} (kind : EndKind) {strName : Str}
    {nType : MqMsgMode} (hc : m.conns.cell c = some co)
    (hl : ∀ e ∈ co.endpoints, ∃ ep, m.ends.cell e = some ep)
    (hfind : (co.list kind).find? (m.isMatch strName nType) = none) :
    m.delEnd c kind strName nType = .ok (co.isEmptyConn, m) := by
  have hf := findEnd_ok (m := m) strName nType (l := co.list kind)
    fun e he => hl e (MqConnection.mem_endpoints.mpr ⟨kind, he⟩)
  rw [hfind] at hf
  simp [delEnd, Heap.deref_ok hc, hf]

theorem delEnd_some {m : Mem} {c e : ℕ} {co : MqConnection} (kind : EndKind) {strName : Str}
    {nType : MqMsgMode} (hc : m.conns.cell c = some co)
    (hl : ∀ e ∈ co.endpoints, ∃ ep, m.ends.cell e = some ep)
    (hfind : (co.list kind).find? (m.isMatch strName nType) = some e) :
    ∃ m', m.delEnd c kind strName nType =
        .ok ((co.setList kind ((co.list kind).erase e)).isEmptyConn, m') ∧
      Removed m c co kind e m' := by
  have hmem : e ∈ co.endpoints :=
    MqConnection.mem_endpoints.mpr ⟨kind, List.mem_of_find?_eq_some hfind⟩
  obtain ⟨ep, hep⟩ := hl e hmem
  have hf := findEnd_ok (m := m) strName nType (l := co.list kind)
    fun b hb => hl b (MqConnection.mem_endpoints.mpr ⟨kind, hb⟩)
  rw [hfind] at hf
  set m₁ : Mem := { m with
    ends := m.ends.modify e MqEndpoint.cleared
    cms := releaseDst m.cms ep.pDestination ep.pCp } with hm₁
  have hep₁ : m₁.ends.cell e = some ep.cleared := by simp [hm₁, Heap.modify_cell, hep]
  have hlisted : m₁.listed e = true := listed_of_mem (m := m₁) hc hmem
  refine ⟨{ m₁ with
      ends := m₁.ends.remove e
      deletions := ⟨e, ep.cleared, m₁.listed e⟩ :: m₁.deletions
      conns := m₁.conns.modify c fun _ => co.setList kind ((co.list kind).erase e) },
    ?_, ⟨⟨rfl, rfl, rfl, by simp [hm₁]⟩, fun b => ?_, fun b => ?_, fun d hd => ?_⟩⟩
  · simp only [delEnd, Heap.deref_ok hc, hf, ok_bind, destroy_ok hep]
    rw [← hm₁, deleteEnd_ok hep₁]
    rfl
  · by_cases h : b = c
    · subst h; simp [Heap.modify_cell, hm₁, hc]
    · simp [Heap.modify_cell, hm₁, h]
  · by_cases h : b = e
    · simp [Heap.remove_cell, h]
    · simp [Heap.remove_cell, Heap.modify_cell, hm₁, h]
  · rcases List.mem_cons.mp hd with rfl | hold
    · exact Or.inr ⟨hlisted, rfl, rfl⟩
    · exact Or.inl hold

/-! ## Sending and connecting -/

theorem sendMsg_ok {m : Mem} {p : ℕ} {ep : MqEndpoint} (strMsg : Str) (out : SendOutcome)
    (hp : m.ends.cell p = some ep) :
    ∃ b m', m.sendMsg p strMsg out = .ok (b, m') ∧ m'.conns = m.conns ∧ m'.ends = m.ends ∧
      m'.sends = (p, strMsg) :: m.sends ∧ m'.deletions = m.deletions ∧
      m'.cms.closeThrows = m.cms.closeThrows := by
  simp only [sendMsg, Heap.deref_ok hp, ok_bind, pure_eq_ok]
  cases ep.pSession with
  | none => exact ⟨_, _, rfl, rfl, rfl, rfl, rfl, rfl⟩
  | some s =>
    by_cases h : out = .msgThrows
    · simp only [h, if_true]
      exact ⟨_, _, rfl, rfl, rfl, rfl, rfl, rfl⟩
    · simp only [h, if_false]
      cases ep.pCp <;> exact ⟨_, _, rfl, rfl, rfl, rfl, rfl, rfl⟩

theorem conn_ok {m : Mem} {c : ℕ} {co : MqConnection} (out : ConnOutcome)
    (hc : m.conns.cell c = some co) :
    ∃ m' k s, m.conn c out = .ok (decide (out = .connected), m') ∧ Kept m m' ∧ m'.ends = m.ends ∧
      m'.deletions = m.deletions ∧
      ∀ b, m'.conns.cell b =
        if b = c then some { co with pConnection := k, pSession := s } else m.conns.cell b := by
  simp only [conn, Heap.deref_ok hc, ok_bind, pure_eq_ok]
  cases out with
  | factoryThrows =>
    refine ⟨_, co.pConnection, co.pSession, rfl, ⟨rfl, rfl, rfl, rfl⟩, rfl, rfl, fun b => ?_⟩
    by_cases h : b = c <;> simp [h, hc]
  | startThrows =>
    refine ⟨_, some m.cms.next, co.pSession, rfl, ⟨rfl, rfl, rfl, rfl⟩, rfl, rfl, fun b => ?_⟩
    by_cases h : b = c <;> simp [Heap.modify_cell, h, hc]
  | sessionThrows =>
    refine ⟨_, some m.cms.next, co.pSession, rfl, ⟨rfl, rfl, rfl, rfl⟩, rfl, rfl, fun b => ?_⟩
    by_cases h : b = c <;> simp [Heap.modify_cell, h, hc]
  | connected =>
    refine ⟨_, some m.cms.next, some (m.cms.next + 1), rfl, ⟨rfl, rfl, rfl, rfl⟩, rfl, rfl,
      fun b => ?_⟩
    by_cases h : b = c <;> simp [Heap.modify_cell, h, hc]

end AppUtil.Mq.Mem
