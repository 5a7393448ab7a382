import AppUtil.Mq.Effects
import AppUtil.Mq.Manager

/-! # Who owns what

A live endpoint is in exactly one list of exactly one live connection, and a live connection is
stored under exactly one server. `Registered s kind d e` says that the endpoint at `e` is the
manager's endpoint for the destination `d`; the later modules see the state through it. -/
namespace AppUtil.Mq
open AppUtil.Lib
set_option autoImplicit false

namespace MqConnection

theorem endpoints_append_perm (co : MqConnection) (kind : EndKind) (e : ℕ) :
    (co.setList kind (co.list kind ++ [e])).endpoints.Perm (e :: co.endpoints) := by
  cases kind with
  | producer =>
    simp only [endpoints, setList, list, List.append_assoc, List.singleton_append]
    exact List.perm_middle
  | consumer =>
    simp only [endpoints, setList, list, ← List.append_assoc]
    exact List.perm_append_singleton e _

theorem endpoints_erase {co : MqConnection} {kind : EndKind} {e : ℕ} (hnd : co.endpoints.Nodup)
    (he : e ∈ co.list kind) :
    (co.setList kind ((co.list kind).erase e)).endpoints = co.endpoints.erase e := by
  cases kind with
  | producer => exact (List.erase_append_left _ he).symm
  | consumer =>
    have hn : e ∉ co.listProducer :=
      fun hp => (List.nodup_append.mp hnd).2.2 e hp e he rfl
    exact (List.erase_append_right _ hn).symm

end MqConnection

/-! ## The memory -/

/-- Endpoints are owned by connections. `deleted` says of every endpoint deleted so far that it was
in a list at that moment and held nothing of the library any more. -/
structure Mem.Owned (m : Mem) : Prop where
  live : ∀ c co, m.conns.cell c = some co → ∀ e ∈ co.endpoints, ∃ ep, m.ends.cell e = some ep
  nodup : ∀ c co, m.conns.cell c = some co → co.endpoints.Nodup
  disjoint : ∀ b c cb co e, m.conns.cell b = some cb → m.conns.cell c = some co →
    e ∈ cb.endpoints → e ∈ co.endpoints → b = c
  stored : ∀ e ep, m.ends.cell e = some ep → ∃ c co, m.conns.cell c = some co ∧ e ∈ co.endpoints
  deleted : ∀ d ∈ m.deletions, d.listed = true ∧ d.obj.pDestination = none ∧ d.obj.pCp = none

namespace Mem.Owned
variable {m m' : Mem} {c : ℕ} {co : MqConnection}

/-- Only matter which connections and endpoints there are, the lists and the record of deletions. -/
theorem keep (h : m.Owned)
    (hconns : ∀ b, (m'.conns.cell b).map MqConnection.endpoints =
      (m.conns.cell b).map MqConnection.endpoints)
    (hends : ∀ e, (m'.ends.cell e).isSome = (m.ends.cell e).isSome)
    (hdel : m'.deletions ⊆ m.deletions) : m'.Owned := by
  have hold : ∀ b cb, m'.conns.cell b = some cb →
      ∃ cb₀, m.conns.cell b = some cb₀ ∧ cb₀.endpoints = cb.endpoints := by
    intro b cb hb
    have := hconns b
    rw [hb, Option.map_some] at this
    exact Option.map_eq_some_iff.mp this.symm
  constructor
  · intro b cb hb e he
    obtain ⟨cb₀, hb₀, heq⟩ := hold b cb hb
    obtain ⟨ep, hep⟩ := h.live b cb₀ hb₀ e (heq ▸ he)
    refine Option.isSome_iff_exists.mp ?_
    rw [hends, hep]
    rfl
  · intro b cb hb
    obtain ⟨cb₀, hb₀, heq⟩ := hold b cb hb
    exact heq ▸ h.nodup b cb₀ hb₀
  · intro a b ca cb e ha hb hea heb
    obtain ⟨ca₀, ha₀, heqa⟩ := hold a ca ha
    obtain ⟨cb₀, hb₀, heqb⟩ := hold b cb hb
    exact h.disjoint a b ca₀ cb₀ e ha₀ hb₀ (heqa ▸ hea) (heqb ▸ heb)
  · intro e ep he
    obtain ⟨ep₀, he₀⟩ : ∃ ep₀, m.ends.cell e = some ep₀ := by
      refine Option.isSome_iff_exists.mp ?_
      rw [← hends, he]
      rfl
    obtain ⟨b, cb, hb, heb⟩ := h.stored e ep₀ he₀
    have := hconns b
    rw [hb, Option.map_some] at this
    obtain ⟨cb', hb', heq⟩ := Option.map_eq_some_iff.mp this
    exact ⟨b, cb', hb', heq ▸ heb⟩
  · exact fun d hd => h.deleted d (hdel hd)

/-- Only the cells of the two heaps and the record of deletions matter. -/
theorem congr (h : m.Owned) (hconns : m'.conns.cell = m.conns.cell)
    (hends : m'.ends.cell = m.ends.cell) (hdel : m'.deletions ⊆ m.deletions) : m'.Owned :=
  h.keep (fun b => by rw [hconns]) (fun e => by rw [hends]) hdel

/-- The lists of one connection change: its endpoints live exactly as long as they are listed, new
ones were dead before, and the deletions are in order. -/
theorem relisted (h : m.Owned) {co' : MqConnection} (hc : m.conns.cell c = some co)
    (hconns : ∀ b, m'.conns.cell b = if b = c then some co' else m.conns.cell b)
    (hnd : co'.endpoints.Nodup)
    (hnew : ∀ e ∈ co'.endpoints, e ∈ co.endpoints ∨ m.ends.cell e = none)
    (hlive : ∀ e ∈ co'.endpoints, ∃ ep, m'.ends.cell e = some ep)
    (hdead : ∀ e ∈ co.endpoints, e ∉ co'.endpoints → m'.ends.cell e = none)
    (hsame : ∀ e, e ∉ co.endpoints → e ∉ co'.endpoints → m'.ends.cell e = m.ends.cell e)
    (hdel : ∀ d ∈ m'.deletions, d ∈ m.deletions ∨
      d.listed = true ∧ d.obj.pDestination = none ∧ d.obj.pCp = none) : m'.Owned := by
  have hcell : ∀ {b cb}, m'.conns.cell b = some cb →
      b = c ∧ cb = co' ∨ b ≠ c ∧ m.conns.cell b = some cb := by
    intro b cb hb
    rw [hconns] at hb
    by_cases hbc : b = c
    · rw [if_pos hbc] at hb
      exact Or.inl ⟨hbc, (Option.some.inj hb).symm⟩
    · rw [if_neg hbc] at hb
      exact Or.inr ⟨hbc, hb⟩
  -- the endpoints of the other connections are in neither list
  have hother : ∀ {b cb e}, b ≠ c → m.conns.cell b = some cb → e ∈ cb.endpoints →
      e ∉ co.endpoints ∧ e ∉ co'.endpoints := by
    intro b cb e hbc hb he
    have hco : e ∉ co.endpoints := fun hec => hbc (h.disjoint b c cb co e hb hc he hec)
    refine ⟨hco, fun hec => ?_⟩
    obtain ⟨ep, hep⟩ := h.live b cb hb e he
    rcases hnew e hec with hmem | hnone
    · exact hco hmem
    · rw [hnone] at hep
      cases hep
  constructor
  · intro b cb hb e he
    rcases hcell hb with ⟨rfl, rfl⟩ | ⟨hbc, hb⟩
    · exact hlive e he
    · obtain ⟨hco, hco'⟩ := hother hbc hb he
      rw [hsame e hco hco']
      exact h.live b cb hb e he
  · intro b cb hb
    rcases hcell hb with ⟨-, rfl⟩ | ⟨-, hb⟩
    · exact hnd
    · exact h.nodup b cb hb
  · intro a b ca cb e ha hb hea heb
    rcases hcell ha with ⟨rfl, rfl⟩ | ⟨hac, ha⟩ <;> rcases hcell hb with ⟨rfl, rfl⟩ | ⟨hbc, hb⟩
    · rfl
    · exact absurd hea (hother hbc hb heb).2
    · exact absurd heb (hother hac ha hea).2
    · exact h.disjoint a b ca cb e ha hb hea heb
  · intro e ep he
    by_cases hco' : e ∈ co'.endpoints
    · exact ⟨c, co', by rw [hconns, if_pos rfl], hco'⟩
    · have hco : e ∉ co.endpoints := fun hco => by
        rw [hdead e hco hco'] at he
        cases he
      obtain ⟨b, cb, hb, heb⟩ := h.stored e ep (hsame e hco hco' ▸ he)
      have hbc : b ≠ c := by
        rintro rfl
        exact hco (Option.some.inj (hc.symm.trans hb) ▸ heb)
      exact ⟨b, cb, by rw [hconns, if_neg hbc, hb], heb⟩
  · intro d hd
    exact (hdel d hd).elim (h.deleted d) id

/-- A connection may lose all its endpoints when they are deleted. -/
theorem emptied (h : m.Owned) {co' : MqConnection} (hc : m.conns.cell c = some co)
    (hempty : co'.endpoints = [])
    (hconns : ∀ b, m'.conns.cell b = if b = c then some co' else m.conns.cell b)
    (hends : ∀ e, m'.ends.cell e = if e ∈ co.endpoints then none else m.ends.cell e)
    (hdel : ∀ d ∈ m'.deletions, d ∈ m.deletions ∨
      d.listed = true ∧ d.obj.pDestination = none ∧ d.obj.pCp = none) : m'.Owned := by
  have hno : ∀ e, e ∉ co'.endpoints := fun e => by simp [hempty]
  refine h.relisted hc hconns (hempty ▸ List.nodup_nil) (fun e he => absurd he (hno e))
    (fun e he => absurd he (hno e)) (fun e he _ => ?_) (fun e he _ => ?_) hdel
  · rw [hends, if_pos he]
  · rw [hends, if_neg he]

theorem down (h : m.Owned) (hc : m.conns.cell c = some co) (hd : Mem.Down m c co m') : m'.Owned :=
  h.emptied hc rfl hd.conns hd.ends fun d hd' => (hd.deletions d hd').imp_right And.right

theorem next_notMem (h : m.Owned) {b : ℕ} {cb : MqConnection} (hb : m.conns.cell b = some cb) :
    m.ends.next ∉ cb.endpoints := by
  intro he
  obtain ⟨ep, hep⟩ := h.live b cb hb _ he
  exact Nat.lt_irrefl _ (Heap.lt_next hep)

theorem added (h : m.Owned) {kind : EndKind} {ep : MqEndpoint} (hc : m.conns.cell c = some co)
    (ha : Mem.Added m c co kind ep m') : m'.Owned := by
  have hperm := MqConnection.endpoints_append_perm co kind m.ends.next
  have hnext : m.ends.cell m.ends.next = none := (m.ends.fresh _ (Nat.le_refl _)).1
  refine h.relisted hc ha.conns ?_ (fun e he => ?_) (fun e he => ?_) (fun e he hne => ?_)
    (fun e _ hne => ?_) (fun d hd => Or.inl (ha.deletions ▸ hd))
  · exact hperm.nodup_iff.mpr (List.nodup_cons.mpr ⟨h.next_notMem hc, h.nodup c co hc⟩)
  · rcases List.mem_cons.mp (hperm.mem_iff.mp he) with rfl | he
    · exact Or.inr hnext
    · exact Or.inl he
  · rw [ha.ends]
    by_cases hen : e = m.ends.next
    · exact ⟨ep, by rw [if_pos hen]⟩
    · rw [if_neg hen]
      exact h.live c co hc e ((List.mem_cons.mp (hperm.mem_iff.mp he)).resolve_left hen)
  · exact absurd (hperm.mem_iff.mpr (List.mem_cons_of_mem _ he)) hne
  · have hen : e ≠ m.ends.next := fun hen => hne (hperm.mem_iff.mpr (List.mem_cons.mpr (Or.inl hen)))
    rw [ha.ends, if_neg hen]

theorem removed (h : m.Owned) {kind : EndKind} {e : ℕ} (hc : m.conns.cell c = some co)
    (he : e ∈ co.list kind) (hr : Mem.Removed m c co kind e m') : m'.Owned := by
  have hnd := h.nodup c co hc
  have hmem : ∀ x, x ∈ (co.setList kind ((co.list kind).erase e)).endpoints ↔
      x ∈ co.endpoints ∧ x ≠ e := by
    intro x
    rw [MqConnection.endpoints_erase hnd he, hnd.mem_erase_iff, and_comm]
  refine h.relisted hc hr.conns ?_ (fun x hx => Or.inl ((hmem x).mp hx).1) (fun x hx => ?_)
    (fun x hx hne => ?_) (fun x hx _ => ?_) hr.deletions
  · rw [MqConnection.endpoints_erase hnd he]
    exact hnd.erase e
  · obtain ⟨hx, hxe⟩ := (hmem x).mp hx
    rw [hr.ends, if_neg hxe]
    exact h.live c co hc x hx
  · have hxe : x = e := by
      by_contra hxe
      exact hne ((hmem x).mpr ⟨hx, hxe⟩)
    rw [hr.ends, if_pos hxe]
  · have hxe : x ≠ e := by
      rintro rfl
      exact hx (MqConnection.mem_endpoints.mpr ⟨kind, he⟩)
    rw [hr.ends, if_neg hxe]

/-- A connection without endpoints may come or go. -/
theorem conn_changed (h : m.Owned)
    (hconns : ∀ b, b ≠ c → m'.conns.cell b = m.conns.cell b)
    (hold : ∀ co, m.conns.cell c = some co → co.endpoints = [])
    (hnew : ∀ co, m'.conns.cell c = some co → co.endpoints = [])
    (hends : m'.ends.cell = m.ends.cell) (hdel : m'.deletions ⊆ m.deletions) : m'.Owned := by
  have hcell : ∀ b cb e, m'.conns.cell b = some cb → e ∈ cb.endpoints →
      m.conns.cell b = some cb := by
    intro b cb e hb he
    by_cases hbc : b = c
    · subst hbc
      rw [hnew cb hb] at he
      cases he
    · rwa [hconns b hbc] at hb
  constructor
  · intro b cb hb e he
    rw [hends]
    exact h.live b cb (hcell b cb e hb he) e he
  · intro b cb hb
    by_cases hbc : b = c
    · subst hbc
      rw [hnew cb hb]
      exact List.nodup_nil
    · exact h.nodup b cb (hconns b hbc ▸ hb)
  · intro a b ca cb e ha hb hea heb
    exact h.disjoint a b ca cb e (hcell a ca e ha hea) (hcell b cb e hb heb) hea heb
  · intro e ep he
    rw [hends] at he
    obtain ⟨b, cb, hb, heb⟩ := h.stored e ep he
    have hbc : b ≠ c := by
      rintro rfl
      rw [hold cb hb] at heb
      cases heb
    exact ⟨b, cb, (hconns b hbc).trans hb, heb⟩
  · exact fun d hd => h.deleted d (hdel hd)

end Mem.Owned

/-! ## The manager -/

namespace MqMgr

structure Owned (s : MqMgr) : Prop where
  mem : s.mem.Owned
  connLive : ∀ svr c, s.mapConn.lookup svr = some c → ∃ co, s.mem.conns.cell c = some co
  connInj : ∀ svr svr' c, s.mapConn.lookup svr = some c → s.mapConn.lookup svr' = some c → svr = svr'
  connStored : ∀ c co, s.mem.conns.cell c = some co → ∃ svr, s.mapConn.lookup svr = some c

/-- The live endpoint at `e` is in the list of its kind of the connection stored under the server
of `d`, and has the name and the mode of `d`. -/
def Registered (s : MqMgr) (kind : EndKind) (d : Dst) (e : ℕ) : Prop :=
  ∃ c co ep, s.mapConn.lookup d.strMQSvr = some c ∧ s.mem.conns.cell c = some co ∧
    e ∈ co.list kind ∧ s.mem.ends.cell e = some ep ∧ ep.strName = d.strDstName ∧ ep.nMode = d.nType

/-- A connection is stored under the server. -/
def Stored (s : MqMgr) (svr : Str) : Prop := (s.mapConn.lookup svr).isSome

/-- The endpoint that `DelProducer`, `DelConsumer` or `HasConsumer` finds. -/
def firstMatch (s : MqMgr) (kind : EndKind) (d : Dst) : Option ℕ := do
  let c ← s.mapConn.lookup d.strMQSvr
  let co ← s.mem.conns.cell c
  (co.list kind).find? (s.mem.isMatch d.strDstName d.nType)

theorem init_owned (closeThrows : ℕ → Bool) : (init closeThrows).Owned := by
  constructor
  · constructor <;> simp [init, Heap.empty]
  all_goals simp [init, Heap.empty]

variable {s s' : MqMgr}

theorem Registered.live {kind : EndKind} {d : Dst} {e : ℕ} (h : s.Registered kind d e) :
    ∃ ep, s.mem.ends.cell e = some ep := by
  obtain ⟨-, -, ep, -, -, -, he, -, -⟩ := h
  exact ⟨ep, he⟩

theorem Owned.registered_inj (hs : s.Owned) {kind kind' : EndKind} {d d' : Dst} {e : ℕ}
    (h : s.Registered kind d e) (h' : s.Registered kind' d' e) : kind = kind' ∧ d = d' := by
  obtain ⟨c, co, ep, hl, hc, hmem, he, hname, hmode⟩ := h
  obtain ⟨c', co', ep', hl', hc', hmem', he', hname', hmode'⟩ := h'
  obtain rfl := Option.some.inj (he.symm.trans he')
  obtain rfl : c = c' := hs.mem.disjoint c c' co co' e hc hc'
    (MqConnection.mem_endpoints.mpr ⟨kind, hmem⟩) (MqConnection.mem_endpoints.mpr ⟨kind', hmem'⟩)
  obtain rfl := Option.some.inj (hc.symm.trans hc')
  have hsvr := hs.connInj _ _ c hl hl'
  constructor
  · have hPC := (List.nodup_append.mp (hs.mem.nodup c co hc)).2.2
    cases kind <;> cases kind'
    · rfl
    · exact absurd rfl (hPC e hmem e hmem')
    · exact absurd rfl (hPC e hmem' e hmem)
    · rfl
  · obtain ⟨svr, name, mode⟩ := d
    obtain ⟨svr', name', mode'⟩ := d'
    dsimp only at hsvr hname hmode hname' hmode'
    rw [hsvr, ← hname, ← hmode, hname', hmode']

theorem Owned.registered_of_live (hs : s.Owned) {e : ℕ} {ep : MqEndpoint}
    (he : s.mem.ends.cell e = some ep) : ∃ kind d, s.Registered kind d e := by
  obtain ⟨c, co, hc, hmem⟩ := hs.mem.stored e ep he
  obtain ⟨kind, hmem⟩ := MqConnection.mem_endpoints.mp hmem
  obtain ⟨svr, hl⟩ := hs.connStored c co hc
  exact ⟨kind, ⟨svr, ep.strName, ep.nMode⟩, c, co, ep, hl, hc, hmem, he, rfl, rfl⟩

theorem firstMatch_some {kind : EndKind} {d : Dst} {e : ℕ} (h : s.firstMatch kind d = some e) :
    s.Registered kind d e := by
  simp only [firstMatch, Option.bind_eq_bind, Option.bind_eq_some_iff] at h
  obtain ⟨c, hl, co, hc, hfind⟩ := h
  obtain ⟨ep, he, hname, hmode⟩ := Mem.isMatch_iff.mp (List.find?_some hfind)
  exact ⟨c, co, ep, hl, hc, List.mem_of_find?_eq_some hfind, he, hname, hmode⟩

theorem firstMatch_none {kind : EndKind} {d : Dst} (h : s.firstMatch kind d = none) (e : ℕ) :
    ¬ s.Registered kind d e := by
  rintro ⟨c, co, ep, hl, hc, hmem, he, hname, hmode⟩
  simp only [firstMatch, hl, hc, Option.bind_eq_bind, Option.bind_some] at h
  have := List.find?_eq_none.mp h e hmem
  exact this (Mem.isMatch_iff.mpr ⟨ep, he, hname, hmode⟩)

end MqMgr
end AppUtil.Mq
