import AppUtil.Mq.Adding

/-! # Deleting endpoints and connections

What `DelProducer`, `DelConsumer`, `onException` and `Fini` do to an owned state. None of them can
fault. -/
namespace AppUtil.Mq.MqMgr
open AppUtil.Lib
set_option autoImplicit false

variable {s : MqMgr}

theorem lookup_erase {β : Type} (t : StrMap β) (k k' : Str) :
    (t.erase k).lookup k' = if k' = k then none else t.lookup k' := by
  by_cases h : k' = k
  · subst h; simp
  · simp [AList.lookup_erase_ne h, h]

/-! ## Taking connections down -/

theorem takeDown_ok (hs : s.Owned) {c : ℕ} {co : MqConnection}
    (hc : s.mem.conns.cell c = some co) :
    ∃ m, s.mem.disConn c = .ok m ∧ Mem.Down s.mem c co m ∧
      { s with mem := m }.deleteConn c = .ok { s with
        mem := { m with conns := m.conns.remove c }
        connDeletions := (c, s.mapConn.entries.any fun x => x.2 == c) :: s.connDeletions } := by
  obtain ⟨m, hx, hd⟩ := Mem.disConn_ok hc (hs.mem.nodup c co hc) (hs.mem.live c co hc)
  have hnew : m.conns.cell c = some MqConnection.new := by rw [hd.conns, if_pos rfl]
  exact ⟨m, hx, hd, deleteConn_ok (s := { s with mem := m }) hnew⟩

theorem any_entries {t : StrMap ℕ} {svr : Str} {c : ℕ} (hl : t.lookup svr = some c) :
    (t.entries.any fun x => x.2 == c) = true :=
  List.any_eq_true.mpr ⟨⟨svr, c⟩, AList.mem_lookup_iff.mp hl, by simp⟩

theorem Owned.exists_registered (hs : s.Owned) {svr : Str} {c : ℕ} {co : MqConnection}
    (hl : s.mapConn.lookup svr = some c) (hc : s.mem.conns.cell c = some co)
    (hne : co.endpoints ≠ []) : ∃ k d e, d.strMQSvr = svr ∧ s.Registered k d e := by
  obtain ⟨e, he⟩ := List.exists_mem_of_ne_nil _ hne
  obtain ⟨ep, hep⟩ := hs.mem.live c co hc e he
  obtain ⟨k, hk⟩ := MqConnection.mem_endpoints.mp he
  exact ⟨k, ⟨svr, ep.strName, ep.nMode⟩, e, rfl, c, co, ep, hl, hc, hk, hep, rfl, rfl⟩

theorem not_registered {svr : Str} {c : ℕ} {co : MqConnection}
    (hl : s.mapConn.lookup svr = some c) (hc : s.mem.conns.cell c = some co)
    (hempty : co.endpoints = []) {k : EndKind} {d : Dst} {e : ℕ} (hd : d.strMQSvr = svr) :
    ¬ s.Registered k d e := by
  rintro ⟨b, cb, ep, hb, hcb, hmem, -⟩
  rw [hd, hl] at hb
  obtain rfl := Option.some.inj hb
  obtain rfl := Option.some.inj (hc.symm.trans hcb)
  have := MqConnection.mem_endpoints.mpr ⟨k, hmem⟩
  rw [hempty] at this
  cases this

/-- The end of `delFromConn`: the connection goes when it is empty. -/
def closeIfEmpty (s : MqMgr) (svr : Str) (c : ℕ) (bEmptyConn : Bool) : Except Fault MqMgr :=
  if bEmptyConn then do
    let m ← s.mem.disConn c
    let s ← { s with mem := m }.deleteConn c
    pure { s with mapConn := s.mapConn.erase svr }
  else
    pure s

theorem delFromConn_eq {kind : EndKind} {d : Dst} {c : ℕ}
    (hl : s.mapConn.lookup d.strMQSvr = some c) :
    s.delFromConn kind d = (do
      let (bEmptyConn, m) ← s.mem.delEnd c kind d.strDstName d.nType
      { s with mem := m }.closeIfEmpty d.strMQSvr c bEmptyConn) := by
  simp only [delFromConn, hl, closeIfEmpty]

/-- `s'` is `s` without the connection to the server, if there was nothing in it. -/
structure Tidied (s : MqMgr) (svr : Str) (s' : MqMgr) : Prop where
  owned : s'.Owned
  cache : s'.mapProcucer = s.mapProcucer
  sends : s'.mem.sends = s.mem.sends
  connDeletions : ∀ x ∈ s'.connDeletions, x ∈ s.connDeletions ∨ x.2 = true
  stored : ∀ svr', s'.Stored svr' ↔ s.Stored svr' ∧
    (svr' = svr → ∃ k d e, d.strMQSvr = svr' ∧ s'.Registered k d e)
  registered : ∀ k d e, s'.Registered k d e ↔ s.Registered k d e

theorem closeIfEmpty_empty (hs : s.Owned) {svr : Str} {c : ℕ} {co : MqConnection}
    (hl : s.mapConn.lookup svr = some c) (hc : s.mem.conns.cell c = some co)
    (hempty : co.endpoints = []) :
    ∃ s', s.closeIfEmpty svr c true = .ok s' ∧ Tidied s svr s' := by
  obtain ⟨m, hx, hd, hdel⟩ := takeDown_ok hs hc
  have hcl : Closed { s with mem := m } svr c MqConnection.new
      { m with conns := m.conns.remove c } (s.mapConn.erase svr) :=
    ⟨hl, by rw [hd.conns, if_pos rfl], rfl, fun _ => lookup_erase _ _ _, fun _ => rfl, rfl, rfl⟩
  have hs₁ : { s with mem := m }.Owned := owned_down hs hc hd
  have hreg : ∀ k d e, { s with mem := m }.Registered k d e ↔ s.Registered k d e := by
    intro k d e
    rw [registered_down hs hl hc hd]
    exact ⟨And.left, fun h => ⟨h, fun hd' => not_registered hl hc hempty hd' h⟩⟩
  refine ⟨{ s with
      mem := { m with conns := m.conns.remove c }
      mapConn := s.mapConn.erase svr
      connDeletions := (c, s.mapConn.entries.any fun x => x.2 == c) :: s.connDeletions },
    ?_, ?_, rfl, hd.kept.sends, fun x hx => ?_, fun svr' => ?_, fun k d e => ?_⟩
  · simp [closeIfEmpty, hx, hdel]
  · exact owned_congr (owned_closed hs₁ hcl) rfl rfl rfl (List.Subset.refl _)
  · rcases List.mem_cons.mp hx with rfl | hx
    · exact Or.inr (any_entries hl)
    · exact Or.inl hx
  · unfold Stored
    dsimp only
    rw [lookup_erase]
    by_cases h : svr' = svr
    · refine ⟨fun hx => by simp [h] at hx, fun hx => ?_⟩
      obtain ⟨k, d, e, hd', hr⟩ := hx.2 h
      have hr := (hreg k d e).mp ((registered_closed hcl k d e).mp hr)
      exact absurd hr (not_registered hl hc hempty (hd'.trans h))
    · simp [h]
  · exact (registered_closed hcl k d e).trans (hreg k d e)

theorem closeIfEmpty_ok (hs : s.Owned) {svr : Str} {c : ℕ} {co : MqConnection}
    (hl : s.mapConn.lookup svr = some c) (hc : s.mem.conns.cell c = some co) :
    ∃ s', s.closeIfEmpty svr c co.isEmptyConn = .ok s' ∧ Tidied s svr s' := by
  by_cases hempty : co.endpoints = []
  · rw [MqConnection.isEmptyConn_iff.mpr hempty]
    exact closeIfEmpty_empty hs hl hc hempty
  · have hne : co.isEmptyConn = false := by
      rw [Bool.eq_false_iff, ne_eq, MqConnection.isEmptyConn_iff]
      exact hempty
    rw [hne]
    refine ⟨s, rfl, hs, rfl, rfl, fun x hx => Or.inl hx, fun svr' => ⟨fun h => ⟨h, ?_⟩, And.left⟩,
      fun _ _ _ => Iff.rfl⟩
    rintro rfl
    exact hs.exists_registered hl hc hempty

/-- `s'` is `s` without the first endpoint of the kind that matches `d`, and without the
connection when nothing is left in it. -/
structure Taken (s : MqMgr) (kind : EndKind) (d : Dst) (s' : MqMgr) : Prop where
  owned : s'.Owned
  cache : s'.mapProcucer = s.mapProcucer
  sends : s'.mem.sends = s.mem.sends
  connDeletions : ∀ x ∈ s'.connDeletions, x ∈ s.connDeletions ∨ x.2 = true
  stored : ∀ svr, s'.Stored svr ↔ s.Stored svr ∧
    (svr = d.strMQSvr → ∃ k d' e, d'.strMQSvr = svr ∧ s'.Registered k d' e)
  registered : ∀ k d' e, s'.Registered k d' e ↔
    s.Registered k d' e ∧ s.firstMatch kind d ≠ some e

theorem delFromConn_ok (hs : s.Owned) (kind : EndKind) (d : Dst) :
    ∃ s', s.delFromConn kind d = .ok s' ∧ Taken s kind d s' := by
  cases hl : s.mapConn.lookup d.strMQSvr with
  | none =>
    refine ⟨s, by simp [delFromConn, hl], hs, rfl, rfl, fun x hx => Or.inl hx, fun svr => ?_,
      fun k d' e => by simp [firstMatch, hl]⟩
    refine ⟨fun h => ⟨h, ?_⟩, And.left⟩
    rintro rfl
    simp [Stored, hl] at h
  | some c =>
    obtain ⟨co, hc⟩ := hs.connLive _ c hl
    have hmatch : s.firstMatch kind d =
        (co.list kind).find? (s.mem.isMatch d.strDstName d.nType) := by
      simp [firstMatch, hl, hc]
    rw [delFromConn_eq hl]
    cases hfind : (co.list kind).find? (s.mem.isMatch d.strDstName d.nType) with
    | none =>
      rw [Mem.delEnd_none kind hc (hs.mem.live c co hc) hfind, ok_bind]
      obtain ⟨s', hx, ht⟩ := closeIfEmpty_ok hs hl hc
      refine ⟨s', hx, ht.owned, ht.cache, ht.sends, ht.connDeletions, ht.stored, fun k d' e => ?_⟩
      rw [ht.registered, hmatch, hfind]
      simp
    | some e =>
      obtain ⟨m', hx, hr⟩ := Mem.delEnd_some kind hc (hs.mem.live c co hc) hfind
      have hmem := List.mem_of_find?_eq_some hfind
      have hc' : m'.conns.cell c = some (co.setList kind ((co.list kind).erase e)) := by
        rw [hr.conns, if_pos rfl]
      obtain ⟨s', hx', ht⟩ :=
        closeIfEmpty_ok (s := { s with mem := m' }) (owned_removed hs hc hmem hr) hl hc'
      rw [hx, ok_bind]
      refine ⟨s', hx', ht.owned, ht.cache, ht.sends.trans hr.kept.sends, ht.connDeletions,
        ht.stored, fun k d' x => ?_⟩
      rw [ht.registered, registered_removed hs hc hmem hr, hmatch, hfind]
      simp [eq_comm]

/-- `s'` is `s` after the failure of the connection to the server: it is stored still, and has no
endpoints. -/
structure Failed (s : MqMgr) (svr : Str) (s' : MqMgr) : Prop where
  owned : s'.Owned
  mapConn : s'.mapConn = s.mapConn
  cache : s'.mapProcucer = s.mapProcucer
  sends : s'.mem.sends = s.mem.sends
  connDeletions : s'.connDeletions = s.connDeletions
  registered : ∀ k d e, s'.Registered k d e ↔ s.Registered k d e ∧ d.strMQSvr ≠ svr

theorem onException_ok (hs : s.Owned) (svr : Str) :
    ∃ s', s.onException svr = .ok s' ∧ Failed s svr s' := by
  cases hl : s.mapConn.lookup svr with
  | none =>
    refine ⟨s, by simp [onException, hl], hs, rfl, rfl, rfl, rfl, fun k d e => ⟨fun h => ⟨h, ?_⟩,
      And.left⟩⟩
    rintro rfl
    obtain ⟨b, -, -, hb, -⟩ := h
    rw [hl] at hb
    cases hb
  | some c =>
    obtain ⟨co, hc⟩ := hs.connLive _ c hl
    obtain ⟨m, hx, hd⟩ := Mem.disConn_ok hc (hs.mem.nodup c co hc) (hs.mem.live c co hc)
    exact ⟨{ s with mem := m }, by simp [onException, hl, hx], owned_down hs hc hd, rfl, rfl,
      hd.kept.sends, rfl, registered_down hs hl hc hd⟩

theorem delProducer_unparsed {u : Str} (hp : parseMqUri u = none) :
    s.delProducer u = .ok (dtkError, s) := by
  simp [delProducer, hp]

theorem delProducer_ok (hs : s.Owned) {u : Str} {d : Dst} (hp : parseMqUri u = some d) :
    ∃ s', s.delProducer u = .ok (dtkOk, { s' with mapProcucer := s.mapProcucer.erase u }) ∧
      Taken s .producer d s' := by
  obtain ⟨s', hx, ht⟩ := delFromConn_ok hs .producer d
  exact ⟨s', by simp [delProducer, hp, hx, ht.cache], ht⟩

theorem delConsumer_unparsed {u : Str} (hp : parseMqUri u = none) :
    s.delConsumer u = .ok (dtkError, s) := by
  simp [delConsumer, hp]

theorem delConsumer_ok (hs : s.Owned) {u : Str} {d : Dst} (hp : parseMqUri u = some d) :
    ∃ s', s.delConsumer u = .ok (dtkOk, s') ∧ Taken s .consumer d s' := by
  obtain ⟨s', hx, ht⟩ := delFromConn_ok hs .consumer d
  exact ⟨s', by simp [delConsumer, hp, hx], ht⟩

/-! ## `Fini` -/

/-- `s'` is `s` with every connection and every endpoint deleted. -/
structure Finished (s s' : MqMgr) : Prop where
  conns : ∀ c, s'.mem.conns.cell c = none
  ends : ∀ e, s'.mem.ends.cell e = none
  deletions : ∀ d ∈ s'.mem.deletions,
    d.listed = true ∧ d.obj.pDestination = none ∧ d.obj.pCp = none
  connDeletions : ∀ x ∈ s'.connDeletions, x ∈ s.connDeletions ∨ x.2 = true

/-- The loop of `Fini`. The connections that are left are those the loop has not reached. -/
theorem finiLoop_ok {l : List ((_ : Str) × ℕ)} (hs : s.mem.Owned)
    (hsub : ∀ x ∈ l, x ∈ s.mapConn.entries) (hnd : (l.map Sigma.snd).Nodup)
    (hlive : ∀ x ∈ l, ∃ co, s.mem.conns.cell x.2 = some co)
    (hall : ∀ c co, s.mem.conns.cell c = some co → c ∈ l.map Sigma.snd) :
    ∃ s', l.foldlM (fun s x => do
        let m ← s.mem.disConn x.2
        { s with mem := m }.deleteConn x.2) s = .ok s' ∧ Finished s s' := by
  induction l generalizing s with
  | nil =>
    have hnone : ∀ c, s.mem.conns.cell c = none := by
      intro c
      cases hc : s.mem.conns.cell c with
      | none => rfl
      | some co => exact absurd (hall c co hc) (by simp)
    refine ⟨s, rfl, hnone, fun e => ?_, hs.deleted, fun x hx => Or.inl hx⟩
    cases he : s.mem.ends.cell e with
    | none => rfl
    | some ep =>
      obtain ⟨c, co, hc, -⟩ := hs.stored e ep he
      rw [hnone] at hc
      cases hc
  | cons x l ih =>
    obtain ⟨hx, hnd⟩ := List.nodup_cons.mp hnd
    obtain ⟨co, hc⟩ := hlive x (List.mem_cons_self ..)
    obtain ⟨m, hm, hd⟩ := Mem.disConn_ok hc (hs.nodup _ co hc) (hs.live _ co hc)
    have hnew : m.conns.cell x.2 = some MqConnection.new := by rw [hd.conns, if_pos rfl]
    set s₁ : MqMgr := { s with
      mem := { m with conns := m.conns.remove x.2 }
      connDeletions := (x.2, s.mapConn.entries.any fun y => y.2 == x.2) :: s.connDeletions } with hs₁
    have hcell : ∀ b, b ≠ x.2 → s₁.mem.conns.cell b = s.mem.conns.cell b := by
      intro b hb
      simp [hs₁, Heap.remove_cell, hb, hd.conns]
    have hgone : s₁.mem.conns.cell x.2 = none := by simp [hs₁, Heap.remove_cell]
    have howned : s₁.mem.Owned := by
      refine (hs.down hc hd).conn_changed (c := x.2) (fun b hb => ?_) (fun co hco => ?_)
        (fun co hco => ?_) rfl (List.Subset.refl _)
      · simp [hs₁, Heap.remove_cell, hb]
      · rw [hnew] at hco
        obtain rfl := Option.some.inj hco
        rfl
      · rw [hgone] at hco
        cases hco
    have hne : ∀ y ∈ l, y.2 ≠ x.2 := fun y hy h => hx (h ▸ List.mem_map_of_mem hy)
    obtain ⟨s', hx', hf⟩ := ih (s := s₁) howned
      (fun y hy => hsub y (List.mem_cons_of_mem x hy)) hnd
      (fun y hy => by
        rw [hcell _ (hne y hy)]
        exact hlive y (List.mem_cons_of_mem x hy))
      (fun c co hco => by
        have hcx : c ≠ x.2 := by
          rintro rfl
          rw [hgone] at hco
          cases hco
        rw [hcell c hcx] at hco
        exact (List.mem_cons.mp (hall c co hco)).resolve_left hcx)
    refine ⟨s', ?_, hf.conns, hf.ends, hf.deletions, fun y hy => ?_⟩
    · rw [List.foldlM_cons, hm, ok_bind, deleteConn_ok (s := { s with mem := m }) hnew, ok_bind]
      exact hx'
    · rcases hf.connDeletions y hy with h | h
      · rcases List.mem_cons.mp h with rfl | h
        · have hmem := hsub x (List.mem_cons_self ..)
          exact Or.inr (List.any_eq_true.mpr ⟨x, hmem, by simp⟩)
        · exact Or.inl h
      · exact Or.inr h

theorem fini_ok (hs : s.Owned) : ∃ s', s.fini = .ok s' ∧ Finished s s' := by
  have hlook : ∀ x ∈ s.mapConn.entries, s.mapConn.lookup x.1 = some x.2 :=
    fun x hx => AList.mem_lookup_iff.mpr hx
  have hnd : (s.mapConn.entries.map Sigma.snd).Nodup := by
    refine List.Nodup.map_on (fun x hx y hy hxy => ?_) s.mapConn.nodupKeys.nodup
    have hkey := hs.connInj x.1 y.1 x.2 (hlook x hx) (hxy ▸ hlook y hy)
    exact Sigma.ext hkey (heq_of_eq hxy)
  obtain ⟨s', hx, hf⟩ := finiLoop_ok (s := s) hs.mem (fun x hx => hx) hnd
    (fun x hx => hs.connLive x.1 x.2 (hlook x hx))
    (fun c co hc => by
      obtain ⟨svr, hl⟩ := hs.connStored c co hc
      exact List.mem_map.mpr ⟨⟨svr, c⟩, AList.mem_lookup_iff.mp hl, rfl⟩)
  exact ⟨{ s' with mapProcucer := ∅, mapConn := ∅ }, by simp [fini, hx],
    hf.conns, hf.ends, hf.deletions, hf.connDeletions⟩

end AppUtil.Mq.MqMgr
