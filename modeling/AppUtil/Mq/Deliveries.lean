import AppUtil.Mq.Listeners

/-! # Messages and callbacks

In every state a consumer that is still open has the object that was made for it, and the object has
the callback that `AddConsumer` was given for the destination. -/
namespace AppUtil.Mq
open AppUtil.Lib AppUtil.Lib.Lifetime
open AppUtil.Lib.Formatting (cstr)
set_option autoImplicit false

/-! ## Who is called -/

theorem createEndpoint_of_sessionOf {log : List CmsCall} {x s : ℕ} (h : sessionOf x log = some s) :
    ∃ kind d, .createEndpoint kind s x d ∈ log := by
  induction log with
  | nil => cases h
  | cons call log ih =>
    have hrest : sessionOf x log = some s → ∃ kind d, .createEndpoint kind s x d ∈ call :: log := by
      intro h
      obtain ⟨kind, d, hmem⟩ := ih h
      exact ⟨kind, d, List.mem_cons_of_mem call hmem⟩
    cases call with
    | createEndpoint kind s' e d =>
      simp only [sessionOf] at h
      by_cases he : e = x
      · rw [if_pos he] at h
        obtain rfl := Option.some.inj h
        subst he
        exact ⟨kind, d, List.mem_cons_self ..⟩
      · rw [if_neg he] at h
        exact hrest h
    | _ => exact hrest h

/-- A consumer that an endpoint holds is there, and so is its session. -/
theorem not_gone {m : Mem} (hw : m.Wired) {e x : ℕ} {ep : MqEndpoint} (he : m.ends.cell e = some ep)
    (hcp : ep.pCp = some x) : gone m.cms.log x = false := by
  obtain ⟨halive, c, co, s, hc, -, hs, hborn⟩ := hw.held e ep x he (Or.inr hcp)
  have hevent : ∀ {call o}, call ∈ m.cms.log → call.deletes = some o → Event.died o ∈ m.cms.events := by
    intro call o hmem hdel
    have hcall : call.event m.cms.closeThrows = .died o := CmsCall.event_of_deletes hdel
    rw [← hcall]
    exact List.mem_map_of_mem (f := CmsCall.event m.cms.closeThrows) hmem
  unfold gone
  rw [Bool.or_eq_false_iff]
  constructor
  · exact decide_eq_false fun hmem => halive.2 (hevent hmem rfl)
  · cases hsess : sessionOf x m.cms.log with
    | none => rfl
    | some t =>
      obtain ⟨kind, d, hmem⟩ := createEndpoint_of_sessionOf hsess
      have hborn' : Event.born (.child x) (some (.session t)) ∈ m.cms.events :=
        List.mem_map_of_mem (f := CmsCall.event m.cms.closeThrows) hmem
      obtain rfl := CmsObj.session.inj
        (Option.some.inj (hw.disciplined.born_unique hborn hborn'))
      exact decide_eq_false fun hdel => (hw.session c co s hc hs).1.2 (hevent hdel rfl)

namespace Listening
variable {w w' : Listening}

/-- What every step keeps. -/
structure Sound (w : Listening) : Prop where
  owned : w.mgr.Owned
  wired : w.mgr.mem.Wired
  single : w.mgr.SingleConsumer
  heard : Heard w.mgr.mem w.requests w.listeners
  answers : w.mgr.Answers w.requests

theorem start_sound (closeThrows : ℕ → Bool) : (start closeThrows).Sound := by
  refine ⟨MqMgr.init_owned closeThrows, MqMgr.init_wired closeThrows,
    MqMgr.init_singleConsumer closeThrows, ?_, fun rq hrq => nomatch hrq⟩
  constructor <;> simp [start, MqMgr.init]

theorem exec_sound {ev : Event} (h : w.Sound) (hx : w.exec ev = .ok w') : w'.Sound := by
  cases ev with
  | call op =>
    obtain ⟨s, hs, hx⟩ := bind_eq_ok.mp hx
    cases hx
    exact ⟨MqMgr.exec_owned h.owned hs, MqMgr.exec_wired h.owned h.wired hs,
      MqMgr.exec_singleConsumer h.owned h.single hs, MqMgr.exec_heard h.owned h.wired h.heard hs,
      MqMgr.exec_answers h.owned h.heard h.answers hs⟩
  | deliver x message =>
    simp only [exec] at hx
    cases hl : w.listener x with
    | none =>
      simp only [hl] at hx
      cases hx
      exact h
    | some e =>
      simp only [hl] at hx
      obtain ⟨ep, -, hx⟩ := bind_eq_ok.mp hx
      cases hx
      exact ⟨h.owned, h.wired, h.single, h.heard, h.answers⟩

theorem reaches_sound {closeThrows : ℕ → Bool} {L : Event → Prop}
    (h : Reaches exec L (start closeThrows) w) : w.Sound :=
  h.inv (P := Sound) (fun _ _ _ _ hs hx => exec_sound hs hx) (start_sound closeThrows)

/-- A consumer that has not been closed has one listener, its object. -/
theorem listener_open (h : w.Sound) {x e : ℕ} (hx : (x, e) ∈ w.listeners)
    (hn : .close x ∉ w.mgr.mem.cms.log) : w.listener x = some e := by
  obtain ⟨ep, he, hcp⟩ := h.heard.live x e hx hn
  unfold listener
  rw [not_gone h.wired he hcp, if_neg Bool.false_ne_true]
  cases hf : w.listeners.find? fun l => decide (l.1 = x) with
  | none =>
    have := List.find?_eq_none.mp hf (x, e) hx
    simp at this
  | some l =>
    obtain ⟨y, a⟩ := l
    have hy := List.find?_some hf
    obtain rfl : y = x := of_decide_eq_true hy
    obtain ⟨ap, ha, hcpa⟩ := h.heard.live y a (List.mem_of_find?_eq_some hf) hn
    obtain rfl := h.wired.oneHolder a e ap ep y ha he (Or.inr hcpa) (Or.inr hcp)
    rfl

theorem listener_mem {x e : ℕ} (h : w.listener x = some e) :
    (x, e) ∈ w.listeners ∧ gone w.mgr.mem.cms.log x = false := by
  unfold listener at h
  cases hg : gone w.mgr.mem.cms.log x with
  | true =>
    rw [hg, if_pos rfl] at h
    cases h
  | false =>
    rw [hg, if_neg Bool.false_ne_true] at h
    obtain ⟨⟨y, a⟩, hf, rfl⟩ := Option.map_eq_some_iff.mp h
    have hy := List.find?_some hf
    obtain rfl : y = x := of_decide_eq_true hy
    exact ⟨List.mem_of_find?_eq_some hf, rfl⟩

/-- The object at `e` is what `AddConsumer` made for the request, it is registered for the
destination of its url, and the session has made its consumer `x` for the C string of the name. -/
def Serves (w : Listening) (x e : ℕ) (rq : Request) (pfnMsgCb : ℕ) (d : Dst) : Prop :=
  rq ∈ w.requests ∧ rq.ptr = e ∧ rq.pfnMsgCb = some pfnMsgCb ∧ parseMqUri rq.strUrl = some d ∧
    w.mgr.Registered .consumer d e ∧ ∃ s k, .createEndpoint .consumer s x k ∈ w.mgr.mem.cms.log ∧
      .createDestination s k d.nType (cstr d.strDstName) ∈ w.mgr.mem.cms.log

/-- What `onMessage` does with a callback and its user pointer. -/
def reception (pfnMsgCb pUser : ℕ) (message : Message) : Reception :=
  if message.isBytes = false ∨ message.bytesThrows = true then ⟨none, false⟩
  else if message.lengthThrows = true then ⟨none, true⟩
  else ⟨some ⟨pfnMsgCb, message.body, message.body.length, pUser⟩, message.cbThrows⟩

theorem onMessage_eq {ep : MqEndpoint} {pfnMsgCb : ℕ} (h : ep.pMsgCb = some pfnMsgCb)
    (message : Message) : ep.onMessage message = reception pfnMsgCb ep.pUser message := by
  unfold MqEndpoint.onMessage reception
  rw [h]
  cases message.isBytes <;> cases message.bytesThrows <;> simp

theorem serves_open (h : w.Sound) {x e : ℕ} (hx : (x, e) ∈ w.listeners)
    (hn : .close x ∉ w.mgr.mem.cms.log) : ∃ rq cb d, w.Serves x e rq cb d ∧
      ∀ message, w.exec (.deliver x message) =
        .ok { w with received := (x, reception cb rq.pUser message) :: w.received } := by
  obtain ⟨ep, he, hcp⟩ := h.heard.live x e hx hn
  obtain ⟨rq, hrq, rfl, dst, s, k, hp, hend, hdst⟩ := h.heard.made x e hx
  obtain ⟨hcb, d, hp', hreg⟩ := h.answers rq hrq ep he
  obtain rfl := Option.some.inj (hp.symm.trans hp')
  obtain ⟨cb, hcb⟩ := Option.ne_none_iff_exists'.mp hcb
  obtain ⟨hfn, huser⟩ := (h.heard.asked rq hrq).2 ep he
  refine ⟨rq, cb, dst, ⟨hrq, rfl, hcb, hp, hreg, s, k, hend, hdst⟩, fun message => ?_⟩
  simp only [exec, listener_open h hx hn, Heap.deref_ok he, ok_bind, pure_eq_ok]
  rw [onMessage_eq (hfn.trans hcb), huser]

/-- A message for a consumer that has been closed and is there still meets the deleted object. -/
theorem deliver_closed (h : w.Sound) {x e : ℕ} (hmem : (x, e) ∈ w.listeners)
    (hclosed : .close x ∈ w.mgr.mem.cms.log) (hgone : gone w.mgr.mem.cms.log x = false)
    (message : Message) : w.exec (.deliver x message) = .error .useAfterFree := by
  cases hl : w.listener x with
  | none =>
    unfold listener at hl
    rw [hgone, if_neg Bool.false_ne_true] at hl
    have := List.find?_eq_none.mp (Option.map_eq_none_iff.mp hl) (x, e) hmem
    simp at this
  | some a =>
    have hdead := h.heard.dead x a (listener_mem hl).1 hclosed
    simp only [exec, hl, Heap.deref, hdead]
    rfl

/-- **Messages reach the callback that was asked for.** In every state that a run of operations and
messages reaches, a consumer with a listener that has not been closed has the object of the
`AddConsumer` for its server, name and mode, no other such consumer has these three, and a message for
it does what `reception` says and nothing else: where it is a `BytesMessage` whose body and length can
be had it leads to one call of that callback with the body and the user pointer, and else to none. A
message meets a deleted object exactly when its consumer has been closed, the `close()` threw, and
its session is still there. -/
theorem messages_delivered (closeThrows : ℕ → Bool) (w : Listening)
    (h : Reaches exec (fun _ => True) (start closeThrows) w) :
    (∀ x e, (x, e) ∈ w.listeners → .close x ∉ w.mgr.mem.cms.log →
      ∃ rq cb d, w.Serves x e rq cb d ∧
        (∀ message, w.exec (.deliver x message) =
          .ok { w with received := (x, reception cb rq.pUser message) :: w.received }) ∧
        ∀ x' e' rq' cb', (x', e') ∈ w.listeners → .close x' ∉ w.mgr.mem.cms.log →
          w.Serves x' e' rq' cb' d → x' = x) ∧
    ∀ x message f, w.exec (.deliver x message) = .error f ↔
      f = .useAfterFree ∧ (∃ e, (x, e) ∈ w.listeners) ∧ .close x ∈ w.mgr.mem.cms.log ∧
        w.mgr.mem.cms.closeThrows x = true ∧ gone w.mgr.mem.cms.log x = false := by
  have hw := reaches_sound h
  constructor
  · intro x e hx hn
    obtain ⟨rq, cb, d, hserves, hdeliver⟩ := serves_open hw hx hn
    refine ⟨rq, cb, d, hserves, hdeliver, fun x' e' rq' cb' hx' hn' hserves' => ?_⟩
    -- a destination has only one consumer, and an object only one
    obtain ⟨-, -, -, -, hreg, -⟩ := hserves
    obtain ⟨-, -, -, -, hreg', -⟩ := hserves'
    obtain rfl := hw.single d e e' hreg hreg'
    obtain ⟨ep, he, hcp⟩ := hw.heard.live x e hx hn
    obtain ⟨ep', he', hcp'⟩ := hw.heard.live x' e hx' hn'
    obtain rfl := Option.some.inj (he.symm.trans he')
    exact Option.some.inj (hcp'.symm.trans hcp)
  · intro x message f
    constructor
    · intro hx
      cases hl : w.listener x with
      | none =>
        simp only [exec, hl] at hx
        cases hx
      | some e =>
        obtain ⟨hmem, hgone⟩ := listener_mem hl
        have hclosed : .close x ∈ w.mgr.mem.cms.log := by
          by_contra hn
          obtain ⟨rq, cb, d, -, hdeliver⟩ := serves_open hw hmem hn
          rw [hdeliver] at hx
          cases hx
        have hdead := hw.heard.dead x e hmem hclosed
        simp only [exec, hl, Heap.deref, hdead] at hx
        cases hx
        refine ⟨rfl, ⟨e, hmem⟩, hclosed, ?_, hgone⟩
        by_contra ht
        have hdel := hw.heard.deleted x hclosed (Bool.eq_false_iff.mpr ht)
        simp [gone, hdel] at hgone
    · rintro ⟨rfl, ⟨e, hmem⟩, hclosed, -, hgone⟩
      exact deliver_closed hw hmem hclosed hgone message

/-- A consumer is called while it is there. With a second consumer on its session, and a `close()`
that throws, `DelConsumer` leaves it with a deleted listener. -/
theorem messages_delivered_sample : ∃ w w' : Listening,
    w.exec (.deliver 3 ⟨true, ['m'], false, false, false⟩) =
      .ok { w with received := (3, ⟨some ⟨7, ['m'], 1, 9⟩, false⟩) :: w.received } ∧
    w'.exec (.deliver 3 ⟨true, ['m'], false, false, false⟩) = .error .useAfterFree := by
  have hgo : ∃ w₁ w₂ w₃ : Listening,
      (start fun x => x = 3).exec (.call
        (.addConsumer (urlOf ⟨['S'], ['D'], .mqModeQueue⟩) (some 7) 9 .ok)) = .ok w₁ ∧
      w₁.exec (.call (.addConsumer (urlOf ⟨['S'], ['E'], .mqModeQueue⟩) (some 7) 9 .ok)) = .ok w₂ ∧
      w₂.exec (.call (.delConsumer (urlOf ⟨['S'], ['D'], .mqModeQueue⟩))) = .ok w₃ ∧
      (3, 0) ∈ w₁.listeners ∧ .close 3 ∉ w₁.mgr.mem.cms.log ∧
      w₁.requests = [⟨0, urlOf ⟨['S'], ['D'], .mqModeQueue⟩, some 7, 9⟩] ∧
      (3, 0) ∈ w₃.listeners ∧ .close 3 ∈ w₃.mgr.mem.cms.log ∧ w₃.mgr.mem.cms.closeThrows 3 = true ∧
      gone w₃.mgr.mem.cms.log 3 = false :=
    ⟨_, _, _, rfl, rfl, rfl, by decide, by decide, rfl, by decide, by decide, rfl, rfl⟩
  obtain ⟨w₁, w₂, w₃, hx₁, hx₂, hx₃, hl₁, hc₁, hrq, hl₃, hc₃, ht₃, hg₃⟩ := hgo
  have h₁ : Reaches exec (fun _ => True) (start fun x => x = 3) w₁ := .next _ .start trivial hx₁
  have h₃ := Reaches.next _ (.next _ h₁ trivial hx₂) trivial hx₃
  obtain ⟨rq, cb, d, ⟨hmem, -, hcb, -⟩, hdeliver, -⟩ := (messages_delivered _ w₁ h₁).1 3 0 hl₁ hc₁
  rw [hrq] at hmem
  obtain rfl := List.mem_singleton.mp hmem
  cases hcb
  exact ⟨w₁, w₃, hdeliver _,
    ((messages_delivered _ w₃ h₃).2 3 _ _).mpr ⟨rfl, ⟨0, hl₃⟩, hc₃, ht₃, hg₃⟩⟩

end Listening
end AppUtil.Mq
