import AppUtil.Ws.WsService

/-! # Starting, serving and stopping the web service

What holds of every thread over every run of `Start`, `Stop` and the steps of the threads in any order:
the words it says to its service object, the object it leaves behind, and how little it still does after
`Stop`. -/
namespace AppUtil.Ws
set_option autoImplicit false

variable {t t' u : SubRecvThread} {s : CWsService} {l : List SoapCall}

/-! ## One step of a thread -/

/-- The calls of the next step. -/
def SubRecvThread.said (iPort : ℤ) (answer : Bool) (t : SubRecvThread) : List SoapCall :=
  match t.place with
  | .entry => if answer then [.new] else []
  | .binding => [.bind iPort answer]
  | .accepting => [.accept answer]
  | .serving => [.serve]
  | .deleting => [.delete]
  | .test | .sleeping _ | .woken _ | .returned _ => []

theorem next_calls (iPort : ℤ) (bExit answer : Bool) (t : SubRecvThread) :
    (t.next iPort bExit answer).calls = t.calls ++ t.said iPort answer := by
  obtain ⟨place, bBind, calls⟩ := t
  cases place with
  | test => cases bExit <;> cases bBind <;> simp [SubRecvThread.next, SubRecvThread.said]
  | woken i =>
    cases bExit with
    | true => simp [SubRecvThread.next, SubRecvThread.said]
    | false =>
      by_cases hi : i + 1 < 30
      · simp [SubRecvThread.next, SubRecvThread.said, hi]
      · simp [SubRecvThread.next, SubRecvThread.said, hi]
  | _ => cases answer <;> simp [SubRecvThread.next, SubRecvThread.said, SubRecvThread.say]

def SoapCall.isAccept : SoapCall → Bool
  | .accept _ => true
  | _ => false

def SoapCall.isBind : SoapCall → Bool
  | .bind _ _ => true
  | _ => false

def SoapCall.isServe (c : SoapCall) : Bool := c = .serve

/-- How many more steps a thread takes once `m_bExit` is set. -/
def Place.left : Place → ℕ
  | .returned _ => 0
  | .deleting | .woken _ => 1
  | .test | .sleeping _ => 2
  | .entry | .serving => 3
  | .accepting => 4
  | .binding => 5

/-- How many of them call `accept`. -/
def Place.accepts : Place → ℕ
  | .binding | .accepting => 1
  | _ => 0

/-- How many of them serve a client. -/
def Place.serves : Place → ℕ
  | .binding | .accepting | .serving => 1
  | _ => 0

/-- How many of them call `bind`. -/
def Place.binds : Place → ℕ
  | .binding => 1
  | _ => 0

/-- From `t` to `t'`, of which `n` steps are the thread's, it has done no more than it has left. -/
structure Winds (n : ℕ) (t t' : SubRecvThread) : Prop where
  steps : t'.place.left ≤ t.place.left - n
  accepts : t'.calls.countP SoapCall.isAccept + t'.place.accepts ≤
    t.calls.countP SoapCall.isAccept + t.place.accepts
  serves : t'.calls.countP SoapCall.isServe + t'.place.serves ≤
    t.calls.countP SoapCall.isServe + t.place.serves
  binds : t'.calls.countP SoapCall.isBind + t'.place.binds ≤ t.calls.countP SoapCall.isBind + t.place.binds
  calls : t.calls <+: t'.calls

theorem Winds.refl (t : SubRecvThread) : Winds 0 t t :=
  ⟨Nat.le_refl _, Nat.le_refl _, Nat.le_refl _, Nat.le_refl _, List.prefix_rfl⟩

theorem Winds.trans {m n : ℕ} (h : Winds m t t') (h' : Winds n t' u) : Winds (m + n) t u := by
  obtain ⟨hs, ha, he, hb, hc⟩ := h
  obtain ⟨hs', ha', he', hb', hc'⟩ := h'
  refine ⟨?_, Nat.le_trans ha' ha, Nat.le_trans he' he, Nat.le_trans hb' hb, List.IsPrefix.trans hc hc'⟩
  omega

theorem Winds.step (iPort : ℤ) (answer : Bool) (t : SubRecvThread) :
    Winds 1 t (t.next iPort true answer) := by
  have hcalls := next_calls iPort true answer t
  refine ⟨?_, ?_, ?_, ?_, ?_⟩
  · obtain ⟨place, bBind, calls⟩ := t
    cases place <;> cases answer <;> simp [SubRecvThread.next, SubRecvThread.say, Place.left]
  · rw [hcalls, List.countP_append]
    obtain ⟨place, bBind, calls⟩ := t
    cases place <;> cases answer <;> simp [SubRecvThread.next, SubRecvThread.say, SubRecvThread.said,
      Place.accepts, SoapCall.isAccept]
  · rw [hcalls, List.countP_append]
    obtain ⟨place, bBind, calls⟩ := t
    cases place <;> cases answer <;> simp [SubRecvThread.next, SubRecvThread.say, SubRecvThread.said,
      Place.serves, SoapCall.isServe]
  · rw [hcalls, List.countP_append]
    obtain ⟨place, bBind, calls⟩ := t
    cases place <;> cases answer <;> simp [SubRecvThread.next, SubRecvThread.say, SubRecvThread.said,
      Place.binds, SoapCall.isBind]
  · rw [hcalls]
    exact List.prefix_append _ _

/-! ## Runs after `Stop` -/

def WsAct.isStep (k : ℕ) : WsAct → Bool
  | .step j _ => j = k
  | _ => false

theorem act_exit (h : s.bExit = true) (a : WsAct) : (s.act a).bExit = true := by
  cases a with
  | stop => rfl
  | _ => exact h

/-- A thread stays where it is in the list, and only its own steps move it. -/
theorem act_winds {k : ℕ} (h : s.bExit = true) (hk : s.threads[k]? = some t) (a : WsAct) :
    ∃ t', (s.act a).threads[k]? = some t' ∧ Winds (if a.isStep k then 1 else 0) t t' := by
  cases a with
  | start iPort created =>
    refine ⟨t, ?_, Winds.refl t⟩
    cases created with
    | true => exact List.getElem?_append_left (List.getElem?_eq_some_iff.mp hk).1 |>.trans hk
    | false => exact hk
  | stop => exact ⟨t, hk, Winds.refl t⟩
  | step j answer =>
    have hmod : (s.act (.step j answer)).threads[k]? =
        some (if j = k then t.next s.iPort s.bExit answer else t) := by
      simp [CWsService.act, List.getElem?_modify, hk]
    refine ⟨_, hmod, ?_⟩
    by_cases hj : j = k
    · simp only [WsAct.isStep, hj, decide_true, if_true, h]
      exact Winds.step s.iPort answer t
    · simp only [WsAct.isStep, hj, decide_false, if_false]
      exact Winds.refl t

theorem run_winds {k : ℕ} (h : s.bExit = true) (hk : s.threads[k]? = some t) (acts : List WsAct) :
    ∃ t', (s.run acts).threads[k]? = some t' ∧ Winds (acts.countP (WsAct.isStep k)) t t' := by
  induction acts generalizing s t with
  | nil => exact ⟨t, hk, Winds.refl t⟩
  | cons a acts ih =>
    obtain ⟨t₁, hk₁, h₁⟩ := act_winds h hk a
    obtain ⟨t₂, hk₂, h₂⟩ := ih (act_exit h a) hk₁
    refine ⟨t₂, hk₂, ?_⟩
    rw [List.countP_cons, Nat.add_comm]
    exact h₁.trans h₂

theorem act_begun {k : ℕ} (hk : s.threads[k]? = none) {a : WsAct} (ht : (s.act a).threads[k]? = some t) :
    t = .begun := by
  cases a with
  | start iPort created =>
    cases created with
    | true =>
      have hmem : (s.threads ++ [SubRecvThread.begun])[k]? = some t := ht
      rw [List.getElem?_append_right (List.getElem?_eq_none_iff.mp hk)] at hmem
      exact List.mem_singleton.mp (List.mem_of_getElem? hmem)
    | false =>
      have hsome : s.threads[k]? = some t := ht
      rw [hk] at hsome
      cases hsome
  | stop =>
    have hsome : s.threads[k]? = some t := ht
    rw [hk] at hsome
    cases hsome
  | step j answer => simp [CWsService.act, List.getElem?_modify, hk] at ht

/-- A thread that is begun after `Stop`. -/
theorem run_winds_begun {k : ℕ} (h : s.bExit = true) (hk : s.threads[k]? = none) (acts : List WsAct)
    (ht : (s.run acts).threads[k]? = some t') : ∃ n, Winds n .begun t' := by
  induction acts generalizing s with
  | nil =>
    rw [CWsService.run, List.foldl_nil, hk] at ht
    cases ht
  | cons a acts ih =>
    cases hk₁ : (s.act a).threads[k]? with
    | none => exact ih (act_exit h a) hk₁ ht
    | some t₁ =>
      have hbegun : t₁ = .begun := act_begun hk hk₁
      obtain ⟨t₂, hk₂, h₂⟩ := run_winds (act_exit h a) hk₁ acts
      obtain rfl : t₂ = t' := Option.some.inj (hk₂.symm.trans ht)
      exact ⟨_, hbegun ▸ h₂⟩

/-- `t'` is `t` after its `n` last steps. -/
structure Winding (n : ℕ) (t t' : SubRecvThread) : Prop where
  accepts : t'.calls.countP SoapCall.isAccept ≤ t.calls.countP SoapCall.isAccept +
    if t.place = .binding ∨ t.place = .accepting then 1 else 0
  serves : t'.calls.countP SoapCall.isServe ≤ t.calls.countP SoapCall.isServe +
    if t.place = .binding ∨ t.place = .accepting ∨ t.place = .serving then 1 else 0
  binds : t'.calls.countP SoapCall.isBind ≤ t.calls.countP SoapCall.isBind +
    if t.place = .binding then 1 else 0
  returns : 5 ≤ n → ∃ e, t'.place = .returned e

theorem Winds.winding {n : ℕ} (h : Winds n t t') : Winding n t t' := by
  have hplace : t.place.left ≤ 5 ∧
      t.place.accepts = (if t.place = .binding ∨ t.place = .accepting then 1 else 0) ∧
      t.place.serves = (if t.place = .binding ∨ t.place = .accepting ∨ t.place = .serving then 1 else 0) ∧
      t.place.binds = (if t.place = .binding then 1 else 0) := by
    cases t.place <;> simp [Place.left, Place.accepts, Place.serves, Place.binds]
  obtain ⟨hleft, ha, hs, hb⟩ := hplace
  refine ⟨?_, ?_, ?_, fun hn => ?_⟩
  · rw [← ha]
    exact Nat.le_trans (Nat.le_add_right _ _) h.accepts
  · rw [← hs]
    exact Nat.le_trans (Nat.le_add_right _ _) h.serves
  · rw [← hb]
    exact Nat.le_trans (Nat.le_add_right _ _) h.binds
  · have hzero : t'.place.left = 0 := by
      have := h.steps
      omega
    cases hp : t'.place with
    | returned e => exact ⟨e, rfl⟩
    | _ =>
      rw [hp] at hzero
      cases hzero

/-- What becomes of the thread with index `k` when `acts` follow a `Stop` in `s`. -/
def EndsAfterStop (s : CWsService) (acts : List WsAct) (k : ℕ) (t' : SubRecvThread) : Prop :=
  match s.threads[k]? with
  | some t => Winding (acts.countP (WsAct.isStep k)) t t'
  | none => ∀ c ∈ t'.calls, c.isBind = false ∧ c.isAccept = false ∧ c.isServe = false

/-- **`Stop` is final.** Whatever is done after it, in whatever order: a thread that was there calls
`accept` at most once more, and only if it was about to, it serves at most one client more, and it returns
within five of its steps; a thread that is begun later never binds, accepts or serves. -/
theorem stop_is_final (s : CWsService) (acts : List WsAct) (k : ℕ) (t' : SubRecvThread)
    (ht' : (s.stop.run acts).threads[k]? = some t') : EndsAfterStop s acts k t' := by
  unfold EndsAfterStop
  cases hk : s.threads[k]? with
  | some t =>
    obtain ⟨u, hu, hw⟩ := run_winds (s := s.stop) rfl hk acts
    obtain rfl : u = t' := Option.some.inj (hu.symm.trans ht')
    exact hw.winding
  | none =>
    obtain ⟨n, hw⟩ := run_winds_begun (s := s.stop) rfl hk acts ht'
    have hb := hw.binds
    have ha := hw.accepts
    have hs := hw.serves
    simp only [SubRecvThread.begun, Place.binds, Place.accepts, Place.serves, List.countP_nil,
      Nat.add_zero, Nat.le_zero, Nat.add_eq_zero_iff, List.countP_eq_zero] at hb ha hs
    intro c hc
    exact ⟨Bool.eq_false_iff.mpr (hb.1 c hc), Bool.eq_false_iff.mpr (ha.1 c hc),
      Bool.eq_false_iff.mpr (hs.1 c hc)⟩

/-- A service that is started again after `Stop`: its thread returns at once. -/
theorem stop_is_final_restarted :
    (CWsService.created.stop.run [.start 80 true, .step 0 true, .step 0 true, .step 0 true]).threads[0]? =
      some ⟨.returned .atEnd, false, [.new, .delete]⟩ ∧
    EndsAfterStop .created [.start 80 true, .step 0 true, .step 0 true, .step 0 true] 0
      ⟨.returned .atEnd, false, [.new, .delete]⟩ :=
  ⟨by decide, stop_is_final .created _ 0 _ (by decide)⟩

/-! ## Any run -/

theorem Rounds.no_object {a : List SoapCall} (h : Rounds a) : SoapCall.new ∉ a ∧ SoapCall.delete ∉ a := by
  induction h with
  | none => simp
  | refused _ ih => simp [ih]
  | served _ ih => simp [ih]

theorem Retries.no_object {r : List SoapCall} (h : Retries r) : SoapCall.new ∉ r ∧ SoapCall.delete ∉ r := by
  refine ⟨fun hmem => ?_, fun hmem => ?_⟩
  · obtain ⟨p, hp⟩ := h _ hmem
    cases hp
  · obtain ⟨p, hp⟩ := h _ hmem
    cases hp

/-- Up to the test of the loop the object has been made once and not been deleted. -/
theorem Spoken.object {b : Bool} (h : Spoken b l) : l.count .new = 1 ∧ l.count .delete = 0 := by
  cases b with
  | false =>
    obtain ⟨r, hr, rfl⟩ := h
    obtain ⟨hn, hd⟩ := hr.no_object
    simp [List.count_eq_zero.mpr hn, List.count_eq_zero.mpr hd]
  | true =>
    obtain ⟨r, p, a, hr, ha, rfl⟩ := h
    obtain ⟨hn, hd⟩ := hr.no_object
    obtain ⟨hn', hd'⟩ := ha.no_object
    simp [List.count_append, List.count_eq_zero.mpr hn, List.count_eq_zero.mpr hd,
      List.count_eq_zero.mpr hn', List.count_eq_zero.mpr hd']

/-- Whether the thread has its service object, and whether it has deleted it. -/
structure Owns (t : SubRecvThread) : Prop where
  made : t.calls.count .new = if t.place = .entry ∨ t.place = .returned .noMemory then 0 else 1
  deleted : t.calls.count .delete = if t.place = .returned .atEnd then 1 else 0

theorem SubRecvThread.Keeps.owns (h : t.Keeps) : Owns t := by
  obtain ⟨place, bBind, calls⟩ := t
  have hobject : ∀ {p : Place} {b b' : Bool}, Spoken b calls →
      p ≠ .entry → p ≠ .returned .noMemory → p ≠ .returned .atEnd → Owns ⟨p, b', calls⟩ := by
    intro p b b' hs he hn ha
    refine ⟨?_, ?_⟩
    · rw [if_neg (by simp [he, hn])]
      exact hs.object.1
    · rw [if_neg ha]
      exact hs.object.2
  cases place with
  | entry =>
    obtain ⟨-, rfl⟩ := h
    exact ⟨rfl, rfl⟩
  | test | deleting => exact hobject h (by simp) (by simp) (by simp)
  | binding | sleeping i | woken i | accepting => exact hobject h.2 (by simp) (by simp) (by simp)
  | serving =>
    obtain ⟨-, l, hs, rfl⟩ := h
    obtain ⟨hn, hd⟩ := hs.object
    exact ⟨by simp [List.count_append, hn], by simp [List.count_append, hd]⟩
  | returned e =>
    cases e with
    | noMemory =>
      obtain rfl := h
      exact ⟨rfl, rfl⟩
    | asleep => exact hobject h.2 (by simp) (by simp) (by simp)
    | atEnd =>
      obtain ⟨l, hs, rfl⟩ := h
      obtain ⟨hn, hd⟩ := hs.object
      exact ⟨by simp [List.count_append, hn], by simp [List.count_append, hd]⟩

/-- Every thread keeps to its words, has the object that its place says, and binds to ports in `P`. -/
def Serves (P : ℤ → Prop) (s : CWsService) : Prop :=
  ∀ t ∈ s.threads, t.Keeps ∧ Owns t ∧ ∀ p v, SoapCall.bind p v ∈ t.calls → P p

theorem next_bind {P : ℤ → Prop} (hs : P s.iPort) (ht : ∀ p v, SoapCall.bind p v ∈ t.calls → P p)
    (answer : Bool) : ∀ p v, SoapCall.bind p v ∈ (t.next s.iPort s.bExit answer).calls → P p := by
  intro p v hp
  rw [next_calls] at hp
  rcases List.mem_append.mp hp with hp | hp
  · exact ht p v hp
  · obtain ⟨place, bBind, calls⟩ := t
    cases place <;> cases answer <;> simp [SubRecvThread.said] at hp
    all_goals
      obtain ⟨rfl, -⟩ := hp
      exact hs

theorem act_serves {P : ℤ → Prop} {a : WsAct} (ha : ∀ p c, a = .start p c → 0 < p → P p)
    (hs : P s.iPort) (h : Serves P s) : P (s.act a).iPort ∧ Serves P (s.act a) := by
  cases a with
  | start iPort created =>
    refine ⟨?_, fun t ht => ?_⟩
    · by_cases hp : iPort > 0
      · rw [show (s.act (.start iPort created)).iPort = iPort from if_pos hp]
        exact ha iPort created rfl hp
      · rw [show (s.act (.start iPort created)).iPort = s.iPort from if_neg hp]
        exact hs
    · cases created with
      | false => exact h t ht
      | true =>
        rcases List.mem_append.mp ht with ht | ht
        · exact h t ht
        · obtain rfl := List.mem_singleton.mp ht
          exact ⟨⟨rfl, rfl⟩, ⟨rfl, rfl⟩, fun p v hp => by cases hp⟩
  | stop => exact ⟨hs, h⟩
  | step k answer =>
    refine ⟨hs, fun t' ht' => ?_⟩
    obtain ⟨j, hj⟩ := List.mem_iff_getElem?.mp ht'
    simp only [CWsService.act, List.getElem?_modify, Option.map_eq_map, Option.map_eq_some_iff] at hj
    obtain ⟨t, ht, rfl⟩ := hj
    obtain ⟨hkeeps, howns, hport⟩ := h t (List.mem_of_getElem? ht)
    by_cases hk : k = j
    · rw [if_pos hk]
      have hnext := hkeeps.next s.iPort s.bExit answer
      exact ⟨hnext, hnext.owns, next_bind hs hport answer⟩
    · rw [if_neg hk]
      exact ⟨hkeeps, howns, hport⟩

theorem run_serves {P : ℤ → Prop} {acts : List WsAct} (ha : ∀ p c, WsAct.start p c ∈ acts → 0 < p → P p)
    (hs : P s.iPort) (h : Serves P s) : Serves P (s.run acts) := by
  induction acts generalizing s with
  | nil => exact h
  | cons a acts ih =>
    obtain ⟨hs', h'⟩ := act_serves (a := a) (fun p c heq => ha p c (heq ▸ List.mem_cons_self ..)) hs h
    exact ih (fun p c hmem => ha p c (List.mem_cons_of_mem a hmem)) hs' h'

/-- **What every thread does**, over every run and in every order of steps: it makes its service object
once, binds it once with success, to the default port or to a positive port of a `Start`, and not again,
calls `accept` only then, serves once after each `accept` that succeeds, and deletes the object when it
leaves the loop; the object it does not delete is that of a thread that leaves while it waits to bind. -/
theorem threads_serve (acts : List WsAct) :
    Serves (fun p => p = 9999 ∨ 0 < p ∧ ∃ c, WsAct.start p c ∈ acts) (CWsService.created.run acts) :=
  run_serves (fun _ c hmem hp => .inr ⟨hp, c, hmem⟩) (.inl rfl) fun t ht => by cases ht

end AppUtil.Ws
