import AppUtil.Lib.Lists
import AppUtil.Pool.Indices

/-! # The packets

Every packet that was posted is queued, held by one worker, completed or drained, with what the log
says of it: two consumers take from the queue and delete, the workers and the loop of `Fini`. -/
namespace AppUtil.Pool
open AppUtil.Lib AppUtil.Lib.Lifetime
set_option autoImplicit false

/-- The packet that a worker holds. -/
def WorkPc.work : WorkPc → Option Work
  | .taken _ k | .job _ k | .inJob _ k | .release _ k => some k
  | _ => none

/-- The packet that a worker holds and has handed to `ProcessJob`, unless its `pWork` is NULL. -/
def WorkPc.called : WorkPc → Option Work
  | .inJob _ k | .release _ k => some k
  | _ => none

/-- What an event is for the data object of its packet. -/
def WorkEvent.onData : WorkEvent → Option (Event ℕ)
  | .posted k => k.pWorkData.map (.born · none)
  | .processJob k | .returned k => k.pWorkData.map .used
  | .deleted k | .drained k => k.pWorkData.map .died

def dataLog (log : List WorkEvent) : List (Event ℕ) := log.filterMap WorkEvent.onData

def heldNum (workers : List Worker) (k : Work) : ℕ := workers.countP fun w => w.pc.work = some k

def calledNum (workers : List Worker) (k : Work) : ℕ := workers.countP fun w => w.pc.called = some k

/-! ## What was posted -/

structure Posts (log : List WorkEvent) : Prop where
  once : ∀ k, log.count (.posted k) ≤ 1
  own : ∀ k k', .posted k ∈ log → .posted k' ∈ log → k.pWorkData = k'.pWorkData → k = k'
  data : ∀ k, .posted k ∈ log → k.pWorkData ≠ none

theorem Posts.cons {log : List WorkEvent} (h : Posts log) {e : WorkEvent}
    (he : ∀ k, e ≠ .posted k) : Posts (e :: log) := by
  have hmem : ∀ k, .posted k ∈ e :: log → .posted k ∈ log := fun k hk =>
    (List.mem_cons.mp hk).resolve_left fun heq => he k heq.symm
  refine ⟨fun k => ?_, fun k k' hk hk' => h.own k k' (hmem k hk) (hmem k' hk'), fun k hk =>
    h.data k (hmem k hk)⟩
  rw [List.count_cons_of_ne (he k)]
  exact h.once k

theorem Posts.post {log : List WorkEvent} (h : Posts log) {k : Work} (hd : k.pWorkData ≠ none)
    (hown : ∀ k', .posted k' ∈ log → k'.pWorkData ≠ k.pWorkData) : Posts (.posted k :: log) := by
  have hnew : WorkEvent.posted k ∉ log := fun hk => hown k hk rfl
  constructor
  · intro k'
    by_cases hk : k' = k
    · subst hk
      rw [List.count_cons_self, List.count_eq_zero_of_not_mem hnew]
    · rw [List.count_cons_of_ne (fun heq => hk (WorkEvent.posted.inj heq).symm)]
      exact h.once k'
  · intro k₁ k₂ h₁ h₂ hsame
    rcases List.mem_cons.mp h₁ with heq₁ | hin₁ <;> rcases List.mem_cons.mp h₂ with heq₂ | hin₂
    · exact (WorkEvent.posted.inj heq₁).trans (WorkEvent.posted.inj heq₂).symm
    · obtain rfl := WorkEvent.posted.inj heq₁
      exact absurd hsame.symm (hown k₂ hin₂)
    · obtain rfl := WorkEvent.posted.inj heq₂
      exact absurd hsame (hown k₁ hin₁)
    · exact h.own k₁ k₂ hin₁ hin₂ hsame
  · intro k' hk'
    rcases List.mem_cons.mp hk' with heq | hk'
    · obtain rfl := WorkEvent.posted.inj heq
      exact hd
    · exact h.data k' hk'

/-! ## The tally -/

/-- The law of conservation, for packets with data, and what the log says of each. -/
structure Tally (queue : List Work) (workers : List Worker) (log : List WorkEvent) : Prop where
  posts : Posts log
  kept : ∀ k, k.pWorkData ≠ none → log.count (.posted k) =
    queue.count k + heldNum workers k + log.count (.deleted k) + log.count (.drained k)
  called : ∀ k, k.pWorkData ≠ none → k.pWork ≠ none →
    log.count (.processJob k) = calledNum workers k + log.count (.deleted k)
  silent : ∀ k, k.pWork = none → .processJob k ∉ log
  order : Disciplined (dataLog log)

theorem order_cons {log : List WorkEvent} {e : WorkEvent} (h : Disciplined (dataLog log))
    (he : ∀ x, e.onData = some x → Allowed (dataLog log) x) : Disciplined (dataLog (e :: log)) := by
  cases hx : e.onData with
  | none =>
    rw [dataLog, List.filterMap_cons_none hx]
    exact h
  | some x =>
    rw [dataLog, List.filterMap_cons_some hx]
    exact ⟨he x hx, h⟩

/-- No data object is part of another. -/
theorem born_root {log : List WorkEvent} (x y : ℕ) : Event.born x (some y) ∉ dataLog log := by
  intro h
  obtain ⟨e, -, hx⟩ := List.mem_filterMap.mp h
  cases e with
  | posted k | processJob k | returned k | deleted k | drained k =>
    obtain ⟨d, -, heq⟩ := Option.map_eq_some_iff.mp hx
    cases heq

namespace Tally

variable {queue q : List Work} {workers : List Worker} {log : List WorkEvent} {k : Work} {j : ℕ}
  {w : Worker} {pc : WorkPc}

theorem empty : Tally [] [] [] :=
  ⟨⟨fun _ => Nat.zero_le 1, fun _ _ h => (nomatch h), fun _ h => (nomatch h)⟩, fun _ _ => rfl,
    fun _ _ _ => rfl, fun _ _ h => (nomatch h), trivial⟩

theorem alive (h : Tally queue workers log) {d : ℕ} (hd : k.pWorkData = some d)
    (hpos : 1 ≤ queue.count k + heldNum workers k) : Alive (dataLog log) d := by
  have hdata : k.pWorkData ≠ none := by
    rw [hd]
    nofun
  have hkept := h.kept k hdata
  have hposted : WorkEvent.posted k ∈ log := List.count_pos_iff.mp (by omega)
  refine ⟨⟨none, List.mem_filterMap.mpr ⟨_, hposted, by rw [WorkEvent.onData, hd]; rfl⟩⟩, fun hdied => ?_⟩
  obtain ⟨e, he, hx⟩ := List.mem_filterMap.mp hdied
  -- a deleted packet with this data is the packet itself, and was posted twice
  have hgone : ∀ k', (.deleted k' ∈ log ∨ .drained k' ∈ log) → k'.pWorkData = some d → False := by
    intro k' hk' hd'
    have hkept' := h.kept k' (by rw [hd']; nofun)
    have hcount : 1 ≤ log.count (.deleted k') + log.count (.drained k') := by
      rcases hk' with hk' | hk'
      · have := List.count_pos_iff.mpr hk'
        omega
      · have := List.count_pos_iff.mpr hk'
        omega
    have hposted' : WorkEvent.posted k' ∈ log := List.count_pos_iff.mp (by omega)
    obtain rfl := h.posts.own k k' hposted hposted' (hd.trans hd'.symm)
    have := h.posts.once k
    omega
  cases e with
  | deleted k' =>
    obtain ⟨d', hd', heq⟩ := Option.map_eq_some_iff.mp hx
    obtain rfl := Event.died.inj heq
    exact hgone k' (.inl he) hd'
  | drained k' =>
    obtain ⟨d', hd', heq⟩ := Option.map_eq_some_iff.mp hx
    obtain rfl := Event.died.inj heq
    exact hgone k' (.inr he) hd'
  | posted k' | processJob k' | returned k' =>
    obtain ⟨d', -, heq⟩ := Option.map_eq_some_iff.mp hx
    cases heq

theorem heldNum_set (hj : workers[j]? = some w) (pc : WorkPc) (k : Work) :
    heldNum (workers.set j { w with pc := pc }) k + (if w.pc.work = some k then 1 else 0) =
      heldNum workers k + (if pc.work = some k then 1 else 0) := by
  simpa only [heldNum, decide_eq_true_eq] using
    countP_set_of_some (fun w => decide (w.pc.work = some k)) hj { w with pc := pc }

theorem calledNum_set (hj : workers[j]? = some w) (pc : WorkPc) (k : Work) :
    calledNum (workers.set j { w with pc := pc }) k + (if w.pc.called = some k then 1 else 0) =
      calledNum workers k + (if pc.called = some k then 1 else 0) := by
  simpa only [calledNum, decide_eq_true_eq] using
    countP_set_of_some (fun w => decide (w.pc.called = some k)) hj { w with pc := pc }

theorem held_pos (hj : workers[j]? = some w) (hk : w.pc.work = some k) : 1 ≤ heldNum workers k :=
  one_le_countP _ hj (by simpa using hk)

theorem goto (h : Tally queue workers log) (hj : workers[j]? = some w) (hwork : pc.work = w.pc.work)
    (hcalled : ∀ k : Work, k.pWork ≠ none → (pc.called = some k ↔ w.pc.called = some k)) :
    Tally queue (workers.set j { w with pc := pc }) log := by
  refine ⟨h.posts, fun k hd => ?_, fun k hd hp => ?_, h.silent, h.order⟩
  · have hset := heldNum_set hj pc k
    have hkept := h.kept k hd
    rw [hwork] at hset
    omega
  · have hset := calledNum_set hj pc k
    have hc := h.called k hd hp
    simp only [hcalled k hp] at hset
    omega

theorem take (h : Tally (k :: q) workers log) (hj : workers[j]? = some w) (hwork : w.pc.work = none)
    (hcalled : w.pc.called = none) (hwork' : pc.work = some k) (hcalled' : pc.called = none) :
    Tally q (workers.set j { w with pc := pc }) log := by
  refine ⟨h.posts, fun k' hd => ?_, fun k' hd hp => ?_, h.silent, h.order⟩
  · have hset := heldNum_set hj pc k'
    have hkept := h.kept k' hd
    rw [hwork, hwork'] at hset
    simp only [List.count_cons, beq_iff_eq, Option.some.injEq, reduceCtorEq, if_false] at hkept hset
    omega
  · have hset := calledNum_set hj pc k'
    have hc := h.called k' hd hp
    rw [hcalled, hcalled'] at hset
    omega

theorem call (h : Tally queue workers log) (hj : workers[j]? = some w) (hwork : w.pc.work = some k)
    (hcalled : w.pc.called = none) (hwork' : pc.work = some k) (hcalled' : pc.called = some k)
    (hp : k.pWork ≠ none) :
    Tally queue (workers.set j { w with pc := pc }) (.processJob k :: log) := by
  refine ⟨h.posts.cons nofun, fun k' hd => ?_, fun k' hd hp' => ?_, fun k' hp' hmem => ?_, ?_⟩
  · have hset := heldNum_set hj pc k'
    have hkept := h.kept k' hd
    rw [hwork, hwork'] at hset
    simp only [List.count_cons, beq_iff_eq, reduceCtorEq, if_false]
    omega
  · have hset := calledNum_set hj pc k'
    have hc := h.called k' hd hp'
    rw [hcalled, hcalled'] at hset
    simp only [List.count_cons, beq_iff_eq, reduceCtorEq, if_false, WorkEvent.processJob.injEq,
      Option.some.injEq] at hset ⊢
    omega
  · rcases List.mem_cons.mp hmem with heq | hmem
    · obtain rfl := WorkEvent.processJob.inj heq
      exact hp hp'
    · exact h.silent k' hp' hmem
  · refine order_cons h.order fun x hx => ?_
    obtain ⟨d, hd, rfl⟩ := Option.map_eq_some_iff.mp hx
    exact h.alive hd (by have := held_pos hj hwork; omega)

theorem back (h : Tally queue workers log) (hj : workers[j]? = some w) (hwork : w.pc.work = some k)
    (hwork' : pc.work = some k) (hcalled : pc.called = w.pc.called) :
    Tally queue (workers.set j { w with pc := pc }) (.returned k :: log) := by
  have hgo := h.goto hj (hwork'.trans hwork.symm) (fun k _ => by rw [hcalled])
  refine ⟨h.posts.cons nofun, fun k' hd => ?_, fun k' hd hp' => ?_, fun k' hp' hmem => ?_, ?_⟩
  · have hkept := hgo.kept k' hd
    simpa only [List.count_cons, beq_iff_eq, reduceCtorEq, if_false, Nat.add_zero] using hkept
  · have hc := hgo.called k' hd hp'
    simpa only [List.count_cons, beq_iff_eq, reduceCtorEq, if_false, Nat.add_zero] using hc
  · exact h.silent k' hp' ((List.mem_cons.mp hmem).resolve_left nofun)
  · refine order_cons h.order fun x hx => ?_
    obtain ⟨d, hd, rfl⟩ := Option.map_eq_some_iff.mp hx
    exact h.alive hd (by have := held_pos hj hwork; omega)

theorem release (h : Tally queue workers log) (hj : workers[j]? = some w)
    (hwork : w.pc.work = some k) (hcalled : w.pc.called = some k) (hwork' : pc.work = none)
    (hcalled' : pc.called = none) :
    Tally queue (workers.set j { w with pc := pc })
      (if k.pWorkData = none then log else .deleted k :: log) := by
  by_cases hdata : k.pWorkData = none
  · rw [if_pos hdata]
    have hother : ∀ k' : Work, k'.pWorkData ≠ none → some k ≠ some k' := by
      rintro k' hd heq
      obtain rfl := Option.some.inj heq
      exact hd hdata
    refine ⟨h.posts, fun k' hd => ?_, fun k' hd hp => ?_, h.silent, h.order⟩
    · have hset := heldNum_set hj pc k'
      have hkept := h.kept k' hd
      rw [hwork, hwork'] at hset
      simp only [hother k' hd, reduceCtorEq, if_false] at hset
      omega
    · have hset := calledNum_set hj pc k'
      have hc := h.called k' hd hp
      rw [hcalled, hcalled'] at hset
      simp only [hother k' hd, reduceCtorEq, if_false] at hset
      omega
  · rw [if_neg hdata]
    refine ⟨h.posts.cons nofun, fun k' hd => ?_, fun k' hd hp => ?_, fun k' hp hmem => ?_, ?_⟩
    · have hset := heldNum_set hj pc k'
      have hkept := h.kept k' hd
      rw [hwork, hwork'] at hset
      simp only [List.count_cons, beq_iff_eq, reduceCtorEq, if_false, WorkEvent.deleted.injEq,
        Option.some.injEq] at hset ⊢
      omega
    · have hset := calledNum_set hj pc k'
      have hc := h.called k' hd hp
      rw [hcalled, hcalled'] at hset
      simp only [List.count_cons, beq_iff_eq, reduceCtorEq, if_false, WorkEvent.deleted.injEq,
        Option.some.injEq] at hset ⊢
      omega
    · exact h.silent k' hp ((List.mem_cons.mp hmem).resolve_left nofun)
    · refine order_cons h.order fun x hx => ?_
      obtain ⟨d, hd, rfl⟩ := Option.map_eq_some_iff.mp hx
      refine ⟨h.alive hd (by have := held_pos hj hwork; omega), fun y hy => ?_⟩
      exact absurd hy (born_root y d)

/-- A packet is posted with data of its own. -/
theorem post (h : Tally queue workers log) {d : ℕ} (hd : k.pWorkData = some d)
    (hown : ∀ k', .posted k' ∈ log → k'.pWorkData ≠ some d) :
    Tally (queue ++ [k]) workers (.posted k :: log) := by
  have hdata : k.pWorkData ≠ none := by
    rw [hd]
    nofun
  refine ⟨h.posts.post hdata (hd ▸ hown), fun k' hd' => ?_, fun k' hd' hp => ?_, fun k' hp hmem => ?_, ?_⟩
  · have hkept := h.kept k' hd'
    simp only [List.count_cons, List.count_append, List.count_nil, beq_iff_eq, reduceCtorEq, if_false,
      WorkEvent.posted.injEq]
    omega
  · have hc := h.called k' hd' hp
    simpa only [List.count_cons, beq_iff_eq, reduceCtorEq, if_false, Nat.add_zero] using hc
  · exact h.silent k' hp ((List.mem_cons.mp hmem).resolve_left nofun)
  · refine order_cons h.order fun x hx => ?_
    obtain ⟨d', hd', rfl⟩ := Option.map_eq_some_iff.mp hx
    obtain rfl : d = d' := Option.some.inj (hd.symm.trans hd')
    refine ⟨?_, nofun⟩
    rintro ⟨p, hborn⟩
    obtain ⟨e, he, hx⟩ := List.mem_filterMap.mp hborn
    cases e with
    | posted k' =>
      obtain ⟨d₁, hd₁, heq⟩ := Option.map_eq_some_iff.mp hx
      obtain ⟨rfl, -⟩ := Event.born.inj heq
      exact hown k' he hd₁
    | processJob k' | returned k' | deleted k' | drained k' =>
      obtain ⟨d', -, heq⟩ := Option.map_eq_some_iff.mp hx
      cases heq

/-- `Fini` takes a packet from the queue and deletes its data. -/
theorem drain (h : Tally (k :: q) workers log) :
    Tally q workers (if k.pWorkData = none then log else .drained k :: log) := by
  by_cases hdata : k.pWorkData = none
  · rw [if_pos hdata]
    refine ⟨h.posts, fun k' hd => ?_, h.called, h.silent, h.order⟩
    have hkept := h.kept k' hd
    rw [List.count_cons_of_ne (by rintro rfl; exact hd hdata)] at hkept
    exact hkept
  · rw [if_neg hdata]
    refine ⟨h.posts.cons nofun, fun k' hd => ?_, fun k' hd hp => ?_, fun k' hp hmem => ?_, ?_⟩
    · have hkept := h.kept k' hd
      simp only [List.count_cons, beq_iff_eq, reduceCtorEq, if_false, WorkEvent.drained.injEq] at hkept ⊢
      omega
    · have hc := h.called k' hd hp
      simpa only [List.count_cons, beq_iff_eq, reduceCtorEq, if_false, Nat.add_zero] using hc
    · exact h.silent k' hp ((List.mem_cons.mp hmem).resolve_left nofun)
    · refine order_cons h.order fun x hx => ?_
      obtain ⟨d, hd, rfl⟩ := Option.map_eq_some_iff.mp hx
      refine ⟨h.alive hd (by rw [List.count_cons_self]; omega), fun y hy => ?_⟩
      exact absurd hy (born_root y d)

theorem enter (h : Tally queue workers log) (t : ℕ) (i : ℤ) :
    Tally queue (workers ++ [⟨t, i, .lookup 0⟩]) log := by
  have hheld : ∀ k, heldNum (workers ++ [⟨t, i, .lookup 0⟩]) k = heldNum workers k := by
    intro k
    simp [heldNum, WorkPc.work]
  have hcalled : ∀ k, calledNum (workers ++ [⟨t, i, .lookup 0⟩]) k = calledNum workers k := by
    intro k
    simp [calledNum, WorkPc.called]
  refine ⟨h.posts, fun k hd => ?_, fun k hd hp => ?_, h.silent, h.order⟩
  · rw [hheld]
    exact h.kept k hd
  · rw [hcalled]
    exact h.called k hd hp

end Tally

/-! ## The steps of the pool -/

namespace ThreadPool

/-- The data objects posted so far. -/
def postedData (s : ThreadPool) : List ℕ :=
  s.log.filterMap fun
    | .posted k => k.pWorkData
    | _ => none

/-- `InputWork` is called between `Init` and `Fini`, each time with a data object of its own. -/
def OwnData (s : ThreadPool) : Label → Prop
  | .inputWork k => s.main = .running ∧ ∃ d ∈ k.pWorkData, d ∉ s.postedData
  | _ => True

instance (s : ThreadPool) : (l : Label) → Decidable (s.OwnData l)
  | .inputWork _ => inferInstanceAs (Decidable (_ ∧ _))
  | .fini | .main _ | .manger _ | .worker _ => isTrue trivial

structure Ledger (s : ThreadPool) : Prop where
  tally : Tally s.queue s.workers s.log
  port : s.main ≠ .free → s.main ≠ .done → s.hWorkIocp = true
  empty : s.main = .close ∨ s.main = .free ∨ s.main = .done → s.queue = []

section
variable {s s' : ThreadPool} {l : Label} {j : ℕ} {w : Worker} {iThreadId : ℕ}

theorem start_ledger (iInitialNum iMaxNum : ℤ) : (start iInitialNum iMaxNum).Ledger :=
  ⟨.empty, fun _ _ => rfl, fun _ => rfl⟩

theorem WorkStep.tally (h : s.WorkStep j w s') (ht : Tally s.queue s.workers s.log)
    (hj : s.workers[j]? = some w) : Tally s'.queue s'.workers s'.log := by
  cases h with
  | miss i hpc | found i hpc | lost i hpc | stay i hpc | retire i hpc | timeout i hpc
  | clearBusy i hpc | close i hpc | leave i hpc =>
    exact ht.goto hj (by rw [hpc]; rfl) fun k _ => by rw [hpc]; rfl
  | take i k q hpc hq =>
    rw [hq.2] at ht
    exact ht.take hj (by rw [hpc]; rfl) (by rw [hpc]; rfl) rfl rfl
  | setBusy i k hpc => exact ht.goto hj (by rw [hpc]; rfl) fun k _ => by rw [hpc]; rfl
  | call i k hpc hk => exact ht.call hj (by rw [hpc]; rfl) (by rw [hpc]; rfl) rfl rfl hk
  | skip i k hpc hk =>
    refine ht.goto hj (by rw [hpc]; rfl) fun k' hk' => ?_
    rw [hpc]
    constructor
    · intro heq
      obtain rfl := Option.some.inj heq
      exact absurd hk hk'
    · nofun
  | back i k hpc => exact ht.back hj (by rw [hpc]; rfl) rfl (by rw [hpc]; rfl)
  | release i k hpc => exact ht.release hj (by rw [hpc]; rfl) (by rw [hpc]; rfl) rfl rfl
  | rest => exact ht

theorem WorkStep.port (h : s.WorkStep j w s') :
    s'.hWorkIocp = s.hWorkIocp ∧ (s.queue = [] → s'.queue = []) := by
  cases h with
  | take i k q hpc hq => exact ⟨rfl, fun he => absurd (he.symm.trans hq.2) nofun⟩
  | miss | found | lost | stay | retire | timeout | setBusy | call | skip | back | release | clearBusy
  | close | leave | rest => exact ⟨rfl, id⟩

theorem MangerStep.tally (h : s.MangerStep iThreadId s') (ht : Tally s.queue s.workers s.log) :
    Tally s'.queue s'.workers s'.log := by
  cases h with
  | add i => exact ht.enter _ i
  | quit | goOn | signalled | tick | taken | free | count | busy | idle | normal | next | full | store
  | mark | pass | marked | setExit | rest => exact ht

theorem MangerStep.port (h : s.MangerStep iThreadId s') :
    s'.hWorkIocp = s.hWorkIocp ∧ s'.queue = s.queue := by
  cases h <;> exact ⟨rfl, rfl⟩

theorem MainStep.tally (h : s.MainStep iThreadId s') (ht : Tally s.queue s.workers s.log) :
    Tally s'.queue s'.workers s'.log := by
  cases h with
  | start i => exact ht.enter _ i
  | drain k q hpc hq =>
    rw [hq.2] at ht
    exact ht.drain
  | started | store | taken | free | stopped | mark | waited | sleep | setExit | setEvent | joined
  | drained | close | release | rest => exact ht

theorem MainStep.ledger (h : s.MainStep iThreadId s') (hs : s.Ledger) : s'.Ledger := by
  refine ⟨h.tally hs.tally, ?_, ?_⟩
  · cases h with
    | close => exact fun hne => absurd rfl hne
    | release => exact fun _ hne => absurd rfl hne
    | rest => exact hs.port
    | start i hpc | started i hpc | store i _ hpc | taken i hpc | free i hpc | stopped i hpc
    | mark i hpc | waited i hpc | sleep i hpc | setExit hpc | setEvent hpc | joined hpc
    | drain k q hpc | drained hpc =>
      exact fun _ _ => hs.port (by rw [hpc]; nofun) (by rw [hpc]; nofun)
  · cases h with
    | drained hpc hq =>
      exact fun _ => hq (hs.port (by rw [hpc]; nofun) (by rw [hpc]; nofun))
    | close hpc => exact fun _ => hs.empty (.inl hpc)
    | release hpc => exact fun _ => hs.empty (.inr (.inl hpc))
    | rest => exact hs.empty
    | drain k q hpc hq =>
      rintro (hm | hm | hm) <;> exact absurd (hpc.symm.trans hm) nofun
    | start | started | store | taken | free | stopped | mark | waited | sleep | setExit | setEvent
    | joined =>
      rintro (hm | hm | hm) <;> cases hm

theorem mem_postedData {d : ℕ} {k : Work} (hk : .posted k ∈ s.log) (hd : k.pWorkData = some d) :
    d ∈ s.postedData :=
  List.mem_filterMap.mpr ⟨_, hk, hd⟩

theorem Ledger.exec (hs : s.Ledger) (hl : s.OwnData l) (hx : s.exec l = .ok s') : s'.Ledger := by
  cases exec_cases hx with
  | post k hport =>
    obtain ⟨hm, d, hd, hnew⟩ := hl
    refine ⟨hs.tally.post hd fun k' hk' hd' => hnew (mem_postedData hk' hd'), hs.port, ?_⟩
    rintro (hm' | hm' | hm') <;> simp [hm] at hm'
  | fini hm =>
    refine ⟨hs.tally, fun _ _ => hs.port (by simp [hm]) (by simp [hm]), ?_⟩
    rintro (hm' | hm' | hm') <;> cases hm'
  | main t s' h => exact h.ledger hs
  | manger t s' h =>
    obtain ⟨hport, hqueue⟩ := h.port
    have hm := h.frame.2.2.1
    refine ⟨h.tally hs.tally, ?_, ?_⟩
    · rw [hm, hport]
      exact hs.port
    · rw [hm, hqueue]
      exact hs.empty
  | worker j w s' hj h =>
    obtain ⟨hport, hqueue⟩ := h.port
    have hm := h.frame.2.2.2.1
    refine ⟨h.tally hs.tally hj, ?_, ?_⟩
    · rw [hm, hport]
      exact hs.port
    · rw [hm]
      exact fun he => hqueue (hs.empty he)
  | refuse | ignore | nobody => exact hs

end

/-! ## Where a packet is -/

/-- Where a posted packet is. -/
inductive Place where
  | queued
  | held (j : ℕ)
  | completed
  | drained
  deriving DecidableEq, Repr

/-- The packet is there, and `ProcessJob` was called on it and its data deleted as often as that
means: not at all in the queue, not deleted with a worker, each once when it is completed (a NULL
`pWork` is not called), and only deleted when it was drained. -/
def At (s : ThreadPool) (k : Work) : Place → Prop
  | .queued => s.queue.count k = 1 ∧ s.log.count (.processJob k) = 0 ∧
      s.log.count (.deleted k) = 0 ∧ s.log.count (.drained k) = 0
  | .held j => (∃ w, s.workers[j]? = some w ∧ w.pc.work = some k) ∧
      s.log.count (.processJob k) ≤ 1 ∧ s.log.count (.deleted k) = 0 ∧ s.log.count (.drained k) = 0
  | .completed => s.log.count (.processJob k) = (if k.pWork = none then 0 else 1) ∧
      s.log.count (.deleted k) = 1 ∧ s.log.count (.drained k) = 0
  | .drained => s.log.count (.processJob k) = 0 ∧
      s.log.count (.deleted k) = 0 ∧ s.log.count (.drained k) = 1

/-- Each packet is handled once. No data object is used or deleted but once it was posted and
before it is deleted. -/
structure WorkKept (s : ThreadPool) : Prop where
  place : ∀ k, .posted k ∈ s.log → ∃! p, s.At k p
  data : Disciplined (dataLog s.log)
  empty : s.main = .close ∨ s.main = .free ∨ s.main = .done → s.queue = []

theorem calledNum_le (workers : List Worker) (k : Work) : calledNum workers k ≤ heldNum workers k := by
  refine List.countP_mono_left fun w _ hw => ?_
  simp only [decide_eq_true_eq] at hw ⊢
  cases hpc : w.pc with
  | inJob i k' | release i k' =>
    rw [hpc] at hw
    exact hw
  | lookup i | loop i | poll i | taken i k' | job i k' | unbusy i | closing i | leaving i | gone =>
    rw [hpc] at hw
    cases hw

section
variable {s : ThreadPool} {k : Work}

/-- A posted packet counts once. -/
theorem Ledger.counted (hs : s.Ledger) (hk : .posted k ∈ s.log) :
    s.queue.count k + heldNum s.workers k + s.log.count (.deleted k) + s.log.count (.drained k) = 1 := by
  have hkept := hs.tally.kept k (hs.tally.posts.data k hk)
  have hpos := List.count_pos_iff.mpr hk
  have honce := hs.tally.posts.once k
  omega

theorem Ledger.calls (hs : s.Ledger) (hk : .posted k ∈ s.log) : s.log.count (.processJob k) =
    if k.pWork = none then 0 else calledNum s.workers k + s.log.count (.deleted k) := by
  by_cases hp : k.pWork = none
  · rw [if_pos hp]
    exact List.count_eq_zero_of_not_mem (hs.tally.silent k hp)
  · rw [if_neg hp]
    exact hs.tally.called k (hs.tally.posts.data k hk) hp

/-- How often the packet counts where a place is. -/
def weight (s : ThreadPool) (k : Work) : Place → ℕ
  | .queued => s.queue.count k
  | .held _ => heldNum s.workers k
  | .completed => s.log.count (.deleted k)
  | .drained => s.log.count (.drained k)

theorem At.weight {p : Place} (h : s.At k p) : 1 ≤ s.weight k p := by
  cases p with
  | queued => exact Nat.le_of_eq h.1.symm
  | held j =>
    obtain ⟨w, hj, hw⟩ := h.1
    exact Tally.held_pos hj hw
  | completed => exact Nat.le_of_eq h.2.1.symm
  | drained => exact Nat.le_of_eq h.2.2.symm

theorem Ledger.at_unique (hs : s.Ledger) (hk : .posted k ∈ s.log) {p p' : Place} (hp : s.At k p)
    (hp' : s.At k p') : p = p' := by
  have hone := hs.counted hk
  have hw := At.weight hp
  have hw' := At.weight hp'
  cases p with
  | queued => cases p' <;> simp only [ThreadPool.weight] at hw hw' <;> first | rfl | omega
  | held i =>
    cases p' with
    | held j =>
      obtain ⟨v, hi, hv⟩ := hp.1
      obtain ⟨w, hj, hw⟩ := hp'.1
      by_contra hij
      have := two_le_countP (fun w => decide (w.pc.work = some k)) hi hj (fun h => hij (h ▸ rfl))
        (by simpa using hv) (by simpa using hw)
      rw [heldNum] at hone
      omega
    | queued | completed | drained =>
      simp only [ThreadPool.weight] at hw hw'
      omega
  | completed => cases p' <;> simp only [ThreadPool.weight] at hw hw' <;> first | rfl | omega
  | drained => cases p' <;> simp only [ThreadPool.weight] at hw hw' <;> first | rfl | omega

theorem Ledger.at_some (hs : s.Ledger) (hk : .posted k ∈ s.log) : ∃ p, s.At k p := by
  have hone := hs.counted hk
  have hcalls := hs.calls hk
  have hle := calledNum_le s.workers k
  by_cases hqueue : s.queue.count k = 1
  · refine ⟨.queued, hqueue, ?_, by omega, by omega⟩
    split at hcalls <;> omega
  · by_cases hheld : 1 ≤ heldNum s.workers k
    · obtain ⟨w, hmem, hw⟩ := List.countP_pos_iff.mp hheld
      obtain ⟨j, hj⟩ := List.mem_iff_getElem?.mp hmem
      refine ⟨.held j, ⟨w, hj, by simpa using hw⟩, ?_, by omega, by omega⟩
      split at hcalls <;> omega
    · by_cases hdone : s.log.count (.deleted k) = 1
      · refine ⟨.completed, ?_, hdone, by omega⟩
        rw [hcalls, hdone, show calledNum s.workers k = 0 by omega]
      · refine ⟨.drained, ?_, by omega, by omega⟩
        split at hcalls <;> omega

end

/-- **Work items are neither lost nor duplicated**, in every state up to the one in which `Fini`
has freed the table. -/
theorem work_conserved {iInitialNum iMaxNum : ℤ} (h : iInitialNum ≤ iMaxNum) {ls : List Label}
    (hown : Meets exec OwnData (start iInitialNum iMaxNum) ls)
    (hfreed : Meets exec (fun s _ => s.freed = false) (start iInitialNum iMaxNum) ls) :
    Holds exec WorkKept (start iInitialNum iMaxNum) ls := by
  have hrun : Holds exec (fun s => s.Bounded ∧ s.Ledger) (start iInitialNum iMaxNum) ls := by
    refine Holds.of_meets (L := fun _ => True) ?_ ⟨start_bounded h, start_ledger _ _⟩ (fun _ _ => trivial)
      (hown.and hfreed)
    rintro s l - ⟨hs, hl⟩ ⟨hg, hf⟩
    obtain ⟨s', hx⟩ := exec_within hf hs.dims hs.workers hs.manger hs.main l
    exact ⟨s', hx, hs.exec hx, hl.exec hg hx⟩
  refine hrun.mono fun s hs => ⟨fun k hk => ?_, hs.2.tally.order, hs.2.empty⟩
  obtain ⟨p, hp⟩ := hs.2.at_some hk
  exact ⟨p, hp, fun p' hp' => hs.2.at_unique hk hp' hp⟩

theorem work_conserved_sample :
    Holds exec WorkKept (start 1 1)
      [.main 11, .main 0, .main 0, .inputWork ⟨some 1, some 5⟩, .inputWork ⟨none, some 6⟩, .worker 0,
        .worker 0, .worker 0, .worker 0, .worker 0, .worker 0, .worker 0, .fini] :=
  work_conserved (by decide) (by decide) (by decide)

end ThreadPool

end AppUtil.Pool
