import AppUtil.FireWall.ComRefinement

/-! # What a run of the manager does to the profile

Each member, by what it can leave behind: nothing, or one change of the profile, made under the
condition that it has read before. Over a run these changes turn no firewall off and open no port that
was not in the list, and a `RemoveApplication` needs an `AddApplication` before it. -/
namespace AppUtil.FireWall
open AppUtil.Lib AppUtil.Lib.Attempt
set_option autoImplicit false

namespace FireWallMgr
variable {m w : FireWallMgr}

/-- Whether an application is in the list and enabled. -/
def appOn (m : FireWallMgr) (file : WStr) : Bool :=
  ((m.profile.authorizedApplications file).map FwEntry.enabled).getD false

/-- What a call that returns `DTK_OK` has done. -/
inductive Does (m : FireWallMgr) : ComOp → FireWallMgr → Prop where
  | nothing (op : ComOp) (h : ∀ file, op ≠ .change (.removeApplication file)) : Does m op m
  | initialised (op : ComOp) (b : Bool) (h : op = .init ∨ op = .fini) : Does m op (m.setProfile b)
  | turnedOn : Does m (.change .turnOnFirewall) (m.putFirewallEnabled true)
  | turnedOff (h : m.profile.firewallEnabled = false) :
    Does m (.change .turnOffFirewall) (m.putFirewallEnabled false)
  | added (f n : WStr) (reg : Option WStr) :
    Does m (.change (.addApplication (some f) reg)) (m.setApplication f (some ⟨n, true⟩))
  | removed (f : WStr) (h : m.appOn f = true) :
    Does m (.change (.removeApplication (some f))) (m.setApplication f none)
  | opened (port : ℤ) (ipProtocol : IpProtocol) (n : WStr) (reg : Option WStr)
    (h : m.profile.globallyOpenPorts (port, ipProtocol) ≠ none) :
    Does m (.change (.addPortRule port ipProtocol reg)) (m.setPort (port, ipProtocol) (some ⟨n, true⟩))
  | closed (port : ℤ) (ipProtocol : IpProtocol) :
    Does m (.change (.removePortRule port ipProtocol)) (m.setPort (port, ipProtocol) none)

/-! ## One call -/

/-- An application that the query reports is there. -/
theorem isAppEnabled_on (file : Option WStr) : Ends (· = m) (isAppEnabled file)
    (fun b w => w = m ∧ (b = true → ∃ f, file = some f ∧ m.appOn f = true)) (· = m) := by
  unfold isAppEnabled
  by_cases hf : file = none
  · rw [if_pos hf]
    exact .giveUp fun _ h => h
  · rw [if_neg hf]
    refine .bind (Q := fun _ => (· = m)) (.require (fun _ h _ => h) fun _ h _ => h) fun _ =>
      .bind comCall_ends fun _ => .bind (sysAllocString_ends file) fun bstr =>
      .bind (Q := fun r w => w = m ∧ file = some bstr ∧
        ∀ e, r = some e → m.profile.authorizedApplications bstr = some e)
      (.handled (.ask (fun w e hw he => ?_) fun w hw => ?_)) fun r => ?_
    · obtain ⟨rfl, hfile, -⟩ := hw
      exact ⟨rfl, hfile, fun e' heq => Option.some.inj heq ▸ he⟩
    · exact ⟨hw.1, hw.2.1, fun e he => by cases he⟩
    · cases r with
      | none => exact .pure fun w hw => ⟨hw.1, fun hb => by cases hb⟩
      | some e =>
        refine .ask (fun w b hw hb => ⟨hw.1, fun hon => ⟨bstr, hw.2.1, ?_⟩⟩) fun w hw => hw.1
        rw [appOn, hw.2.2 e rfl]
        exact (Option.some.inj hb).trans hon

theorem turnOnFirewall_does : Ends (· = m) turnOnFirewall
    (fun _ => Does m (.change .turnOnFirewall)) (· = m) := by
  refine .bind (Q := fun _ => (· = m)) (.require (fun _ h _ => h) fun _ h _ => h) fun _ =>
    .bind isFirewallOn_ends fun b => ?_
  cases b with
  | false =>
    refine .tell (fun w hw => ?_) fun w hw => hw.1
    obtain ⟨rfl, -⟩ := hw
    exact .turnedOn
  | true =>
    refine .pure fun w hw => ?_
    obtain ⟨rfl, -⟩ := hw
    exact .nothing _ (by simp)

theorem turnOffFirewall_does : Ends (· = m) turnOffFirewall
    (fun _ => Does m (.change .turnOffFirewall)) (· = m) := by
  refine .bind (Q := fun _ => (· = m)) (.require (fun _ h _ => h) fun _ h _ => h) fun _ =>
    .bind isFirewallOn_ends fun b => ?_
  cases b with
  | false =>
    refine .tell (fun w hw => ?_) fun w hw => hw.1
    obtain ⟨rfl, hoff⟩ := hw
    exact .turnedOff hoff
  | true =>
    refine .pure fun w hw => ?_
    obtain ⟨rfl, -⟩ := hw
    exact .nothing _ (by simp)

theorem addApplication_does (file reg : Option WStr) : Ends (· = m) (addApplication file reg)
    (fun _ => Does m (.change (.addApplication file reg))) (· = m) := by
  unfold addApplication
  by_cases hnull : file = none ∨ reg = none
  · rw [if_pos hnull]
    exact .giveUp fun _ h => h
  · rw [if_neg hnull]
    refine .bind (Q := fun _ => (· = m)) (.require (fun _ h _ => h) fun _ h _ => h) fun _ =>
      .bind (Q := fun _ => (· = m)) (isAppEnabled_ends file) fun b => ?_
    by_cases hb : b = true
    · rw [if_pos hb]
      exact .giveUp fun _ h => h
    · rw [if_neg hb]
      have hfile : ∀ f, Ends (fun w => w = m ∧ file = some f ∧ f ≠ []) (do
          comCall
          let n ← sysAllocString reg
          comCall
          tell (setApplication f (some ⟨n, true⟩)))
          (fun _ => Does m (.change (.addApplication file reg))) (· = m) := by
        intro f
        refine Ends.mono (.bind comCall_ends fun _ => .bind (sysAllocString_ends reg) fun n =>
          .bind (comCall_ends.mono (fun _ h => h) (fun _ _ h => h) fun _ h => h.1) fun _ =>
          .tell (fun w hw => ?_) fun _ h => h.1) (fun _ h => h) (fun _ _ h => h) fun _ h => h.1
        obtain ⟨⟨rfl, rfl, -⟩, -⟩ := hw
        exact .added f n reg
      exact .bind comCall_ends fun _ => .bind comCall_ends fun _ =>
        .bind (sysAllocString_ends file) hfile

theorem removeApplication_does (file : Option WStr) : Ends (· = m) (removeApplication file)
    (fun _ => Does m (.change (.removeApplication file))) (· = m) := by
  unfold removeApplication
  by_cases hnull : file = none
  · rw [if_pos hnull]
    exact .giveUp fun _ h => h
  · rw [if_neg hnull]
    refine .bind (Q := fun _ => (· = m)) (.require (fun _ h _ => h) fun _ h _ => h) fun _ =>
      .bind (isAppEnabled_on file) fun b => ?_
    cases b with
    | false => exact .giveUp fun _ h => h.1
    | true =>
      refine .bind (comCall_ends.mono (fun _ h => h) (fun _ _ h => h) fun _ h => h.1) fun _ =>
        .bind ((sysAllocString_ends file).mono (fun _ h => h) (fun _ _ h => h) fun _ h => h.1) fun f =>
        .tell (fun w hw => ?_) fun w hw => hw.1.1
      obtain ⟨⟨rfl, hon⟩, rfl, -⟩ := hw
      obtain ⟨g, hg, hgon⟩ := hon rfl
      cases hg
      exact .removed f hgon

theorem addPortRule_does (port : ℤ) (ipProtocol : IpProtocol) (reg : Option WStr) :
    Ends (· = m) (addPortRule port ipProtocol reg)
      (fun _ => Does m (.change (.addPortRule port ipProtocol reg))) (· = m) := by
  refine .bind (Q := fun _ => (· = m)) (.require (fun _ h _ => h) fun _ h _ => h) fun _ =>
    .bind (Q := fun _ w => w = m ∧ m.profile.globallyOpenPorts (port, ipProtocol) ≠ none)
    ((isPortEnabled_ends port ipProtocol).mono (fun _ h => h) (fun b w hw => ?_) fun _ h => h) fun b => ?_
  · obtain ⟨rfl, hport⟩ := hw
    refine ⟨rfl, fun hnone => ?_⟩
    rw [hnone] at hport
    cases hport
  · by_cases hb : b = false
    · rw [if_pos hb]
      refine Ends.mono (.bind comCall_ends fun _ => .bind comCall_ends fun _ => .bind comCall_ends fun _ =>
        .bind comCall_ends fun _ => .bind (sysAllocString_ends reg) fun n =>
        .bind (comCall_ends.mono (fun _ h => h) (fun _ _ h => h) fun _ h => h.1) fun _ =>
        .tell (fun w hw => ?_) fun w hw => hw.1) (fun _ h => h) (fun _ _ h => h) fun _ h => h.1
      obtain ⟨⟨rfl, hport⟩, -⟩ := hw
      exact .opened port ipProtocol n reg hport
    · rw [if_neg hb]
      exact .giveUp fun _ h => h.1

theorem removePortRule_does (port : ℤ) (ipProtocol : IpProtocol) :
    Ends (· = m) (removePortRule port ipProtocol)
      (fun _ => Does m (.change (.removePortRule port ipProtocol))) (· = m) := by
  refine .bind (Q := fun _ => (· = m)) (.require (fun _ h _ => h) fun _ h _ => h) fun _ =>
    .bind (Q := fun _ => (· = m))
    ((isPortEnabled_ends port ipProtocol).mono (fun _ h => h) (fun _ _ h => h.1) fun _ h => h) fun b => ?_
  by_cases hb : b = true
  · rw [if_pos hb]
    refine .bind comCall_ends fun _ => .tell (fun w hw => ?_) fun _ h => h
    obtain rfl := hw
    exact .closed port ipProtocol
  · rw [if_neg hb]
    refine .pure fun w hw => ?_
    obtain rfl := hw
    exact .nothing _ (by simp)

theorem init_does : Ends (· = m) init (fun _ => Does m .init) (· = m) := by
  refine .bind (Q := fun _ => (· = m)) (.require (fun _ h _ => h) fun _ h _ => h) fun _ =>
    .bind comCall_ends fun _ => .bind (Q := fun r w => w = if r = none then m else m.setProfile true)
    (.handled (.bind (comCall_ends.mono (fun _ h => h) (fun _ _ h => h) fun _ h => h) fun _ =>
      .bind (comCall_ends.mono (fun _ h => h) (fun _ _ h => h) fun _ h => h) fun _ =>
      .tell (fun w hw => congrArg (setProfile true) hw) fun _ h => h)) fun r => ?_
  cases r with
  | none => exact .giveUp fun _ h => h
  | some u =>
    refine .pure fun w hw => ?_
    obtain rfl := hw
    exact .initialised _ true (.inl rfl)

theorem fini_does : Ends (· = m) fini (fun _ => Does m .fini) (· = m) := by
  refine .bind (Q := fun _ => (· = m)) (.require (fun _ h _ => h) fun _ h _ => h) fun _ =>
    .change fun w hw => ?_
  obtain rfl := hw
  exact .initialised _ false (.inr rfl)

end FireWallMgr

open FireWallMgr
open ComMgr (seen)

theorem ComOp.plain_does (op : ComOp) (m : FireWallMgr) :
    Ends (· = m) op.plain (fun _ => Does m op) (· = m) := by
  have hquery : ∀ {op : ComOp} {p : Attempt FireWallMgr Bool},
      (∀ file, op ≠ .change (.removeApplication file)) → Ends (· = m) p (fun _ => (· = m)) (· = m) →
      Ends (· = m) (do let b ← p; pure (some b)) (fun _ => Does m op) (· = m) := by
    intro op p hop hp
    refine .bind hp fun b => .pure fun w hw => ?_
    obtain rfl := hw
    exact .nothing _ hop
  have hchange : ∀ {op : ComOp} {p : Attempt FireWallMgr Unit}, Ends (· = m) p (fun _ => Does m op) (· = m) →
      Ends (· = m) (do p; pure none) (fun _ : Option Bool => Does m op) (· = m) :=
    fun hp => .bind hp fun _ => .pure fun _ h => h
  cases op with
  | init => exact hchange init_does
  | fini => exact hchange fini_does
  | isFirewallOn =>
    exact hquery (by simp) (isFirewallOn_ends.mono (fun _ h => h) (fun _ _ h => h.1) fun _ h => h)
  | isAppEnabled file => exact hquery (by simp) (isAppEnabled_ends file)
  | isPortEnabled port ipProtocol =>
    exact hquery (by simp) ((isPortEnabled_ends port ipProtocol).mono (fun _ h => h) (fun _ _ h => h.1)
      fun _ h => h)
  | change op =>
    cases op with
    | turnOnFirewall => exact hchange turnOnFirewall_does
    | turnOffFirewall => exact hchange turnOffFirewall_does
    | addApplication file reg => exact hchange (addApplication_does file reg)
    | removeApplication file => exact hchange (removeApplication_does file)
    | addPortRule port ipProtocol reg => exact hchange (addPortRule_does port ipProtocol reg)
    | removePortRule port ipProtocol => exact hchange (removePortRule_does port ipProtocol)

/-! ## Runs -/

/-- The calls of a run that return `DTK_OK`, in order. -/
def succeeded (fails : ℕ → Bool) : Trace ComScope → List ComOp → List ComOp
  | _, [] => []
  | t, op :: ops =>
    (if (op.body fails t).1.isSome then [op] else []) ++ succeeded fails (op.body fails t).2 ops

/-- Where a run ends. -/
def ran (fails : ℕ → Bool) (t : Trace ComScope) (ops : List ComOp) : Trace ComScope :=
  ops.foldl (fun t op => (op.body fails t).2) t

/-- The calls that add the application, under any name. -/
def ComOp.adds (file : WStr) : ComOp → Bool
  | .change (.addApplication (some f) _) => f = file
  | _ => false

def ComOp.removes (file : WStr) : ComOp → Bool
  | .change (.removeApplication (some f)) => f = file
  | _ => false

/-- What every call keeps: a firewall that is on, the list of the ports, and the account of each
application. `done` are the calls that returned `DTK_OK` from `m` to `w`. -/
structure Kept (done : List ComOp) (m w : FireWallMgr) : Prop where
  flag : m.profile.firewallEnabled = true → w.profile.firewallEnabled = true
  ports : ∀ p, w.profile.globallyOpenPorts p ≠ none → m.profile.globallyOpenPorts p ≠ none
  account : ∀ file, done.countP (ComOp.removes file) + (w.appOn file).toNat ≤
    done.countP (ComOp.adds file) + (m.appOn file).toNat

theorem Kept.refl (m : FireWallMgr) : Kept [] m m :=
  ⟨fun h => h, fun _ h => h, fun _ => Nat.le_refl _⟩

theorem Kept.trans {d e : List ComOp} {m w v : FireWallMgr} (h : Kept d m w) (h' : Kept e w v) :
    Kept (d ++ e) m v := by
  refine ⟨fun hm => h'.flag (h.flag hm), fun p hp => h.ports p (h'.ports p hp), fun file => ?_⟩
  have hd := h.account file
  have he := h'.account file
  rw [List.countP_append, List.countP_append]
  omega

theorem appOn_setApplication (m : FireWallMgr) (f file : WStr) (e : Option FwEntry) :
    (m.setApplication f e).appOn file = if file = f then (e.map FwEntry.enabled).getD false else m.appOn file := by
  unfold appOn setApplication
  by_cases hf : file = f
  · rw [if_pos hf]
    simp [hf]
  · rw [if_neg hf]
    simp [hf]

theorem FireWallMgr.Does.kept {m w : FireWallMgr} {op : ComOp} (h : Does m op w) : Kept [op] m w := by
  -- of most calls the account is that of the applications as they were
  have hsame : ∀ {op : ComOp}, (∀ file, op ≠ .change (.removeApplication file)) → ∀ file,
      [op].countP (ComOp.removes file) + (m.appOn file).toNat ≤
        [op].countP (ComOp.adds file) + (m.appOn file).toNat := by
    intro op hop file
    have hno : ComOp.removes file op = false := by
      unfold ComOp.removes
      split
      · exact absurd rfl (hop _)
      · rfl
    rw [List.countP_cons, List.countP_nil, hno]
    simp
  cases h with
  | nothing _ hop => exact ⟨fun h => h, fun _ h => h, hsame hop⟩
  | initialised _ b hop =>
    refine ⟨fun h => h, fun _ h => h, hsame fun file => ?_⟩
    obtain rfl | rfl := hop <;> simp
  | turnedOn => exact ⟨fun _ => rfl, fun _ h => h, hsame (by simp)⟩
  | turnedOff hoff =>
    refine ⟨fun hon => ?_, fun _ h => h, hsame (by simp)⟩
    rw [hoff] at hon
    cases hon
  | added f n reg =>
    refine ⟨fun h => h, fun _ h => h, fun file => ?_⟩
    rw [appOn_setApplication]
    by_cases hf : file = f
    · simp [hf, ComOp.adds, ComOp.removes]
    · simp [hf, ComOp.removes]
  | removed f hon =>
    refine ⟨fun h => h, fun _ h => h, fun file => ?_⟩
    rw [appOn_setApplication]
    by_cases hf : file = f
    · simp [hf, hon, ComOp.adds, ComOp.removes]
    · have hne : ¬ f = file := fun h => hf h.symm
      simp [hf, hne, ComOp.removes]
  | opened port ipProtocol n reg hport =>
    refine ⟨fun h => h, fun p hp => ?_, hsame (by simp)⟩
    by_cases hpp : p = (port, ipProtocol)
    · rw [hpp]
      exact hport
    · rw [show (m.setPort (port, ipProtocol) (some ⟨n, true⟩)).profile.globallyOpenPorts p =
        m.profile.globallyOpenPorts p from if_neg hpp] at hp
      exact hp
  | closed port ipProtocol =>
    refine ⟨fun h => h, fun p hp => ?_, hsame (by simp)⟩
    by_cases hpp : p = (port, ipProtocol)
    · exact absurd (if_pos hpp) hp
    · rw [show (m.setPort (port, ipProtocol) none).profile.globallyOpenPorts p =
        m.profile.globallyOpenPorts p from if_neg hpp] at hp
      exact hp

theorem ComOp.body_kept (fails : ℕ → Bool) (t : Trace ComScope) (op : ComOp) :
    Kept (if (op.body fails t).1.isSome then [op] else []) (seen t.world) (seen (op.body fails t).2.world) := by
  have hsees := op.body_sees fails t
  obtain ⟨hok, hno⟩ := op.plain_does (seen t.world) fails (Trace.map seen t) rfl
  rw [hsees] at hok hno
  cases hx : (op.body fails t).1 with
  | some r => exact (hok r hx).kept
  | none =>
    have hm : seen (op.body fails t).2.world = seen t.world := hno hx
    rw [hm]
    exact Kept.refl _

/-- **What no run of the manager does**, whichever calls fail: it does not turn off a firewall that is
on, it opens no port that was not in the list before, and it removes no application more often than it
has been added or was there. -/
theorem runs_keep (fails : ℕ → Bool) (t : Trace ComScope) (ops : List ComOp) :
    Kept (succeeded fails t ops) (seen t.world) (seen (ran fails t ops).world) := by
  induction ops generalizing t with
  | nil => exact Kept.refl _
  | cons op ops ih => exact (ComOp.body_kept fails t op).trans (ih (op.body fails t).2)

end AppUtil.FireWall
