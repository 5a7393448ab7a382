import AppUtil.FireWall.FireWallMgr

/-! # The return codes of the firewall manager

What each call does to the profile when it returns `DTK_OK`, that it does nothing to it when it
returns `DTK_ERROR`, and the one call for which the first is not true. -/
namespace AppUtil.FireWall
open AppUtil.Lib AppUtil.Lib.Attempt
set_option autoImplicit false

namespace FireWallMgr
variable {m m' : FireWallMgr}

/-! ## The queries -/

/-- What a query reports in its output parameter when all its calls succeed. The parameter is
`false` from the start. -/
def reports (m : FireWallMgr) (query : Attempt FireWallMgr Bool) : Bool :=
  (query (fun _ => false) ⟨m, 0⟩).1.getD false

theorem reports_isFirewallOn (h : m.fireWallProfile = true) :
    m.reports isFirewallOn = m.profile.firewallEnabled := by
  simp [reports, isFirewallOn, bind_run, require, ask, call, h]

theorem reports_isAppEnabled (h : m.fireWallProfile = true) {file : WStr} (hf : file ≠ []) :
    m.reports (isAppEnabled (some file)) =
      ((m.profile.authorizedApplications file).map FwEntry.enabled).getD false := by
  have hs : ∀ t : Trace FireWallMgr, sysAllocString (some file) (fun _ => false) t =
      (some file, { t with calls := t.calls + 1 }) := by
    intro t
    simp [sysAllocString, bind_run, ask, call, hf, pure, Attempt.pure]
  cases hx : m.profile.authorizedApplications file with
  | none =>
    simp [reports, isAppEnabled, bind_run, require, comCall, ask, call, h, hs, handled, hx, pure,
      Attempt.pure]
  | some e => simp [reports, isAppEnabled, bind_run, require, comCall, ask, call, h, hs, handled, hx]

theorem reports_isPortEnabled (h : m.fireWallProfile = true) (port : ℤ) (ipProtocol : IpProtocol) :
    m.reports (isPortEnabled port ipProtocol) =
      ((m.profile.globallyOpenPorts (port, ipProtocol)).map FwEntry.enabled).getD false := by
  cases hx : m.profile.globallyOpenPorts (port, ipProtocol) with
  | none => simp [reports, isPortEnabled, bind_run, require, comCall, ask, call, h, hx]
  | some e => simp [reports, isPortEnabled, bind_run, require, comCall, ask, call, h, hx]

/-! ## What a call is asked for -/

/-- At most the flag differs. -/
def OnlyFlag (m m' : FireWallMgr) : Prop :=
  m'.fireWallProfile = m.fireWallProfile ∧
    m'.profile.authorizedApplications = m.profile.authorizedApplications ∧
    m'.profile.globallyOpenPorts = m.profile.globallyOpenPorts

/-- At most one application differs. -/
def OnlyApplication (file : WStr) (m m' : FireWallMgr) : Prop :=
  m'.fireWallProfile = m.fireWallProfile ∧
    m'.profile.firewallEnabled = m.profile.firewallEnabled ∧
    m'.profile.globallyOpenPorts = m.profile.globallyOpenPorts ∧
    ∀ f, f ≠ file → m'.profile.authorizedApplications f = m.profile.authorizedApplications f

/-- At most one port differs. -/
def OnlyPort (port : ℤ × IpProtocol) (m m' : FireWallMgr) : Prop :=
  m'.fireWallProfile = m.fireWallProfile ∧
    m'.profile.firewallEnabled = m.profile.firewallEnabled ∧
    m'.profile.authorizedApplications = m.profile.authorizedApplications ∧
    ∀ p, p ≠ port → m'.profile.globallyOpenPorts p = m.profile.globallyOpenPorts p

theorem onlyApplication_set (file : WStr) (e : Option FwEntry) (m : FireWallMgr) :
    OnlyApplication file m (m.setApplication file e) :=
  ⟨rfl, rfl, rfl, fun _ hf => if_neg hf⟩

theorem onlyPort_set (port : ℤ × IpProtocol) (e : Option FwEntry) (m : FireWallMgr) :
    OnlyPort port m (m.setPort port e) :=
  ⟨rfl, rfl, rfl, fun _ hp => if_neg hp⟩

end FireWallMgr

open FireWallMgr

/-- `m'` is `m` in the state that the call asks for, as the queries report it, with nothing else
changed. -/
def FwOp.Done : FwOp → FireWallMgr → FireWallMgr → Prop
  | .turnOnFirewall, m, m' => m'.reports isFirewallOn = true ∧ OnlyFlag m m'
  | .turnOffFirewall, m, m' => m'.reports isFirewallOn = false ∧ OnlyFlag m m'
  | .addApplication file _, m, m' => ∃ f, file = some f ∧
    m'.reports (isAppEnabled file) = true ∧ OnlyApplication f m m'
  | .removeApplication file, m, m' => ∃ f, file = some f ∧
    m'.reports (isAppEnabled file) = false ∧ OnlyApplication f m m'
  | .addPortRule port ipProtocol _, m, m' =>
    m'.reports (isPortEnabled port ipProtocol) = true ∧ OnlyPort (port, ipProtocol) m m'
  | .removePortRule port ipProtocol, m, m' =>
    m'.reports (isPortEnabled port ipProtocol) = false ∧ OnlyPort (port, ipProtocol) m m'

/-- The return code of the call is sound. -/
def FwOp.Sound (fails : ℕ → Bool) (t : Trace FireWallMgr) (op : FwOp) : Prop :=
  ((op.run fails t).1 = dtkOk → op.Done t.world (op.run fails t).2.world) ∧
  ((op.run fails t).1 = dtkError → (op.run fails t).2.world = t.world)

/-! ## The bodies -/

section Bodies
variable {P : FireWallMgr → Prop}

theorem comCall_ends : Ends P comCall (fun _ => P) P :=
  .ask (fun _ _ h _ => h) fun _ h => h

theorem sysAllocString_ends (s : Option WStr) :
    Ends P (sysAllocString s) (fun bstr w => P w ∧ s = some bstr ∧ bstr ≠ []) P := by
  refine .bind (Q := fun bstr w => P w ∧ s = some bstr)
    (.ask (fun w bstr hw hs => ⟨hw, hs⟩) fun _ h => h) fun bstr => ?_
  by_cases hb : bstr = []
  · rw [if_pos hb]
    exact .giveUp fun _ h => h.1
  · rw [if_neg hb]
    exact .pure fun _ h => ⟨h.1, h.2, hb⟩

theorem require_ends :
    Ends P (require fireWallProfile) (fun _ w => P w ∧ w.fireWallProfile = true) P :=
  .require (fun _ hw hp => ⟨hw, hp⟩) fun _ hw _ => hw

theorem isFirewallOn_ends :
    Ends P isFirewallOn (fun b w => P w ∧ w.profile.firewallEnabled = b) P := by
  refine .bind require_ends fun _ => ?_
  exact .ask (fun w b hw hb => ⟨hw.1, Option.some.inj hb⟩) fun _ h => h.1

theorem isAppEnabled_ends (file : Option WStr) : Ends P (isAppEnabled file) (fun _ => P) P := by
  unfold isAppEnabled
  by_cases hf : file = none
  · rw [if_pos hf]
    exact .giveUp fun _ h => h
  · rw [if_neg hf]
    refine .bind (Q := fun _ => P) (require_ends.mono (fun _ h => h) (fun _ _ h => h.1) fun _ h => h)
      fun _ => .bind comCall_ends fun _ => .bind (Q := fun _ => P)
      ((sysAllocString_ends file).mono (fun _ h => h) (fun _ _ h => h.1) fun _ h => h)
      fun bstr => .bind (Q := fun _ => P) (.handled (.ask (fun _ _ h _ => h) fun _ h => h)) ?_
    rintro (_ | e)
    · exact .pure fun _ h => h
    · exact .ask (fun _ _ h _ => h) fun _ h => h

/-- The port is there when the query does not fail. -/
theorem isPortEnabled_ends (port : ℤ) (ipProtocol : IpProtocol) :
    Ends P (isPortEnabled port ipProtocol) (fun b w => P w ∧
      (w.profile.globallyOpenPorts (port, ipProtocol)).map FwEntry.enabled = some b) P := by
  refine .bind (Q := fun _ => P) (require_ends.mono (fun _ h => h) (fun _ _ h => h.1) fun _ h => h)
    fun _ => .bind comCall_ends fun _ => .bind (Q := fun e w => P w ∧
      w.profile.globallyOpenPorts (port, ipProtocol) = some e)
      (.ask (fun _ _ hw he => ⟨hw, he⟩) fun _ h => h) fun e => ?_
  refine .ask (fun w b hw hb => ⟨hw.1, ?_⟩) fun _ h => h.1
  rw [hw.2, Option.map_some]
  exact hb

end Bodies

variable {m : FireWallMgr}

theorem turnOnFirewall_ends :
    Ends (· = m) turnOnFirewall (fun _ => FwOp.turnOnFirewall.Done m) (· = m) := by
  refine .bind (require_ends.mono (fun _ h => h) (fun _ _ h => h) fun _ h => h) fun _ =>
    .bind (isFirewallOn_ends.mono (fun _ h => h) (fun _ _ h => h) fun _ h => h.1) fun b => ?_
  cases b with
  | false =>
    refine .tell ?_ fun w h => h.1.1
    rintro w ⟨⟨rfl, hp⟩, -⟩
    refine ⟨?_, rfl, rfl, rfl⟩
    rw [reports_isFirewallOn (by exact hp)]
    rfl
  | true =>
    refine .pure ?_
    rintro w ⟨⟨rfl, hp⟩, hon⟩
    refine ⟨?_, rfl, rfl, rfl⟩
    rw [reports_isFirewallOn hp, hon]

theorem addApplication_ends (file reg : Option WStr) :
    Ends (· = m) (addApplication file reg) (fun _ => (FwOp.addApplication file reg).Done m)
      (· = m) := by
  unfold addApplication
  by_cases hnull : file = none ∨ reg = none
  · rw [if_pos hnull]
    exact .giveUp fun _ h => h
  · rw [if_neg hnull]
    refine .bind require_ends fun _ => .bind
      ((isAppEnabled_ends file).mono (fun _ h => h) (fun _ _ h => h) fun _ h => h.1) fun b => ?_
    cases b with
    | true => exact .giveUp fun _ h => h.1
    | false =>
      refine .bind (comCall_ends.mono (fun _ h => h) (fun _ _ h => h) fun _ h => h.1) fun _ =>
        .bind (comCall_ends.mono (fun _ h => h) (fun _ _ h => h) fun _ h => h.1) fun _ =>
        .bind ((sysAllocString_ends file).mono (fun _ h => h) (fun _ _ h => h) fun _ h => h.1)
          fun f => .bind (comCall_ends.mono (fun _ h => h) (fun _ _ h => h) fun _ h => h.1.1)
          fun _ => .bind ((sysAllocString_ends reg).mono (fun _ h => h) (fun _ _ h => h)
            fun _ h => h.1.1) fun r =>
          .bind (comCall_ends.mono (fun _ h => h) (fun _ _ h => h) fun _ h => h.1.1.1) fun _ => ?_
      refine .tell ?_ fun w h => h.1.1.1
      rintro w ⟨⟨⟨rfl, hp⟩, rfl, hf⟩, -⟩
      refine ⟨f, rfl, ?_, onlyApplication_set f _ w⟩
      rw [reports_isAppEnabled (by exact hp) hf]
      simp [setApplication]

theorem removeApplication_ends (file : Option WStr) :
    Ends (· = m) (removeApplication file) (fun _ => (FwOp.removeApplication file).Done m)
      (· = m) := by
  unfold removeApplication
  by_cases hnull : file = none
  · rw [if_pos hnull]
    exact .giveUp fun _ h => h
  · rw [if_neg hnull]
    refine .bind require_ends fun _ => .bind
      ((isAppEnabled_ends file).mono (fun _ h => h) (fun _ _ h => h) fun _ h => h.1) fun b => ?_
    cases b with
    | false => exact .giveUp fun _ h => h.1
    | true =>
      refine .bind (comCall_ends.mono (fun _ h => h) (fun _ _ h => h) fun _ h => h.1) fun _ =>
        .bind ((sysAllocString_ends file).mono (fun _ h => h) (fun _ _ h => h) fun _ h => h.1)
          fun f => ?_
      refine .tell ?_ fun w h => h.1.1
      rintro w ⟨⟨rfl, hp⟩, rfl, hf⟩
      refine ⟨f, rfl, ?_, onlyApplication_set f none w⟩
      rw [reports_isAppEnabled (by exact hp) hf]
      simp [setApplication]

theorem addPortRule_ends (port : ℤ) (ipProtocol : IpProtocol) (reg : Option WStr) :
    Ends (· = m) (addPortRule port ipProtocol reg)
      (fun _ => (FwOp.addPortRule port ipProtocol reg).Done m) (· = m) := by
  refine .bind require_ends fun _ => .bind ((isPortEnabled_ends port ipProtocol).mono
    (fun _ h => h) (fun _ _ h => h.1) fun _ h => h.1) fun b => ?_
  cases b with
  | true => exact .giveUp fun _ h => h.1
  | false =>
    refine .bind (comCall_ends.mono (fun _ h => h) (fun _ _ h => h) fun _ h => h.1) fun _ =>
      .bind (comCall_ends.mono (fun _ h => h) (fun _ _ h => h) fun _ h => h.1) fun _ =>
      .bind (comCall_ends.mono (fun _ h => h) (fun _ _ h => h) fun _ h => h.1) fun _ =>
      .bind (comCall_ends.mono (fun _ h => h) (fun _ _ h => h) fun _ h => h.1) fun _ =>
      .bind ((sysAllocString_ends reg).mono (fun _ h => h) (fun _ _ h => h.1) fun _ h => h.1)
        fun r => .bind (comCall_ends.mono (fun _ h => h) (fun _ _ h => h) fun _ h => h.1)
        fun _ => ?_
    refine .tell ?_ fun w h => h.1
    rintro w ⟨rfl, hp⟩
    refine ⟨?_, onlyPort_set (port, ipProtocol) _ w⟩
    rw [reports_isPortEnabled (by exact hp)]
    simp [setPort]

theorem removePortRule_ends (port : ℤ) (ipProtocol : IpProtocol) :
    Ends (· = m) (removePortRule port ipProtocol)
      (fun _ => (FwOp.removePortRule port ipProtocol).Done m) (· = m) := by
  refine .bind require_ends fun _ => .bind ((isPortEnabled_ends port ipProtocol).mono
    (fun _ h => h) (fun _ _ h => h) fun _ h => h.1) fun b => ?_
  cases b with
  | false =>
    refine .pure ?_
    rintro w ⟨⟨rfl, hp⟩, hb⟩
    refine ⟨?_, rfl, rfl, rfl, fun _ _ => rfl⟩
    rw [reports_isPortEnabled hp, hb]
    rfl
  | true =>
    refine .bind (comCall_ends.mono (fun _ h => h) (fun _ _ h => h) fun _ h => h.1.1) fun _ => ?_
    refine .tell ?_ fun w h => h.1.1
    rintro w ⟨⟨rfl, hp⟩, -⟩
    refine ⟨?_, onlyPort_set (port, ipProtocol) none w⟩
    rw [reports_isPortEnabled (by exact hp)]
    simp [setPort]

/-! ## The result -/

theorem dtkOk_ne_dtkError : dtkOk ≠ dtkError := by decide

/-- The call is not a `TurnOffFirewall` that finds the firewall turned on. -/
def FwOp.FindsOff (fails : ℕ → Bool) (t : Trace FireWallMgr) (op : FwOp) : Prop :=
  op = .turnOffFirewall → t.world.fireWallProfile = true → fails t.calls = false →
    t.world.profile.firewallEnabled = false

theorem FwOp.sound_of_ends {op : FwOp} (h : ∀ m, Ends (· = m) op.body (fun _ => op.Done m) (· = m))
    (fails : ℕ → Bool) (t : Trace FireWallMgr) : op.Sound fails t := by
  obtain ⟨hok, hno⟩ := h t.world fails t rfl
  unfold FwOp.Sound FwOp.run
  cases hx : op.body fails t with
  | mk r t' =>
    rw [hx] at hok hno
    cases r with
    | some a => exact ⟨fun _ => hok a rfl, fun he => absurd he dtkOk_ne_dtkError⟩
    | none => exact ⟨fun he => absurd he.symm dtkOk_ne_dtkError, fun _ => hno rfl⟩

/-- `TurnOffFirewall` returns `DTK_OK` for a firewall that is on, and leaves it on. -/
theorem turnOffFirewall_sound (fails : ℕ → Bool) (t : Trace FireWallMgr) :
    FwOp.turnOffFirewall.Sound fails t ↔ FwOp.turnOffFirewall.FindsOff fails t := by
  obtain ⟨m, n⟩ := t
  cases hp : m.fireWallProfile with
  | false =>
    have hx : FwOp.turnOffFirewall.run fails ⟨m, n⟩ = (dtkError, ⟨m, n⟩) := by
      simp [FwOp.run, FwOp.body, turnOffFirewall, bind_run, require, hp]
    unfold FwOp.Sound FwOp.FindsOff
    rw [hx]
    simp [hp, dtkOk, dtkError]
  | true =>
    cases hq : fails n with
    | true =>
      have hx : FwOp.turnOffFirewall.run fails ⟨m, n⟩ = (dtkError, ⟨m, n + 1⟩) := by
        simp [FwOp.run, FwOp.body, turnOffFirewall, isFirewallOn, bind_run, require, ask, call, hp, hq]
      unfold FwOp.Sound FwOp.FindsOff
      rw [hx]
      simp [hq, dtkOk, dtkError]
    | false =>
      cases hon : m.profile.firewallEnabled with
      | true =>
        have hx : FwOp.turnOffFirewall.run fails ⟨m, n⟩ = (dtkOk, ⟨m, n + 1⟩) := by
          simp [FwOp.run, FwOp.body, turnOffFirewall, isFirewallOn, bind_run, require, ask, call, hp,
            hq, hon, pure, Attempt.pure]
        unfold FwOp.Sound FwOp.FindsOff
        rw [hx]
        constructor
        · intro h
          have hoff := (h.1 rfl).1
          rw [reports_isFirewallOn hp, hon] at hoff
          cases hoff
        · intro h
          have hoff := h rfl hp hq
          rw [hon] at hoff
          cases hoff
      | false =>
        refine ⟨fun _ _ _ _ => hon, fun _ => ?_⟩
        cases hput : fails (n + 1) with
        | true =>
          have hx : FwOp.turnOffFirewall.run fails ⟨m, n⟩ = (dtkError, ⟨m, n + 2⟩) := by
            simp [FwOp.run, FwOp.body, turnOffFirewall, isFirewallOn, bind_run, require, ask,
              Attempt.tell, call, hp, hq, hon, hput]
          unfold FwOp.Sound
          rw [hx]
          exact ⟨fun he => absurd he.symm dtkOk_ne_dtkError, fun _ => rfl⟩
        | false =>
          have hx : FwOp.turnOffFirewall.run fails ⟨m, n⟩ =
              (dtkOk, ⟨putFirewallEnabled false m, n + 2⟩) := by
            simp [FwOp.run, FwOp.body, turnOffFirewall, isFirewallOn, bind_run, require, ask,
              Attempt.tell, call, hp, hq, hon, hput]
          unfold FwOp.Sound
          rw [hx]
          refine ⟨fun _ => ⟨?_, rfl, rfl, rfl⟩, fun he => absurd he dtkOk_ne_dtkError⟩
          rw [reports_isFirewallOn (by exact hp)]
          rfl

theorem FwOp.sound_iff (fails : ℕ → Bool) (t : Trace FireWallMgr) (op : FwOp) :
    op.Sound fails t ↔ op.FindsOff fails t := by
  cases op with
  | turnOffFirewall => exact turnOffFirewall_sound fails t
  | turnOnFirewall =>
    exact ⟨fun _ h => FwOp.noConfusion h, fun _ => sound_of_ends (fun _ => turnOnFirewall_ends) fails t⟩
  | addApplication file reg =>
    exact ⟨fun _ h => FwOp.noConfusion h,
      fun _ => sound_of_ends (fun _ => addApplication_ends file reg) fails t⟩
  | removeApplication file =>
    exact ⟨fun _ h => FwOp.noConfusion h,
      fun _ => sound_of_ends (fun _ => removeApplication_ends file) fails t⟩
  | addPortRule port ipProtocol reg =>
    exact ⟨fun _ h => FwOp.noConfusion h,
      fun _ => sound_of_ends (fun _ => addPortRule_ends port ipProtocol reg) fails t⟩
  | removePortRule port ipProtocol =>
    exact ⟨fun _ h => FwOp.noConfusion h,
      fun _ => sound_of_ends (fun _ => removePortRule_ends port ipProtocol) fails t⟩

/-- **The return codes.** Whatever the profile and whichever calls fail, each call of a run does
what its return code says exactly when no `TurnOffFirewall` finds the firewall turned on. -/
theorem returnCodes_sound (fails : ℕ → Bool) (m : FireWallMgr) (n : ℕ) (ops : List FwOp) :
    Meets (FwOp.exec fails) (fun t op => op.Sound fails t) ⟨m, n⟩ ops ↔
      Meets (FwOp.exec fails) (fun t op => op.FindsOff fails t) ⟨m, n⟩ ops :=
  Meets.congr (fun t op => op.sound_iff fails t)

/-- With every call succeeding, `TurnOffFirewall` returns `DTK_OK` and the firewall stays on. -/
theorem returnCodes_unsound :
    ¬ Meets (FwOp.exec fun _ => false) (fun t op => op.Sound (fun _ => false) t)
      ⟨⟨true, ⟨true, fun _ => none, fun _ => none⟩⟩, 0⟩ [.turnOffFirewall] := by
  intro h
  have hdone := h.1.1 rfl
  have hoff : true = false := hdone.1
  cases hoff

end AppUtil.FireWall
