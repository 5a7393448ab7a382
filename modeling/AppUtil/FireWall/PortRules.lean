import AppUtil.FireWall.ReturnCodes

/-! # Adding and removing a port rule

`IsPortEnabled` fails for a port that is not in the list, where `IsAppEnabled` answers that the
application is not enabled, and `AddPortRule` leaves its result at `DTK_ERROR` when there is nothing to
do, where `RemovePortRule` and `TurnOnFirewall` return `DTK_OK`. -/
namespace AppUtil.FireWall
open AppUtil.Lib AppUtil.Lib.Attempt FireWallMgr
set_option autoImplicit false

/-- The result of a call when every COM call succeeds. -/
def FwOp.code (op : FwOp) (m : FireWallMgr) : ℤ := (op.run (fun _ => false) ⟨m, 0⟩).1

/-- What the call leaves then. -/
def FwOp.after (op : FwOp) (m : FireWallMgr) : FireWallMgr := (op.run (fun _ => false) ⟨m, 0⟩).2.world

/-- A rule can be added, added once more and removed, and the other ports stay as they are. -/
def AddsAndRemoves (m : FireWallMgr) (lPortNumber : ℤ) (ipProtocol : IpProtocol)
    (lpszRegisterName : WStr) : Prop :=
  let add := FwOp.addPortRule lPortNumber ipProtocol (some lpszRegisterName)
  let remove := FwOp.removePortRule lPortNumber ipProtocol
  let query := isPortEnabled lPortNumber ipProtocol
  let port := (lPortNumber, ipProtocol)
  (add.code m = dtkOk ∧ (add.after m).reports query = true ∧ OnlyPort port m (add.after m)) ∧
  (add.code (add.after m) = dtkOk ∧ (add.after (add.after m)).reports query = true ∧
    OnlyPort port m (add.after (add.after m))) ∧
  (remove.code (add.after (add.after m)) = dtkOk ∧
    (remove.after (add.after (add.after m))).reports query = false ∧
    OnlyPort port m (remove.after (add.after (add.after m))))

section Rules
variable {m : FireWallMgr} {port : ℤ} {ipProtocol : IpProtocol} {name : WStr}

/-- The rule of a port, if the manager is initialised and the port is in the list. -/
def FireWallMgr.listed (m : FireWallMgr) (port : ℤ) (ipProtocol : IpProtocol) : Option FwEntry :=
  if m.fireWallProfile then m.profile.globallyOpenPorts (port, ipProtocol) else none

theorem FireWallMgr.setPort_setPort (p : ℤ × IpProtocol) (e e' : Option FwEntry) (m : FireWallMgr) :
    (m.setPort p e).setPort p e' = m.setPort p e' := by
  have hports : (fun q => if q = p then e' else if q = p then e else m.profile.globallyOpenPorts q) =
      fun q => if q = p then e' else m.profile.globallyOpenPorts q := by
    funext q
    by_cases hq : q = p
    · rw [if_pos hq, if_pos hq]
    · rw [if_neg hq, if_neg hq, if_neg hq]
  exact congrArg (fun ports => { m with profile := { m.profile with globallyOpenPorts := ports } }) hports

theorem FireWallMgr.initialised_of_listed {e : FwEntry} (h : m.listed port ipProtocol = some e) :
    m.fireWallProfile = true := by
  by_contra hp
  rw [FireWallMgr.listed, if_neg hp] at h
  cases h

/-- Neither a new port nor one that is enabled is added. -/
theorem addPortRule_refused (h : m.listed port ipProtocol = none ∨
    ∃ e, m.listed port ipProtocol = some e ∧ e.enabled = true) :
    (FwOp.addPortRule port ipProtocol (some name)).code m = dtkError ∧
      (FwOp.addPortRule port ipProtocol (some name)).after m = m := by
  unfold FwOp.code FwOp.after FwOp.run FwOp.body addPortRule
  cases hp : m.fireWallProfile with
  | false => simp [bind_run, require, hp]
  | true =>
    rw [FireWallMgr.listed, if_pos hp] at h
    obtain hport | ⟨e, hport, hon⟩ := h
    · simp [bind_run, require, isPortEnabled, comCall, ask, call, hp, hport]
    · simp [bind_run, require, isPortEnabled, comCall, ask, call, giveUp, hp, hport, hon]

/-- A port that is in the list and not enabled is. -/
theorem addPortRule_enables (hname : name ≠ [])
    (h : ∃ e, m.listed port ipProtocol = some e ∧ e.enabled = false) :
    (FwOp.addPortRule port ipProtocol (some name)).code m = dtkOk ∧
      (FwOp.addPortRule port ipProtocol (some name)).after m =
        m.setPort (port, ipProtocol) (some ⟨name, true⟩) := by
  obtain ⟨e, hlisted, hoff⟩ := h
  have hp := initialised_of_listed hlisted
  rw [FireWallMgr.listed, if_pos hp] at hlisted
  unfold FwOp.code FwOp.after FwOp.run FwOp.body addPortRule
  simp [bind_run, require, isPortEnabled, comCall, sysAllocString, ask, call, Attempt.tell, pure,
    Attempt.pure, hp, hlisted, hoff, hname]

theorem removePortRule_removes {e : FwEntry} (h : m.listed port ipProtocol = some e)
    (hon : e.enabled = true) :
    (FwOp.removePortRule port ipProtocol).code m = dtkOk ∧
      (FwOp.removePortRule port ipProtocol).after m = m.setPort (port, ipProtocol) none := by
  have hp := initialised_of_listed h
  rw [FireWallMgr.listed, if_pos hp] at h
  unfold FwOp.code FwOp.after FwOp.run FwOp.body removePortRule
  simp [bind_run, require, isPortEnabled, comCall, ask, call, Attempt.tell, hp, h, hon]

/-- What is enabled by a rule is removed with it, and not disabled again. -/
theorem addPortRule_removePortRule (hname : name ≠ [])
    (h : ∃ e, m.listed port ipProtocol = some e ∧ e.enabled = false) :
    (FwOp.removePortRule port ipProtocol).after
        ((FwOp.addPortRule port ipProtocol (some name)).after m) =
      m.setPort (port, ipProtocol) none := by
  have hp : m.fireWallProfile = true := by
    obtain ⟨e, hlisted, -⟩ := h
    exact initialised_of_listed hlisted
  have hset : (m.setPort (port, ipProtocol) (some ⟨name, true⟩)).listed port ipProtocol =
      some ⟨name, true⟩ := by
    rw [FireWallMgr.listed, setPort, if_pos hp]
    exact if_pos rfl
  rw [(addPortRule_enables hname h).2, (removePortRule_removes hset rfl).2]
  exact setPort_setPort _ _ _ m

theorem listed_of_reports (h : m.reports (isPortEnabled port ipProtocol) = true) :
    ∃ e, m.listed port ipProtocol = some e ∧ e.enabled = true := by
  cases hp : m.fireWallProfile with
  | false =>
    have hno : m.reports (isPortEnabled port ipProtocol) = false := by
      simp [reports, isPortEnabled, bind_run, require, hp]
    rw [hno] at h
    cases h
  | true =>
    rw [reports_isPortEnabled hp] at h
    rw [FireWallMgr.listed, if_pos hp]
    cases hport : m.profile.globallyOpenPorts (port, ipProtocol) with
    | none =>
      rw [hport] at h
      cases h
    | some e =>
      rw [hport] at h
      exact ⟨e, rfl, h⟩

end Rules

/-- **No port rule can be added and removed** as one expects: what has been added once is refused the
second time, and a port that is not in the list is refused from the start. -/
theorem never_addsAndRemoves (m : FireWallMgr) (lPortNumber : ℤ) (ipProtocol : IpProtocol)
    (lpszRegisterName : WStr) :
    ¬ AddsAndRemoves m lPortNumber ipProtocol lpszRegisterName := by
  rintro ⟨⟨-, hon, -⟩, ⟨hagain, -⟩, -⟩
  have hlisted := listed_of_reports hon
  exact dtkOk_ne_dtkError (hagain.symm.trans (addPortRule_refused (.inr hlisted)).1)

/-- A manager with no open port. -/
def noPorts : FireWallMgr := ⟨true, ⟨true, fun _ => none, fun _ => none⟩⟩

/-- A new port is refused, and nothing is added. -/
theorem new_port_refused :
    (FwOp.addPortRule 80 .tcp (some ['w'])).code noPorts = dtkError ∧
    (FwOp.addPortRule 80 .tcp (some ['w'])).after noPorts = noPorts ∧
    ¬ AddsAndRemoves noPorts 80 .tcp ['w'] :=
  ⟨rfl, rfl, fun h => dtkOk_ne_dtkError h.1.1.symm⟩

end AppUtil.FireWall
