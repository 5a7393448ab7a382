import AppUtil.FireWall.ComObjects
import AppUtil.FireWall.ReturnCodes

/-! # The members without their objects

The pointers, the releases and the uses in between change nothing about what a member answers or does
to the profile: each member is the plain one on the flag whether there is a profile. What the plain
members keep over a run is so kept by the members. -/
namespace AppUtil.FireWall
open AppUtil.Lib AppUtil.Lib.Attempt
set_option autoImplicit false

namespace FireWallMgr

def setProfile (b : Bool) (m : FireWallMgr) : FireWallMgr := { m with fireWallProfile := b }

def createProfile : Attempt FireWallMgr Unit := do
  comCall -- CoCreateInstance
  comCall -- get_LocalPolicy
  tell (setProfile true)

/-- `Init` without its objects: it fails in a manager that is initialised. -/
def init : Attempt FireWallMgr Unit := do
  require fun m => !m.fireWallProfile
  comCall -- CoInitialize
  let result ← handled createProfile
  if result = none then giveUp else pure ()

/-- `Fini` without its objects. -/
def fini : Attempt FireWallMgr Unit := do
  require fireWallProfile
  change (setProfile false)

end FireWallMgr

def ComOp.plain : ComOp → Attempt FireWallMgr (Option Bool)
  | .init => do FireWallMgr.init; pure none
  | .fini => do FireWallMgr.fini; pure none
  | .isFirewallOn => do let b ← FireWallMgr.isFirewallOn; pure (some b)
  | .isAppEnabled file => do let b ← FireWallMgr.isAppEnabled file; pure (some b)
  | .isPortEnabled port ipProtocol => do let b ← FireWallMgr.isPortEnabled port ipProtocol; pure (some b)
  | .change op => do op.body; pure none

namespace ComMgr

/-- The manager as the plain members see it. -/
def seen (s : ComScope) : FireWallMgr := s.world.mgr

abbrev Sees {α : Type} (p : Com α) (q : Attempt FireWallMgr α) : Prop := Refines seen p q

/-! ## The steps -/

section Steps
variable {α β : Type} {p : Com α} {q : Attempt FireWallMgr α} {l : ComLocal}

theorem haveProfile_sees : Sees haveProfile (require FireWallMgr.fireWallProfile) :=
  Scope.check_refines (v := mgr) fun _ => rfl

theorem use_sees (hp : Sees p q) : Sees (use l >>= fun _ => p) q := Scope.touch_refines (v := mgr) hp

theorem useProfile_sees (hp : Sees p q) : Sees (useProfile >>= fun _ => p) q :=
  Scope.touch_refines (v := mgr) hp

theorem get_sees : Sees (get l) FireWallMgr.comCall := Scope.acquire_refines (v := mgr) fun _ => rfl

theorem comCall_sees : Sees comCall FireWallMgr.comCall := by
  unfold comCall FireWallMgr.comCall Attempt.ask
  exact Scope.act_refines (v := mgr) fun _ => rfl

theorem ask_sees (f : FireWallMgr → Option α) : Sees (ask f) (Attempt.ask f) := by
  refine Scope.act_refines (v := mgr) fun w => ?_
  rw [Option.map_map]
  rfl

/-- What only works on the profile. -/
theorem tell_sees {f : FireWallMgr → FireWallMgr} (hf : ∀ m, (f m).fireWallProfile = m.fireWallProfile) :
    Sees (tell f) (Attempt.tell f) := by
  refine Scope.act_refines (v := mgr) fun w => ?_
  have hw : f w.mgr = (w.onProfile f).mgr := congrArg (FireWallMgr.mk · _) (hf w.mgr)
  exact congrArg (fun m => some ((), m)) hw

theorem sysAllocString_sees (s : Option WStr) : Sees (sysAllocString l s) (FireWallMgr.sysAllocString s) := by
  refine .bind (Scope.acquire_refines (v := mgr) fun _ => rfl) fun bstr => use_sees ?_
  by_cases hb : bstr = []
  · rw [if_pos hb, if_pos hb]
    exact .giveUp
  · rw [if_neg hb, if_neg hb]
    exact .pure bstr

theorem ite_sees {c : Prop} [Decidable c] {p' : Com α} {q' : Attempt FireWallMgr α}
    (ht : c → Sees p q) (he : ¬ c → Sees p' q') : Sees (if c then p else p') (if c then q else q') := by
  by_cases hc : c
  · rw [if_pos hc, if_pos hc]
    exact ht hc
  · rw [if_neg hc, if_neg hc]
    exact he hc

theorem inScope_sees {ls : List ComLocal} (hp : Sees p q) : Sees (Scope.inScope ls p) q :=
  Scope.inScope_refines (v := mgr) hp

end Steps

/-! ## The members -/

theorem isFirewallOn_sees : Sees isFirewallOn FireWallMgr.isFirewallOn :=
  .bind haveProfile_sees fun _ => useProfile_sees (ask_sees _)

theorem isAppEnabled_sees (file : Option WStr) :
    Sees (isAppEnabled file) (FireWallMgr.isAppEnabled file) := by
  refine ite_sees (fun _ => .giveUp) fun _ => inScope_sees (.bind haveProfile_sees fun _ =>
    useProfile_sees (.bind get_sees fun _ => .bind (sysAllocString_sees file) fun bstr =>
    use_sees (use_sees (.bind (.handled (Scope.acquire_refines (v := mgr) fun _ => rfl)) fun r => ?_))))
  cases r with
  | none => exact .pure false
  | some e => exact use_sees (ask_sees _)

theorem isPortEnabled_sees (port : ℤ) (ipProtocol : IpProtocol) :
    Sees (isPortEnabled port ipProtocol) (FireWallMgr.isPortEnabled port ipProtocol) :=
  inScope_sees (.bind haveProfile_sees fun _ => useProfile_sees (.bind get_sees fun _ =>
    use_sees (.bind (Scope.acquire_refines (v := mgr) fun _ => rfl) fun _ => use_sees (ask_sees _))))

theorem turnOnFirewall_sees : Sees turnOnFirewall FireWallMgr.turnOnFirewall :=
  .bind haveProfile_sees fun _ => .bind isFirewallOn_sees fun _ => ite_sees
    (fun _ => useProfile_sees (tell_sees fun _ => rfl)) fun _ => .pure ()

theorem turnOffFirewall_sees : Sees turnOffFirewall FireWallMgr.turnOffFirewall :=
  .bind haveProfile_sees fun _ => .bind isFirewallOn_sees fun _ => ite_sees
    (fun _ => useProfile_sees (tell_sees fun _ => rfl)) fun _ => .pure ()

theorem addApplication_sees (file reg : Option WStr) :
    Sees (addApplication file reg) (FireWallMgr.addApplication file reg) := by
  refine ite_sees (fun _ => .giveUp) fun _ => inScope_sees (.bind haveProfile_sees fun _ =>
    .bind (isAppEnabled_sees file) fun _ => ite_sees (fun _ => .giveUp) fun _ =>
    useProfile_sees (.bind get_sees fun _ => .bind get_sees fun _ =>
    .bind (sysAllocString_sees file) fun f => use_sees (use_sees (.bind comCall_sees fun _ =>
    .bind (sysAllocString_sees reg) fun n => use_sees (use_sees (.bind comCall_sees fun _ => ?_))))))
  exact use_sees (use_sees (tell_sees fun _ => rfl))

theorem removeApplication_sees (file : Option WStr) :
    Sees (removeApplication file) (FireWallMgr.removeApplication file) :=
  ite_sees (fun _ => .giveUp) fun _ => inScope_sees (.bind haveProfile_sees fun _ =>
    .bind (isAppEnabled_sees file) fun _ => ite_sees (fun _ => useProfile_sees (.bind get_sees fun _ =>
    .bind (sysAllocString_sees file) fun _ => use_sees (use_sees (tell_sees fun _ => rfl))))
    fun _ => .giveUp)

theorem addPortRule_sees (port : ℤ) (ipProtocol : IpProtocol) (reg : Option WStr) :
    Sees (addPortRule port ipProtocol reg) (FireWallMgr.addPortRule port ipProtocol reg) := by
  refine inScope_sees (.bind haveProfile_sees fun _ => .bind (isPortEnabled_sees port ipProtocol) fun _ =>
    ite_sees (fun _ => useProfile_sees (.bind get_sees fun _ => .bind get_sees fun _ =>
    use_sees (.bind comCall_sees fun _ => use_sees (.bind comCall_sees fun _ =>
    .bind (sysAllocString_sees reg) fun n => use_sees (use_sees (.bind comCall_sees fun _ => ?_))))))
    fun _ => .giveUp)
  exact use_sees (use_sees (tell_sees fun _ => rfl))

theorem removePortRule_sees (port : ℤ) (ipProtocol : IpProtocol) :
    Sees (removePortRule port ipProtocol) (FireWallMgr.removePortRule port ipProtocol) :=
  inScope_sees (.bind haveProfile_sees fun _ => .bind (isPortEnabled_sees port ipProtocol) fun _ =>
    ite_sees (fun _ => useProfile_sees (.bind get_sees fun _ => use_sees (tell_sees fun _ => rfl)))
    fun _ => .pure ())

theorem createProfile_sees : Sees createProfile FireWallMgr.createProfile :=
  inScope_sees (.bind get_sees fun _ => use_sees (.bind get_sees fun _ => use_sees
    (Scope.adopt_refines (v := mgr) fun _ _ => rfl)))

theorem init_sees : Sees init FireWallMgr.init := by
  refine .bind (Scope.check_refines (v := mgr) fun w => ?_) fun _ =>
    .bind (Scope.adopt_refines (v := mgr) (g := id) fun _ _ => rfl) fun _ =>
    .bind (.handled createProfile_sees) fun r => ite_sees (fun _ => ?_) fun _ => .pure ()
  · cases hp : w.fireWallProfile <;> simp [mgr, hp]
  · exact .silent (fun _ _ => ⟨rfl, rfl⟩) .giveUp

theorem fini_sees : Sees fini FireWallMgr.fini :=
  .bind haveProfile_sees fun _ _ _ => rfl

end ComMgr

open ComMgr

theorem FwOp.com_sees (op : FwOp) : Sees op.com op.body := by
  cases op with
  | turnOnFirewall => exact turnOnFirewall_sees
  | turnOffFirewall => exact turnOffFirewall_sees
  | addApplication file reg => exact addApplication_sees file reg
  | removeApplication file => exact removeApplication_sees file
  | addPortRule port ipProtocol reg => exact addPortRule_sees port ipProtocol reg
  | removePortRule port ipProtocol => exact removePortRule_sees port ipProtocol

theorem ComOp.body_sees (op : ComOp) : Sees op.body op.plain := by
  cases op with
  | init => exact .bind init_sees fun _ => .pure none
  | fini => exact .bind fini_sees fun _ => .pure none
  | isFirewallOn => exact .bind isFirewallOn_sees fun b => .pure (some b)
  | isAppEnabled file => exact .bind (isAppEnabled_sees file) fun b => .pure (some b)
  | isPortEnabled port ipProtocol => exact .bind (isPortEnabled_sees port ipProtocol) fun b => .pure (some b)
  | change op => exact .bind op.com_sees fun _ => .pure none

/-- **The objects do not show.** Over every run of a manager, whichever calls fail, each member answers
as the plain one does, after as many calls, and leaves the profile of the machine as the plain one
leaves it. -/
theorem com_simulates (fails : ℕ → Bool) (t : Trace ComScope) (ops : List ComOp) :
    Simulates (ComOp.exec fails) (fun u op => (op.plain fails u).2) (fun t u => u = Trace.map seen t)
      (fun t op _ => (op.body fails t).1 = (op.plain fails (Trace.map seen t)).1) t (Trace.map seen t) ops := by
  refine Simulates.of_step (L := fun _ => True) (R := fun t u => u = Trace.map seen t)
    (fun t u op _ ht => ?_) rfl fun _ _ => trivial
  have hsees := op.body_sees fails t
  refine ⟨_, rfl, (congrArg Prod.fst hsees).symm, ?_⟩
  rw [ht]
  exact congrArg Prod.snd hsees

end AppUtil.FireWall
