import AppUtil.Lib.Attempts
import AppUtil.Lib.Run
import Mathlib.Data.Int.Notation

/-! # The firewall manager (`CFireWallMgr`)

The profile is what the COM objects work on: the flag, the authorised applications and the open
ports. Every COM call and every `SysAllocString` can fail. The bodies leave their `do .. while (0)`
at the first failure and return `DTK_ERROR`; each ends with the one call that changes the profile. -/
namespace AppUtil.FireWall
open AppUtil.Lib AppUtil.Lib.Attempt
set_option autoImplicit false

def dtkOk : ℤ := 0
def dtkError : ℤ := -1

/-- A `wchar_t` text. -/
abbrev WStr := List Char

/-- `NET_FW_IP_PROTOCOL`. -/
inductive IpProtocol where
  | tcp
  | udp
  | any
  deriving DecidableEq, Repr

/-- An `INetFwAuthorizedApplication` or an `INetFwOpenPort` in its collection. -/
structure FwEntry where
  name : WStr
  enabled : Bool
  deriving DecidableEq, Repr

/-- `INetFwProfile`. -/
structure FwProfile where
  firewallEnabled : Bool
  authorizedApplications : WStr → Option FwEntry
  globallyOpenPorts : ℤ × IpProtocol → Option FwEntry

/-- `CFireWallMgr`, with the profile of the machine; `fireWallProfile` is whether
`m_pFireWallProfile` is set. -/
structure FireWallMgr where
  fireWallProfile : Bool
  profile : FwProfile

namespace FireWallMgr

def putFirewallEnabled (b : Bool) (m : FireWallMgr) : FireWallMgr :=
  { m with profile := { m.profile with firewallEnabled := b } }

/-- `Add` and `Remove` of the collection of applications. -/
def setApplication (file : WStr) (e : Option FwEntry) (m : FireWallMgr) : FireWallMgr :=
  { m with profile := { m.profile with
      authorizedApplications := fun f =>
        if f = file then e else m.profile.authorizedApplications f } }

/-- `Add` and `Remove` of the collection of ports. -/
def setPort (port : ℤ × IpProtocol) (e : Option FwEntry) (m : FireWallMgr) : FireWallMgr :=
  { m with profile := { m.profile with
      globallyOpenPorts := fun p => if p = port then e else m.profile.globallyOpenPorts p } }

/-- A COM call that only has to succeed. -/
def comCall : Attempt FireWallMgr Unit := ask fun _ => some ()

/-- `SysAllocString` and the test for NULL and for the empty string after it. -/
def sysAllocString (s : Option WStr) : Attempt FireWallMgr WStr := do
  let bstr ← ask fun _ => s
  if bstr = [] then giveUp else pure bstr

/-- `IsFirewallOn`. -/
def isFirewallOn : Attempt FireWallMgr Bool := do
  require fireWallProfile
  ask fun m => some m.profile.firewallEnabled

/-- `TurnOnFirewall`. -/
def turnOnFirewall : Attempt FireWallMgr Unit := do
  require fireWallProfile
  let bFWOn ← isFirewallOn
  if bFWOn = false then tell (putFirewallEnabled true) else pure ()

/-- `TurnOffFirewall`. The test is the one of `TurnOnFirewall`. -/
def turnOffFirewall : Attempt FireWallMgr Unit := do
  require fireWallProfile
  let bFWOn ← isFirewallOn
  if bFWOn = false then tell (putFirewallEnabled false) else pure ()

/-- `IsAppEnabled`: an application that `Item` does not find is not enabled. -/
def isAppEnabled (lpszProcessImageFileName : Option WStr) : Attempt FireWallMgr Bool :=
  if lpszProcessImageFileName = none then
    giveUp
  else do
    require fireWallProfile
    comCall -- get_AuthorizedApplications
    let bstr ← sysAllocString lpszProcessImageFileName
    let pFWApp ← handled (ask fun m => m.profile.authorizedApplications bstr)
    match pFWApp with
    | some e => ask fun _ => some e.enabled
    | none => pure false

/-- `AddApplication`. -/
def addApplication (lpszProcessImageFileName lpszRegisterName : Option WStr) :
    Attempt FireWallMgr Unit :=
  if lpszProcessImageFileName = none ∨ lpszRegisterName = none then
    giveUp
  else do
    require fireWallProfile
    let bAppEnable ← isAppEnabled lpszProcessImageFileName
    if bAppEnable then
      giveUp -- the result is the literal -1
    else do
      comCall -- get_AuthorizedApplications
      comCall -- CoCreateInstance
      let bstrProcessImageFileName ← sysAllocString lpszProcessImageFileName
      comCall -- put_ProcessImageFileName
      let bstrRegisterName ← sysAllocString lpszRegisterName
      comCall -- put_Name
      tell (setApplication bstrProcessImageFileName (some ⟨bstrRegisterName, true⟩))

/-- `RemoveApplication`: an application that is not enabled is an error. -/
def removeApplication (lpszProcessImageFileName : Option WStr) : Attempt FireWallMgr Unit :=
  if lpszProcessImageFileName = none then
    giveUp
  else do
    require fireWallProfile
    let bAppEnable ← isAppEnabled lpszProcessImageFileName
    if bAppEnable then do
      comCall -- get_AuthorizedApplications
      let bstrProcessImageFileName ← sysAllocString lpszProcessImageFileName
      tell (setApplication bstrProcessImageFileName none)
    else
      giveUp

/-- `IsPortEnabled`: a port that `Item` does not find is an error. -/
def isPortEnabled (lPortNumber : ℤ) (ipProtocol : IpProtocol) : Attempt FireWallMgr Bool := do
  require fireWallProfile
  comCall -- get_GloballyOpenPorts
  let pFWOpenPort ← ask fun m => m.profile.globallyOpenPorts (lPortNumber, ipProtocol)
  ask fun _ => some pFWOpenPort.enabled

/-- `AddPortRule`: a port that is enabled is an error. -/
def addPortRule (lPortNumber : ℤ) (ipProtocol : IpProtocol) (lpszRegisterName : Option WStr) :
    Attempt FireWallMgr Unit := do
  require fireWallProfile
  let bEnablePort ← isPortEnabled lPortNumber ipProtocol
  if bEnablePort = false then do
    comCall -- get_GloballyOpenPorts
    comCall -- CoCreateInstance
    comCall -- put_Port
    comCall -- put_Protocol
    let bstrRegisterName ← sysAllocString lpszRegisterName
    comCall -- put_Name
    tell (setPort (lPortNumber, ipProtocol) (some ⟨bstrRegisterName, true⟩))
  else
    giveUp

/-- `RemovePortRule`: a port that is not enabled is left alone. -/
def removePortRule (lPortNumber : ℤ) (ipProtocol : IpProtocol) : Attempt FireWallMgr Unit := do
  require fireWallProfile
  let bEnablePort ← isPortEnabled lPortNumber ipProtocol
  if bEnablePort then do
    comCall -- get_GloballyOpenPorts
    tell (setPort (lPortNumber, ipProtocol) none)
  else
    pure ()

end FireWallMgr

/-! ## Runs -/

inductive FwOp where
  | turnOnFirewall
  | turnOffFirewall
  | addApplication (lpszProcessImageFileName lpszRegisterName : Option WStr)
  | removeApplication (lpszProcessImageFileName : Option WStr)
  | addPortRule (lPortNumber : ℤ) (ipProtocol : IpProtocol) (lpszRegisterName : Option WStr)
  | removePortRule (lPortNumber : ℤ) (ipProtocol : IpProtocol)
  deriving DecidableEq, Repr

def FwOp.body : FwOp → Attempt FireWallMgr Unit
  | .turnOnFirewall => FireWallMgr.turnOnFirewall
  | .turnOffFirewall => FireWallMgr.turnOffFirewall
  | .addApplication file reg => FireWallMgr.addApplication file reg
  | .removeApplication file => FireWallMgr.removeApplication file
  | .addPortRule port ipProtocol reg => FireWallMgr.addPortRule port ipProtocol reg
  | .removePortRule port ipProtocol => FireWallMgr.removePortRule port ipProtocol

/-- One call of the manager: what it returns and what it leaves. -/
def FwOp.run (fails : ℕ → Bool) (t : Trace FireWallMgr) (op : FwOp) : ℤ × Trace FireWallMgr :=
  match op.body fails t with
  | (some _, t) => (dtkOk, t)
  | (none, t) => (dtkError, t)

/-- A run never faults. -/
def FwOp.exec (fails : ℕ → Bool) (t : Trace FireWallMgr) (op : FwOp) :
    Except Empty (Trace FireWallMgr) := .ok (op.run fails t).2

end AppUtil.FireWall
