import AppUtil.FireWall.FireWallMgr
import AppUtil.Lib.Scopes

/-! # The firewall manager and its COM objects

The members of `CFireWallMgr` once more, with the pointers they work through: the interfaces and the
`BSTR`s in their locals, `m_pFireWallProfile`, and the apartment between `CoInitialize` and
`CoUninitialize`, to which every interface belongs. A member uses an object with each call on it or
with it, and releases what its locals hold at its end. -/
namespace AppUtil.FireWall
open AppUtil.Lib AppUtil.Lib.Attempt
set_option autoImplicit false

inductive ComLocal where
  | fwMgr
  | fwPolicy
  | bstrFWProcessImageFileName
  | bstrProcessImageFileName
  | bstrRegisterName
  | pFWApp
  | pFWApps
  | pFWOpenPort
  | pFWOpenPorts
  deriving DecidableEq, Repr

/-- `CFireWallMgr` with its COM objects and the profile of the machine. -/
structure ComMgr where
  apartment : Ptr
  fireWallProfile : Ptr
  profile : FwProfile

abbrev ComScope := Scope ComLocal ComMgr

abbrev Com := Attempt ComScope

namespace ComMgr

/-- What the manager holds between two calls. -/
def base (m : ComMgr) : List (Ptr × Option Ptr) :=
  (if m.fireWallProfile = none then [] else [(m.fireWallProfile, some m.apartment)]) ++
    if m.apartment = none then [] else [(m.apartment, none)]

/-- An interface belongs to the apartment, a `BSTR` to nothing. -/
def kin (l : ComLocal) (m : ComMgr) : Option Ptr :=
  match l with
  | .bstrFWProcessImageFileName | .bstrProcessImageFileName | .bstrRegisterName => none
  | _ => some m.apartment

/-- The manager without its objects. -/
def mgr (m : ComMgr) : FireWallMgr := ⟨m.fireWallProfile.isSome, m.profile⟩

def onProfile (f : FireWallMgr → FireWallMgr) (m : ComMgr) : ComMgr :=
  { m with profile := (f m.mgr).profile }

/-! ## Steps of the members -/

def haveProfile : Com Unit := Scope.check fun m => m.fireWallProfile.isSome

def useProfile : Com Unit := Scope.touch fun s => s.world.fireWallProfile

def use (l : ComLocal) : Com Unit := Scope.touch fun s => s.frame l

/-- A call that puts an interface into `l`. -/
def get (l : ComLocal) : Com Unit := Scope.acquire kin l fun _ => some ()

/-- A call that only has to succeed. -/
def comCall : Com Unit := Scope.act fun m => some ((), m)

def ask {α : Type} (f : FireWallMgr → Option α) : Com α :=
  Scope.act fun m => (f m.mgr).map fun a => (a, m)

def tell (f : FireWallMgr → FireWallMgr) : Com Unit := Scope.act fun m => some ((), m.onProfile f)

/-- `SysAllocString` into `l`, and the tests of the pointer and of its length. -/
def sysAllocString (l : ComLocal) (s : Option WStr) : Com WStr := do
  let bstr ← Scope.acquire kin l fun _ => s
  use l
  if bstr = [] then giveUp else pure bstr

/-! ## The members -/

def coInitialize : Com Unit := Scope.adopt (fun _ => none) fun x m => { m with apartment := x }

def coUninitialize : Com Unit := Scope.disown apartment fun m => { m with apartment := none }

def getCurrentProfile : Com Unit :=
  Scope.adopt (fun m => some m.apartment) fun x m => { m with fireWallProfile := x }

/-- The block of `Init` and the releases after it. -/
def createProfile : Com Unit := Scope.inScope [.fwPolicy, .fwMgr] do
  get .fwMgr
  use .fwMgr
  get .fwPolicy
  use .fwPolicy
  getCurrentProfile

/-- `Init`. -/
def init : Com Unit := do
  Scope.check fun m => m.fireWallProfile.isNone
  coInitialize
  let result ← handled createProfile
  if result = none then do
    coUninitialize
    giveUp
  else
    pure ()

/-- `Fini`. -/
def fini : Com Unit := do
  haveProfile
  Scope.disown fireWallProfile fun m => { m with fireWallProfile := none }
  coUninitialize

/-- `IsFirewallOn`. -/
def isFirewallOn : Com Bool := do
  haveProfile
  useProfile
  ask fun m => some m.profile.firewallEnabled

/-- `TurnOnFirewall`. -/
def turnOnFirewall : Com Unit := do
  haveProfile
  let bFWOn ← isFirewallOn
  if bFWOn = false then do
    useProfile
    tell (FireWallMgr.putFirewallEnabled true)
  else
    pure ()

/-- `TurnOffFirewall`. -/
def turnOffFirewall : Com Unit := do
  haveProfile
  let bFWOn ← isFirewallOn
  if bFWOn = false then do
    useProfile
    tell (FireWallMgr.putFirewallEnabled false)
  else
    pure ()

/-- `IsAppEnabled`. -/
def isAppEnabled (lpszProcessImageFileName : Option WStr) : Com Bool :=
  if lpszProcessImageFileName = none then
    giveUp
  else Scope.inScope [.bstrFWProcessImageFileName, .pFWApp, .pFWApps] do
    haveProfile
    useProfile
    get .pFWApps
    let bstr ← sysAllocString .bstrFWProcessImageFileName lpszProcessImageFileName
    use .pFWApps
    use .bstrFWProcessImageFileName
    let pFWApp ← handled (Scope.acquire kin .pFWApp fun m => m.profile.authorizedApplications bstr)
    match pFWApp with
    | some e => do
      use .pFWApp
      ask fun _ => some e.enabled
    | none => pure false

/-- `AddApplication`. -/
def addApplication (lpszProcessImageFileName lpszRegisterName : Option WStr) : Com Unit :=
  if lpszProcessImageFileName = none ∨ lpszRegisterName = none then
    giveUp
  else Scope.inScope [.bstrProcessImageFileName, .bstrRegisterName, .pFWApp, .pFWApps] do
    haveProfile
    let bAppEnable ← isAppEnabled lpszProcessImageFileName
    if bAppEnable then
      giveUp
    else do
      useProfile
      get .pFWApps
      get .pFWApp
      let file ← sysAllocString .bstrProcessImageFileName lpszProcessImageFileName
      use .pFWApp
      use .bstrProcessImageFileName
      comCall -- put_ProcessImageFileName
      let name ← sysAllocString .bstrRegisterName lpszRegisterName
      use .pFWApp
      use .bstrRegisterName
      comCall -- put_Name
      use .pFWApps
      use .pFWApp
      tell (FireWallMgr.setApplication file (some ⟨name, true⟩))

/-- `RemoveApplication`. -/
def removeApplication (lpszProcessImageFileName : Option WStr) : Com Unit :=
  if lpszProcessImageFileName = none then
    giveUp
  else Scope.inScope [.bstrProcessImageFileName, .pFWApps] do
    haveProfile
    let bAppEnable ← isAppEnabled lpszProcessImageFileName
    if bAppEnable then do
      useProfile
      get .pFWApps
      let file ← sysAllocString .bstrProcessImageFileName lpszProcessImageFileName
      use .pFWApps
      use .bstrProcessImageFileName
      tell (FireWallMgr.setApplication file none)
    else
      giveUp

/-- `IsPortEnabled`. -/
def isPortEnabled (lPortNumber : ℤ) (ipProtocol : IpProtocol) : Com Bool :=
  Scope.inScope [.pFWOpenPort, .pFWOpenPorts] do
    haveProfile
    useProfile
    get .pFWOpenPorts
    use .pFWOpenPorts
    let e ← Scope.acquire kin .pFWOpenPort fun m => m.profile.globallyOpenPorts (lPortNumber, ipProtocol)
    use .pFWOpenPort
    ask fun _ => some e.enabled

/-- `AddPortRule`. -/
def addPortRule (lPortNumber : ℤ) (ipProtocol : IpProtocol) (lpszRegisterName : Option WStr) :
    Com Unit :=
  Scope.inScope [.bstrRegisterName, .pFWOpenPort, .pFWOpenPorts] do
    haveProfile
    let bEnablePort ← isPortEnabled lPortNumber ipProtocol
    if bEnablePort = false then do
      useProfile
      get .pFWOpenPorts
      get .pFWOpenPort
      use .pFWOpenPort
      comCall -- put_Port
      use .pFWOpenPort
      comCall -- put_Protocol
      let name ← sysAllocString .bstrRegisterName lpszRegisterName
      use .pFWOpenPort
      use .bstrRegisterName
      comCall -- put_Name
      use .pFWOpenPorts
      use .pFWOpenPort
      tell (FireWallMgr.setPort (lPortNumber, ipProtocol) (some ⟨name, true⟩))
    else
      giveUp

/-- `RemovePortRule`. -/
def removePortRule (lPortNumber : ℤ) (ipProtocol : IpProtocol) : Com Unit :=
  Scope.inScope [.pFWOpenPorts] do
    haveProfile
    let bEnablePort ← isPortEnabled lPortNumber ipProtocol
    if bEnablePort then do
      useProfile
      get .pFWOpenPorts
      use .pFWOpenPorts
      tell (FireWallMgr.setPort (lPortNumber, ipProtocol) none)
    else
      pure ()

end ComMgr

/-! ## Runs -/

/-- A call of one of the public members. -/
inductive ComOp where
  | init
  | fini
  | isFirewallOn
  | isAppEnabled (lpszProcessImageFileName : Option WStr)
  | isPortEnabled (lPortNumber : ℤ) (ipProtocol : IpProtocol)
  | change (op : FwOp)
  deriving DecidableEq, Repr

/-- The members that change the profile. -/
def FwOp.com : FwOp → Com Unit
  | .turnOnFirewall => ComMgr.turnOnFirewall
  | .turnOffFirewall => ComMgr.turnOffFirewall
  | .addApplication file reg => ComMgr.addApplication file reg
  | .removeApplication file => ComMgr.removeApplication file
  | .addPortRule port ipProtocol reg => ComMgr.addPortRule port ipProtocol reg
  | .removePortRule port ipProtocol => ComMgr.removePortRule port ipProtocol

/-- With what a query stores in its output parameter. -/
def ComOp.body : ComOp → Com (Option Bool)
  | .init => do ComMgr.init; pure none
  | .fini => do ComMgr.fini; pure none
  | .isFirewallOn => do let b ← ComMgr.isFirewallOn; pure (some b)
  | .isAppEnabled file => do let b ← ComMgr.isAppEnabled file; pure (some b)
  | .isPortEnabled port ipProtocol => do let b ← ComMgr.isPortEnabled port ipProtocol; pure (some b)
  | .change op => do op.com; pure none

/-- The calls of a run one after the other; a call that gives up returns `DTK_ERROR`. -/
def ComOp.exec (fails : ℕ → Bool) (t : Trace ComScope) (op : ComOp) :
    Except Empty (Trace ComScope) := .ok (op.body fails t).2

/-- A manager as its constructor leaves it. -/
def ComMgr.created (profile : FwProfile) : ComScope := ⟨⟨none, none, profile⟩, [], 0, fun _ => none⟩

end AppUtil.FireWall
