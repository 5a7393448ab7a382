import AppUtil.Mq.Cms
import AppUtil.Lib.Formatting
import AppUtil.Lib.Heap

/-! # Endpoints and connections (`MqProducer`, `MqConsumer`, `MqConnection`)

The two endpoint classes differ in the CMS object they hold and in the callback of a consumer, and
so do the members of `MqConnection` that add, delete and look for them; each pair is one
definition with the kind as a parameter. Objects live in heaps and are named by their addresses.
An access through a pointer to a deleted object is a fault. -/
namespace AppUtil.Mq
open AppUtil.Lib
open AppUtil.Lib.Formatting (cstr)
set_option autoImplicit false

/-- `MqProducer` (`pCp` is `m_pProducer`) and `MqConsumer` (`pCp` is `m_pConsumer`). Only a
consumer has a callback and its user pointer. -/
structure MqEndpoint where
  pDestination : Option ℕ
  pCp : Option ℕ
  pSession : Option ℕ
  nMode : MqMsgMode
  strName : Str
  pMsgCb : Option ℕ
  pUser : ℕ
  deriving DecidableEq, Repr

/-- `MqConnection`, without the broker url, which only the library reads. -/
structure MqConnection where
  pConnection : Option ℕ
  pSession : Option ℕ
  listProducer : List ℕ
  listConsumer : List ℕ
  deriving DecidableEq, Repr

/-- An endpoint as it was when it was deleted, and whether it was in the list of a connection. -/
structure Deletion where
  ptr : ℕ
  obj : MqEndpoint
  listed : Bool
  deriving DecidableEq, Repr

/-- The memory of the process as far as the wrapper owns it, with the calls of
`MqProducer::SendMsg` and the deletions of endpoints, newest first. -/
structure Mem where
  conns : Heap MqConnection
  ends : Heap MqEndpoint
  cms : Cms
  sends : List (ℕ × Str)
  deletions : List Deletion

namespace MqEndpoint

def cleared (ep : MqEndpoint) : MqEndpoint :=
  { ep with pDestination := none, pCp := none, pSession := none }


end MqEndpoint

namespace MqConnection

/-- The constructor. -/
def new : MqConnection := ⟨none, none, [], []⟩

def list (co : MqConnection) : EndKind → List ℕ
  | .producer => co.listProducer
  | .consumer => co.listConsumer

def setList (co : MqConnection) (kind : EndKind) (l : List ℕ) : MqConnection :=
  match kind with
  | .producer => { co with listProducer := l }
  | .consumer => { co with listConsumer := l }

/-- All endpoints of the connection. -/
def endpoints (co : MqConnection) : List ℕ := co.listProducer ++ co.listConsumer

/-- `MqConnection::IsEmptyConn`. -/
def isEmptyConn (co : MqConnection) : Bool := co.listConsumer.isEmpty && co.listProducer.isEmpty

@[simp] theorem setList_pSession (co : MqConnection) (kind : EndKind) (l : List ℕ) :
    (co.setList kind l).pSession = co.pSession := by
  cases kind <;> rfl

@[simp] theorem setList_pConnection (co : MqConnection) (kind : EndKind) (l : List ℕ) :
    (co.setList kind l).pConnection = co.pConnection := by
  cases kind <;> rfl

theorem list_setList (co : MqConnection) (kind k : EndKind) (l : List ℕ) :
    (co.setList kind l).list k = if k = kind then l else co.list k := by
  cases kind <;> cases k <;> rfl

theorem mem_endpoints {co : MqConnection} {e : ℕ} : e ∈ co.endpoints ↔ ∃ kind, e ∈ co.list kind := by
  simp only [endpoints, List.mem_append]
  constructor
  · rintro (h | h)
    · exact ⟨.producer, h⟩
    · exact ⟨.consumer, h⟩
  · rintro ⟨kind, h⟩
    cases kind with
    | producer => exact Or.inl h
    | consumer => exact Or.inr h

theorem isEmptyConn_iff {co : MqConnection} : co.isEmptyConn = true ↔ co.endpoints = [] := by
  simp [isEmptyConn, endpoints, and_comm]

end MqConnection

namespace Mem

/-- `e` is in a list of a connection that has not been deleted. -/
def listed (m : Mem) (e : ℕ) : Bool :=
  (List.range m.conns.next).any fun c =>
    match m.conns.cell c with
    | some co => decide (e ∈ co.endpoints)
    | none => false

theorem listed_of_mem {m : Mem} {c e : ℕ} {co : MqConnection} (hc : m.conns.cell c = some co)
    (he : e ∈ co.endpoints) : m.listed e = true := by
  refine List.any_eq_true.mpr ⟨c, List.mem_range.mpr (Heap.lt_next hc), ?_⟩
  simp [hc, he]

/-! ## Endpoints -/

/-- `Destroy` of either class. -/
def destroy (m : Mem) (e : ℕ) : Except Fault Mem := do
  let ep ← m.ends.deref e
  pure { m with
    ends := m.ends.modify e MqEndpoint.cleared
    cms := releaseDst m.cms ep.pDestination ep.pCp }

/-- `Create` of either class. Nothing of the object is touched when there is no session; the library is
given the name as a C string. -/
def create (m : Mem) (kind : EndKind) (e : ℕ) (pSession : Option ℕ) (out : CreateOutcome) :
    Except Fault Mem :=
  match pSession with
  | none => .ok m
  | some s => do
    let ep ← m.ends.deref e
    let m := { m with ends := m.ends.modify e fun ep => { ep with pSession := some s } }
    if out = .dstThrows then
      pure m
    else
      let d := m.cms.next
      let m := { m with
        ends := m.ends.modify e fun ep => { ep with pDestination := some d }
        cms := m.cms.create fun d => .createDestination s d ep.nMode (cstr ep.strName) }
      if out = .cpThrows then
        pure m
      else
        let x := m.cms.next
        let m := { m with
          ends := m.ends.modify e fun ep => { ep with pCp := some x }
          cms := m.cms.create fun x => .createEndpoint kind s x d }
        pure { m with cms := m.cms.call (.configureEndpoint x) }

/-- `MqProducer::SendMsg`; `true` is `DTK_OK`. -/
def sendMsg (m : Mem) (p : ℕ) (strMsg : Str) (out : SendOutcome) : Except Fault (Bool × Mem) := do
  let ep ← m.ends.deref p
  let m := { m with sends := (p, strMsg) :: m.sends }
  match ep.pSession with
  | none => pure (false, m)
  | some s =>
    let m := { m with cms := m.cms.call (.createBytesMessage s strMsg) }
    if out = .msgThrows then
      pure (false, m)
    else
      match ep.pCp with
      | none => pure (false, m)
      | some x =>
        let m := { m with cms := m.cms.call (.send x strMsg) }
        pure (decide (out = .sent), m)

/-- `delete` of an endpoint. -/
def deleteEnd (m : Mem) (e : ℕ) : Except Fault Mem := do
  let ends ← m.ends.free e
  let deleted := (m.ends.cell e).toList.map fun ep => ⟨e, ep, m.listed e⟩
  pure { m with ends := ends, deletions := deleted ++ m.deletions }

/-! ## Connections -/

/-- `MqConnection::Conn`. -/
def conn (m : Mem) (c : ℕ) (out : ConnOutcome) : Except Fault (Bool × Mem) := do
  let _ ← m.conns.deref c
  if out = .factoryThrows then
    pure (false, m)
  else
    let k := m.cms.next
    let m := { m with
      conns := m.conns.modify c fun co => { co with pConnection := some k }
      cms := (m.cms.create .createConnection).call (.startConnection k) }
    if out = .connected then
      let s := m.cms.next
      pure (true, { m with
        conns := m.conns.modify c fun co => { co with pSession := some s }
        cms := m.cms.create (.createSession k) })
    else
      pure (false, m)

/-- The end of `MqConnection::DestroyConn`: delete the session and then the connection. -/
def dropSession (m : Mem) (c : ℕ) : Except Fault Mem := do
  let co ← m.conns.deref c
  let cms := match co.pSession with
    | none => m.cms
    | some s => m.cms.call (.deleteSession s)
  pure { m with
    conns := m.conns.modify c fun co => { co with pSession := none }
    cms := cms }

def dropConnection (m : Mem) (c : ℕ) : Except Fault Mem := do
  let co ← m.conns.deref c
  let cms := match co.pConnection with
    | none => m.cms
    | some k => m.cms.call (.deleteConnection k)
  pure { m with
    conns := m.conns.modify c fun co => { co with pConnection := none }
    cms := cms }

/-- `MqConnection::DestroyConn`. -/
def destroyConn (m : Mem) (c : ℕ) : Except Fault Mem := do
  let co ← m.conns.deref c
  let m ← co.listProducer.foldlM destroy m
  let m ← co.listConsumer.foldlM destroy m
  let m ← m.dropSession c
  m.dropConnection c

/-- One loop of the second part of `DisConn`: delete a list of endpoints and clear it. -/
def clearList (m : Mem) (c : ℕ) (kind : EndKind) : Except Fault Mem := do
  let co ← m.conns.deref c
  let m ← (co.list kind).foldlM deleteEnd m
  pure { m with conns := m.conns.modify c fun co => co.setList kind [] }

/-- The second part of `MqConnection::DisConn`, which takes the lock anew. -/
def clearLists (m : Mem) (c : ℕ) : Except Fault Mem := do
  let m ← m.clearList c .producer
  m.clearList c .consumer

/-- `MqConnection::DisConn`; also `onException`, which only calls it. -/
def disConn (m : Mem) (c : ℕ) : Except Fault Mem := do
  let m ← m.destroyConn c
  m.clearLists c

/-- The first part of `MqConnection::AddProducer`/`AddConsumer`: the new object is put at the end
of its list. -/
def pushEnd (m : Mem) (c : ℕ) (kind : EndKind) (strName : Str) (nType : MqMsgMode)
    (pfnMsgCb : Option ℕ) (pUser : ℕ) : Except Fault (ℕ × Mem) := do
  let e := m.ends.next
  let ep : MqEndpoint := ⟨none, none, none, nType, strName, pfnMsgCb, pUser⟩
  let _ ← m.conns.deref c
  pure (e, { m with
    ends := m.ends.alloc ep
    conns := m.conns.modify c fun co => co.setList kind (co.list kind ++ [e]) })

/-- The second part, outside the lock: `Create` with the session the connection has by then. -/
def createEnd (m : Mem) (c : ℕ) (kind : EndKind) (e : ℕ) (out : CreateOutcome) :
    Except Fault Mem := do
  let co ← m.conns.deref c
  m.create kind e co.pSession out

/-- `MqConnection::AddProducer` and `MqConnection::AddConsumer`; `none` is NULL. -/
def addEnd (m : Mem) (c : ℕ) (kind : EndKind) (strName : Str) (nType : MqMsgMode)
    (pfnMsgCb : Option ℕ) (pUser : ℕ) (env : Env) : Except Fault (Option ℕ × Mem) :=
  if env.newEnd = false then
    .ok (none, m)
  else do
    let (e, m) ← m.pushEnd c kind strName nType pfnMsgCb pUser
    let m ← m.createEnd c kind e env.create
    pure (some e, m)

def addProducer (m : Mem) (c : ℕ) (strProducerName : Str) (nType : MqMsgMode) (env : Env) :
    Except Fault (Option ℕ × Mem) :=
  m.addEnd c .producer strProducerName nType none 0 env

def addConsumer (m : Mem) (c : ℕ) (strConsumerName : Str) (nType : MqMsgMode) (pfnMsgCb : Option ℕ)
    (pUser : ℕ) (env : Env) : Except Fault (Option ℕ × Mem) :=
  m.addEnd c .consumer strConsumerName nType pfnMsgCb pUser env

/-- The loop of `DelProducer`, `DelConsumer` and `HasConsumer`: the first endpoint of a list with
this name and mode. -/
def findEnd (m : Mem) (strName : Str) (nType : MqMsgMode) : List ℕ → Except Fault (Option ℕ)
  | [] => .ok none
  | e :: l => do
    let ep ← m.ends.deref e
    if ep.strName = strName ∧ ep.nMode = nType then pure (some e) else m.findEnd strName nType l

/-- `MqConnection::DelProducer` and `MqConnection::DelConsumer`; the result says whether the
connection is empty afterwards. -/
def delEnd (m : Mem) (c : ℕ) (kind : EndKind) (strName : Str) (nType : MqMsgMode) :
    Except Fault (Bool × Mem) := do
  let co ← m.conns.deref c
  match ← m.findEnd strName nType (co.list kind) with
  | none => pure (co.isEmptyConn, m)
  | some e =>
    let m ← m.destroy e
    let m ← m.deleteEnd e
    let co := co.setList kind ((co.list kind).erase e)
    pure (co.isEmptyConn, { m with conns := m.conns.modify c fun _ => co })

def delProducer (m : Mem) (c : ℕ) (strProducerName : Str) (nType : MqMsgMode) :
    Except Fault (Bool × Mem) :=
  m.delEnd c .producer strProducerName nType

def delConsumer (m : Mem) (c : ℕ) (strConsumerName : Str) (nType : MqMsgMode) :
    Except Fault (Bool × Mem) :=
  m.delEnd c .consumer strConsumerName nType

/-- `MqConnection::HasConsumer`. -/
def hasConsumer (m : Mem) (c : ℕ) (strConsumerName : Str) (nType : MqMsgMode) :
    Except Fault Bool := do
  let co ← m.conns.deref c
  let r ← m.findEnd strConsumerName nType co.listConsumer
  pure r.isSome

end Mem
end AppUtil.Mq
