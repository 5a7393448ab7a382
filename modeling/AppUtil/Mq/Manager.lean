import AppUtil.Mq.Connection
import AppUtil.Lib.Run
import Mathlib.Data.List.AList

/-! # The manager (`MqMgr`)

Each operation is the body of the member of the same name, with what the environment does
(allocations, the library's answers) as an argument. A section that holds `m_wrLockMqContainer` is
one step; `SendMsg` has three of them. -/
namespace AppUtil.Mq
open AppUtil.Lib
set_option autoImplicit false

def dtkOk : ℤ := 0
def dtkError : ℤ := -1

/-- `std::map` with a text as its key. -/
abbrev StrMap (β : Type) := AList fun _ : Str => β

/-- `std::map::insert`: a key that is present keeps its value. -/
def StrMap.add {β : Type} (t : StrMap β) (k : Str) (v : β) : StrMap β :=
  if (t.lookup k).isSome then t else t.insert k v

/-- `MqMgr`. A value of `mapProcucer` may be NULL. `connDeletions` records, newest first, each
connection deleted and whether `mapConn` still held it. -/
structure MqMgr where
  mapConn : StrMap ℕ
  mapProcucer : StrMap (Option ℕ)
  mem : Mem
  connDeletions : List (ℕ × Bool)

namespace MqMgr

/-- The manager after its construction and `Init`, in a process where the library's `close()`
throws as given. -/
def init (closeThrows : ℕ → Bool) : MqMgr where
  mapConn := ∅
  mapProcucer := ∅
  mem := ⟨Heap.empty, Heap.empty, ⟨0, [], closeThrows⟩, [], []⟩
  connDeletions := []

/-- `delete` of a connection. -/
def deleteConn (s : MqMgr) (c : ℕ) : Except Fault MqMgr := do
  let conns ← s.mem.conns.free c
  let stored := s.mapConn.entries.any fun x => x.2 == c
  pure { s with
    mem := { s.mem with conns := conns }
    connDeletions := (c, stored) :: s.connDeletions }

/-- `MqMgr::HasProducer`. -/
def hasProducer (s : MqMgr) (strMqUri : Str) : Bool := (s.mapProcucer.lookup strMqUri).isSome

/-- `MqMgr::HasConsumer`. -/
def hasConsumer (s : MqMgr) (d : Dst) : Except Fault Bool :=
  match s.mapConn.lookup d.strMQSvr with
  | some c => s.mem.hasConsumer c d.strDstName d.nType
  | none => .ok false

/-- `MqMgr::AddConnection`; `none` is NULL. When `Conn` fails the pointer that is returned is that
of the connection just deleted. -/
def addConnection (s : MqMgr) (strMQSvr : Str) (env : Env) : Except Fault (Option ℕ × MqMgr) :=
  match s.mapConn.lookup strMQSvr with
  | some c => .ok (some c, s)
  | none =>
    if env.newConn = false then
      .ok (none, s)
    else do
      let c := s.mem.conns.next
      let m := { s.mem with conns := s.mem.conns.alloc MqConnection.new }
      let (bRet, m) ← m.conn c env.conn
      if bRet then
        pure (some c, { s with mem := m, mapConn := StrMap.add s.mapConn strMQSvr c })
      else
        let m ← m.disConn c
        let s ← { s with mem := m }.deleteConn c
        pure (some c, s)

/-- `MqMgr::AddProducer`. -/
def addProducer (s : MqMgr) (strUrl : Str) (env : Env) : Except Fault (ℤ × MqMgr) :=
  match parseMqUri strUrl with
  | none => .ok (dtkError, s)
  | some d =>
    if s.hasProducer strUrl then
      .ok (dtkOk, s)
    else do
      let (pConn, s) ← s.addConnection d.strMQSvr env
      match pConn with
      | none => pure (dtkError, s)
      | some c =>
        let (pPro, m) ← s.mem.addProducer c d.strDstName d.nType env
        let s := { s with mem := m }
        match pPro with
        | none => pure (dtkError, s)
        | some p => pure (dtkOk, { s with mapProcucer := StrMap.add s.mapProcucer strUrl (some p) })

/-- What `DelProducer` and `DelConsumer` do to the connection stored under a server: take the
endpoint out and, when the connection is empty then, take the connection down. -/
def delFromConn (s : MqMgr) (kind : EndKind) (d : Dst) : Except Fault MqMgr :=
  match s.mapConn.lookup d.strMQSvr with
  | none => .ok s
  | some c => do
    let (bEmptyConn, m) ← s.mem.delEnd c kind d.strDstName d.nType
    let s := { s with mem := m }
    if bEmptyConn then
      let m ← s.mem.disConn c
      let s ← { s with mem := m }.deleteConn c
      pure { s with mapConn := s.mapConn.erase d.strMQSvr }
    else
      pure s

/-- `MqMgr::DelProducer`. -/
def delProducer (s : MqMgr) (strUrl : Str) : Except Fault (ℤ × MqMgr) :=
  match parseMqUri strUrl with
  | none => .ok (dtkError, s)
  | some d => do
    let s ← s.delFromConn .producer d
    pure (dtkOk, { s with mapProcucer := s.mapProcucer.erase strUrl })

/-- A call of `MqProducer::SendMsg` through a pointer that may be NULL. -/
def sendOn (s : MqMgr) (pPro : Option ℕ) (strMsg : Str) (env : Env) : Except Fault (ℤ × MqMgr) :=
  match pPro with
  | none => .error .nullPointer
  | some p => do
    let (bRet, m) ← s.mem.sendMsg p strMsg env.send
    pure (if bRet then dtkOk else dtkError, { s with mem := m })

/-- The first section of `MqMgr::SendMsg`; `none` when the url is not cached. -/
def sendCached (s : MqMgr) (strUrl strMsg : Str) (env : Env) : Except Fault (Option ℤ × MqMgr) :=
  match s.mapProcucer.lookup strUrl with
  | none => .ok (none, s)
  | some pPro => do
    let (nRet, s) ← s.sendOn pPro strMsg env
    pure (some nRet, s)

/-- `m_mapProcucer[strUrl]`: a key that is missing is inserted with NULL. -/
def subscript (s : MqMgr) (strUrl : Str) : Option ℕ × MqMgr :=
  match s.mapProcucer.lookup strUrl with
  | some pPro => (pPro, s)
  | none => (none, { s with mapProcucer := s.mapProcucer.insert strUrl none })

/-- The last section of `MqMgr::SendMsg`. -/
def sendAgain (s : MqMgr) (strUrl strMsg : Str) (env : Env) : Except Fault (ℤ × MqMgr) :=
  let (pPro, s) := s.subscript strUrl
  s.sendOn pPro strMsg env

/-- `MqMgr::SendMsg`. -/
def sendMsg (s : MqMgr) (strUrl strMsg : Str) (env : Env) : Except Fault (ℤ × MqMgr) := do
  match ← s.sendCached strUrl strMsg env with
  | (some nRet, s) => pure (nRet, s)
  | (none, s) =>
    let (nRet, s) ← s.addProducer strUrl env
    if nRet ≠ dtkOk then pure (dtkError, s) else s.sendAgain strUrl strMsg env

/-- `MqMgr::AddConsumer`. -/
def addConsumer (s : MqMgr) (strUrl : Str) (pfnMsgCb : Option ℕ) (pUser : ℕ) (env : Env) :
    Except Fault (ℤ × MqMgr) :=
  if pfnMsgCb = none then
    .ok (dtkError, s)
  else
    match parseMqUri strUrl with
    | none => .ok (dtkError, s)
    | some d => do
      if ← s.hasConsumer d then
        pure (dtkOk, s)
      else
        let (pConn, s) ← s.addConnection d.strMQSvr env
        match pConn with
        | none => pure (dtkError, s)
        | some c =>
          let (pConsumer, m) ← s.mem.addConsumer c d.strDstName d.nType pfnMsgCb pUser env
          pure (if pConsumer.isSome then dtkOk else dtkError, { s with mem := m })

/-- `MqMgr::DelConsumer`. -/
def delConsumer (s : MqMgr) (strUrl : Str) : Except Fault (ℤ × MqMgr) :=
  match parseMqUri strUrl with
  | none => .ok (dtkError, s)
  | some d => do
    let s ← s.delFromConn .consumer d
    pure (dtkOk, s)

/-- The library calls `onException` on the connection stored under a server, if there is one. -/
def onException (s : MqMgr) (strMQSvr : Str) : Except Fault MqMgr :=
  match s.mapConn.lookup strMQSvr with
  | none => .ok s
  | some c => do
    let m ← s.mem.disConn c
    pure { s with mem := m }

/-- `MqMgr::Fini`. -/
def fini (s : MqMgr) : Except Fault MqMgr := do
  let s ← s.mapConn.entries.foldlM
    (fun s x => do
      let m ← s.mem.disConn x.2
      { s with mem := m }.deleteConn x.2) s
  pure { s with mapProcucer := ∅, mapConn := ∅ }

end MqMgr

/-! ## Runs -/

/-- One call of the manager, or one `onException`. -/
inductive Op where
  | addProducer (strUrl : Str) (env : Env)
  | delProducer (strUrl : Str)
  | sendMsg (strUrl strMsg : Str) (env : Env)
  | addConsumer (strUrl : Str) (pfnMsgCb : Option ℕ) (pUser : ℕ) (env : Env)
  | delConsumer (strUrl : Str)
  | onException (strMQSvr : Str)
  deriving DecidableEq, Repr

def MqMgr.exec (s : MqMgr) : Op → Except Fault MqMgr
  | .addProducer u env => (s.addProducer u env).map Prod.snd
  | .delProducer u => (s.delProducer u).map Prod.snd
  | .sendMsg u msg env => (s.sendMsg u msg env).map Prod.snd
  | .addConsumer u cb user env => (s.addConsumer u cb user env).map Prod.snd
  | .delConsumer u => (s.delConsumer u).map Prod.snd
  | .onException svr => s.onException svr

end AppUtil.Mq
