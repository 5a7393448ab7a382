import AppUtil.Mq.Uri
import AppUtil.Lib.Lifetime

/-! # The CMS library as the wrapper sees it

The library is not part of the repository. What is kept of it is the log of the calls made to it,
newest first, and the objects it handed out, numbered in order. Which `close()` calls throw is
fixed for each object (`closeThrows`): no object is closed twice. Destructors do not throw. -/
namespace AppUtil.Mq
open AppUtil.Lib
set_option autoImplicit false

/-- The two twin classes `MqProducer` and `MqConsumer`. -/
inductive EndKind where
  | producer
  | consumer
  deriving DecidableEq, Repr

/-- A call to the library. An object that the call returns is part of it. -/
inductive CmsCall where
  | createConnection (k : ℕ)
  | createSession (k s : ℕ)
  | createDestination (s d : ℕ) (nMode : MqMsgMode) (strName : Str)
  | createEndpoint (kind : EndKind) (s e d : ℕ)
  | startConnection (k : ℕ)
  | configureEndpoint (e : ℕ)
  | close (e : ℕ)
  | deleteDestination (d : ℕ)
  | deleteEndpoint (e : ℕ)
  | deleteSession (s : ℕ)
  | deleteConnection (k : ℕ)
  | createBytesMessage (s : ℕ) (strMsg : Str)
  | send (e : ℕ) (strMsg : Str)
  deriving DecidableEq, Repr

/-- The objects of the library: connections, sessions, and the children of a session, which are
the destinations, producers and consumers. -/
inductive CmsObj where
  | connection (k : ℕ)
  | session (s : ℕ)
  | child (x : ℕ)
  deriving DecidableEq, Repr

def CmsObj.id : CmsObj → ℕ
  | .connection k => k
  | .session s => s
  | .child x => x

/-- What a call means for the lifetimes of the library's objects. The wrapper forgets an object
whose `close()` throws, so that the call is the end of it. -/
def CmsCall.event (closeThrows : ℕ → Bool) : CmsCall → Lifetime.Event CmsObj
  | .createConnection k => .born (.connection k) none
  | .createSession k s => .born (.session s) (some (.connection k))
  | .createDestination s d _ _ => .born (.child d) (some (.session s))
  | .createEndpoint _ s e _ => .born (.child e) (some (.session s))
  | .startConnection k => .used (.connection k)
  | .configureEndpoint e => .used (.child e)
  | .close e => if closeThrows e then .died (.child e) else .used (.child e)
  | .deleteDestination d => .died (.child d)
  | .deleteEndpoint e => .died (.child e)
  | .deleteSession s => .died (.session s)
  | .deleteConnection k => .died (.connection k)
  | .createBytesMessage s _ => .used (.session s)
  | .send e _ => .used (.child e)

structure Cms where
  next : ℕ
  log : List CmsCall
  closeThrows : ℕ → Bool

namespace Cms

def call (m : Cms) (k : CmsCall) : Cms := { m with log := k :: m.log }

/-- A call that returns a new object. -/
def create (m : Cms) (k : ℕ → CmsCall) : Cms :=
  { m with next := m.next + 1, log := k m.next :: m.log }

/-- The lifetimes recorded in the log. -/
def events (m : Cms) : List (Lifetime.Event CmsObj) := m.log.map (CmsCall.event m.closeThrows)

@[simp] theorem call_next (m : Cms) (k : CmsCall) : (m.call k).next = m.next := rfl
@[simp] theorem call_closeThrows (m : Cms) (k : CmsCall) :
    (m.call k).closeThrows = m.closeThrows := rfl
@[simp] theorem create_next (m : Cms) (k : ℕ → CmsCall) : (m.create k).next = m.next + 1 := rfl
@[simp] theorem call_events (m : Cms) (k : CmsCall) : (m.call k).events = k.event m.closeThrows :: m.events := rfl

end Cms

/-- First half of `ReleaseDst`: delete the destination. -/
def releaseDestination (m : Cms) : Option ℕ → Cms
  | none => m
  | some d => m.call (.deleteDestination d)

/-- Second half of `ReleaseDst`: close the CMS producer or consumer and, unless `close()` throws,
delete it. -/
def releaseCp (m : Cms) : Option ℕ → Cms
  | none => m
  | some e =>
    let m := m.call (.close e)
    if m.closeThrows e then m else m.call (.deleteEndpoint e)

/-- `ReleaseDst`. Both pointers are NULL afterwards, whatever threw. -/
def releaseDst (m : Cms) (pdst pCp : Option ℕ) : Cms := releaseCp (releaseDestination m pdst) pCp

@[simp] theorem releaseDestination_closeThrows (m : Cms) (d : Option ℕ) :
    (releaseDestination m d).closeThrows = m.closeThrows := by
  cases d <;> rfl

@[simp] theorem releaseCp_closeThrows (m : Cms) (e : Option ℕ) :
    (releaseCp m e).closeThrows = m.closeThrows := by
  cases e with
  | none => rfl
  | some e => by_cases h : m.closeThrows e <;> simp [releaseCp, h]

@[simp] theorem releaseDst_closeThrows (m : Cms) (d e : Option ℕ) :
    (releaseDst m d e).closeThrows = m.closeThrows := by
  simp [releaseDst]

/-! ## What the library answers -/

/-- How `MqConnection::Conn` ends: everything succeeds, or it throws before there is a connection,
between the connection and the session, or in `createSession`. -/
inductive ConnOutcome where
  | connected
  | factoryThrows
  | startThrows
  | sessionThrows
  deriving DecidableEq, Repr

/-- Which call inside `Create` throws, if any: `createQueue`/`createTopic`, `createProducer`/
`createConsumer`, or the one after it. -/
inductive CreateOutcome where
  | created
  | dstThrows
  | cpThrows
  | configureThrows
  deriving DecidableEq, Repr

/-- Which call inside `MqProducer::SendMsg` throws, if any. -/
inductive SendOutcome where
  | sent
  | msgThrows
  | sendThrows
  deriving DecidableEq, Repr

/-- What the environment of one call of the manager does: the results of `new` for a connection
and for an endpoint, and of the library's calls. -/
structure Env where
  newConn : Bool
  conn : ConnOutcome
  newEnd : Bool
  create : CreateOutcome
  send : SendOutcome
  deriving DecidableEq, Repr

/-- Everything succeeds. -/
def Env.ok : Env := ⟨true, .connected, true, .created, .sent⟩

end AppUtil.Mq
