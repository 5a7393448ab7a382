import Mathlib.Data.Int.Notation
import Mathlib.Data.List.Basic
import Mathlib.Tactic.Common

/-! # The web service (`CWsService`)

`Start` begins a thread `SubRecvThread` each time, `Stop` only sets `m_bExit`, and nobody waits for a
thread. A thread owns a service object; its calls of that object are kept in order. One step of a
thread is what it does up to its next look at the service or its next call, and the calls answer as they
like. -/
namespace AppUtil.Ws
set_option autoImplicit false

/-- A call of a `testServiceService` object, with its answer. -/
inductive SoapCall where
  | new
  | bind (iPort : ℤ) (valid : Bool)
  | accept (valid : Bool)
  | serve
  | delete
  deriving DecidableEq, Repr

/-- The `return` statements of `SubRecvThread`. -/
inductive Leave where
  | noMemory
  | asleep
  | atEnd
  deriving DecidableEq, Repr

/-- Where a thread is. -/
inductive Place where
  | entry
  | test
  | binding
  | sleeping (i : ℕ)
  | woken (i : ℕ)
  | accepting
  | serving
  | deleting
  | returned (l : Leave)
  deriving DecidableEq, Repr

structure SubRecvThread where
  place : Place
  bBind : Bool
  calls : List SoapCall
  deriving DecidableEq, Repr

structure CWsService where
  iPort : ℤ
  bExit : Bool
  threads : List SubRecvThread
  deriving DecidableEq, Repr

namespace SubRecvThread

def begun : SubRecvThread := ⟨.entry, false, []⟩

/-- The object is called and the thread goes on at `p`. -/
def say (t : SubRecvThread) (c : SoapCall) (p : Place) : SubRecvThread :=
  { t with place := p, calls := t.calls ++ [c] }

/-- The next step of the thread; `answer` is whether its call succeeds. -/
def next (iPort : ℤ) (bExit answer : Bool) (t : SubRecvThread) : SubRecvThread :=
  match t.place with
  | .entry => if answer then t.say .new .test else { t with place := .returned .noMemory }
  | .test =>
    if bExit then { t with place := .deleting }
    else if t.bBind then { t with place := .accepting }
    else { t with place := .binding }
  | .binding =>
    if answer then { t.say (.bind iPort true) .accepting with bBind := true }
    else t.say (.bind iPort false) (.sleeping 0)
  | .sleeping i => { t with place := .woken i }
  | .woken i =>
    if bExit then { t with place := .returned .asleep }
    else if i + 1 < 30 then { t with place := .sleeping (i + 1) }
    else { t with place := .test }
  | .accepting => if answer then t.say (.accept true) .serving else t.say (.accept false) .test
  | .serving => t.say .serve .test
  | .deleting => t.say .delete (.returned .atEnd)
  | .returned _ => t

end SubRecvThread

/-! ## Runs -/

inductive WsAct where
  | start (iPort : ℤ) (created : Bool)
  | stop
  | step (k : ℕ) (answer : Bool)
  deriving DecidableEq, Repr

namespace CWsService

/-- The constructor. -/
def created : CWsService := ⟨9999, false, []⟩

/-- `Start`; it returns `DTK_OK` exactly when the thread was created. -/
def start (s : CWsService) (iPort : ℤ) (created : Bool) : CWsService :=
  { s with
    iPort := if iPort > 0 then iPort else s.iPort
    threads := if created then s.threads ++ [.begun] else s.threads }

/-- `Stop`. -/
def stop (s : CWsService) : CWsService := { s with bExit := true }

def act (s : CWsService) : WsAct → CWsService
  | .start iPort created => s.start iPort created
  | .stop => s.stop
  | .step k answer => { s with threads := s.threads.modify k (SubRecvThread.next s.iPort s.bExit answer) }

def run (s : CWsService) (acts : List WsAct) : CWsService := acts.foldl act s

end CWsService

/-! ## What a thread says to its object -/

/-- Bindings that have failed. -/
def Retries (l : List SoapCall) : Prop := ∀ c ∈ l, ∃ p, c = .bind p false

/-- A client is served once after each `accept` that brought one, and never otherwise. -/
inductive Rounds : List SoapCall → Prop
  | none : Rounds []
  | refused {l : List SoapCall} (h : Rounds l) : Rounds (l ++ [.accept false])
  | served {l : List SoapCall} (h : Rounds l) : Rounds (l ++ [.accept true, .serve])

/-- The calls up to the test of the loop: there is one binding that succeeds, and no `accept` before. -/
def Spoken : Bool → List SoapCall → Prop
  | false, l => ∃ r, Retries r ∧ l = .new :: r
  | true, l => ∃ r p a, Retries r ∧ Rounds a ∧ l = .new :: (r ++ .bind p true :: a)

/-- The calls of a thread at its place. -/
def SubRecvThread.Keeps (t : SubRecvThread) : Prop :=
  match t.place with
  | .entry => t.bBind = false ∧ t.calls = []
  | .test | .deleting => Spoken t.bBind t.calls
  | .binding | .sleeping _ | .woken _ | .returned .asleep => t.bBind = false ∧ Spoken false t.calls
  | .accepting => t.bBind = true ∧ Spoken true t.calls
  | .serving => t.bBind = true ∧ ∃ l, Spoken true l ∧ t.calls = l ++ [.accept true]
  | .returned .noMemory => t.calls = []
  | .returned .atEnd => ∃ l, Spoken t.bBind l ∧ t.calls = l ++ [.delete]

theorem Spoken.new : Spoken false [.new] := ⟨[], fun _ h => (by cases h), rfl⟩

theorem Spoken.retry {l : List SoapCall} (h : Spoken false l) (p : ℤ) :
    Spoken false (l ++ [.bind p false]) := by
  obtain ⟨r, hr, rfl⟩ := h
  refine ⟨r ++ [.bind p false], fun c hc => ?_, rfl⟩
  rcases List.mem_append.mp hc with hc | hc
  · exact hr c hc
  · exact ⟨p, List.mem_singleton.mp hc⟩

theorem Spoken.bound {l : List SoapCall} (h : Spoken false l) (p : ℤ) :
    Spoken true (l ++ [.bind p true]) := by
  obtain ⟨r, hr, rfl⟩ := h
  exact ⟨r, p, [], hr, .none, rfl⟩

theorem Spoken.round {l a : List SoapCall} (h : Spoken true l)
    (ha : ∀ {b : List SoapCall}, Rounds b → Rounds (b ++ a)) : Spoken true (l ++ a) := by
  obtain ⟨r, p, b, hr, hb, rfl⟩ := h
  refine ⟨r, p, b ++ a, hr, ha hb, ?_⟩
  rw [List.cons_append, List.append_assoc, List.cons_append]

theorem SubRecvThread.Keeps.next {t : SubRecvThread} (h : t.Keeps) (iPort : ℤ) (bExit answer : Bool) :
    (t.next iPort bExit answer).Keeps := by
  obtain ⟨place, bBind, calls⟩ := t
  cases place with
  | entry =>
    obtain ⟨rfl, rfl⟩ := h
    cases answer with
    | true => exact Spoken.new
    | false => exact rfl
  | test =>
    cases bExit with
    | true => exact h
    | false =>
      cases bBind with
      | true => exact ⟨rfl, h⟩
      | false => exact ⟨rfl, h⟩
  | binding =>
    obtain ⟨rfl, hs⟩ := h
    cases answer with
    | true => exact ⟨rfl, hs.bound iPort⟩
    | false => exact ⟨rfl, hs.retry iPort⟩
  | sleeping i => exact h
  | woken i =>
    obtain ⟨rfl, hs⟩ := h
    cases bExit with
    | true => exact ⟨rfl, hs⟩
    | false =>
      by_cases hi : i + 1 < 30
      · simp only [SubRecvThread.next, if_pos hi, Keeps]
        exact ⟨rfl, hs⟩
      · simp only [SubRecvThread.next, if_neg hi, Keeps]
        exact hs
  | accepting =>
    obtain ⟨rfl, hs⟩ := h
    cases answer with
    | true => exact ⟨rfl, calls, hs, rfl⟩
    | false => exact hs.round .refused
  | serving =>
    obtain ⟨rfl, l, hs, rfl⟩ := h
    have hround : Spoken true (l ++ [.accept true, .serve]) := hs.round .served
    simp only [SubRecvThread.next, say, Keeps, List.append_assoc]
    exact hround
  | deleting => exact ⟨calls, h, rfl⟩
  | returned l => exact h

end AppUtil.Ws
