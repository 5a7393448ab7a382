import AppUtil.Lib.Text

/-! # The MQ url (`MqMgr::ParseMqUri`)

A url names a server, a mode and a destination: `mq/127.0.0.1:61618/queue/acs.event.queue`.
Positions are natural numbers and `none` is `npos`: on the 32-bit target `int` and `size_t` hold
the same 32 bits, so the conversions between them lose nothing and `-1` is `npos` alone. -/
namespace AppUtil.Mq
open AppUtil.Lib
set_option autoImplicit false

/-- `std::string`. -/
abbrev Str := List Char

/-- `enum MqMsgMode`. -/
inductive MqMsgMode where
  | mqModeTopic
  | mqModeQueue
  deriving DecidableEq, Repr

/-- What a url denotes: the server, the destination name and the mode. -/
structure Dst where
  strMQSvr : Str
  strDstName : Str
  nType : MqMsgMode
  deriving DecidableEq, Repr

def mqPrefix : Str := ['m', 'q', '/']
def queueText : Str := ['q', 'u', 'e', 'u', 'e']
def topicText : Str := ['t', 'o', 'p', 'i', 'c']

/-- `MqMgr::ParseMqUri`; `none` is the result `false`. -/
def parseMqUri (strMqUri : Str) : Option Dst := do
  let nIndex ← Text.find strMqUri mqPrefix 0
  let nCurr := nIndex + 3
  let nIndex ← Text.find strMqUri ['/'] nCurr
  let strMQSvr := Text.substr strMqUri nCurr (nIndex - nCurr)
  let nCurr := nIndex + 1
  let nIndex ← Text.find strMqUri ['/'] nCurr
  let strType := Text.substr strMqUri nCurr (nIndex - nCurr)
  let nType ←
    if strType = queueText then some MqMsgMode.mqModeQueue
    else if strType = topicText then some MqMsgMode.mqModeTopic
    else none
  let nCurr := nIndex + 1
  let strDstName := strMqUri.drop nCurr
  if strDstName = [] then none else some ⟨strMQSvr, strDstName, nType⟩

/-! ## Canonical urls -/

def modeText : MqMsgMode → Str
  | .mqModeQueue => queueText
  | .mqModeTopic => topicText

/-- The url `mq/S/queue/D` or `mq/S/topic/D`. -/
def urlOf (d : Dst) : Str :=
  mqPrefix ++ d.strMQSvr ++ '/' :: modeText d.nType ++ '/' :: d.strDstName

/-- A destination that a canonical url can name: no `/` in the server, a name that is not empty. -/
def Dst.Proper (d : Dst) : Prop := '/' ∉ d.strMQSvr ∧ d.strDstName ≠ []

/-- `u` is a canonical url. -/
def Canonical (u : Str) : Prop := ∃ d : Dst, d.Proper ∧ u = urlOf d

theorem slash_notMem_modeText (m : MqMsgMode) : '/' ∉ modeText m := by
  cases m <;> decide

/-- `u` is `P mq/ S / T / D` for the server, the mode and the name of `d`, with nothing before the
first `mq/` that could be taken for it. -/
def Spells (u : Str) (d : Dst) : Prop :=
  ∃ P, u = P ++ urlOf d ∧ Text.FirstAt mqPrefix u P.length

theorem parseMqUri_of_spells {u : Str} {d : Dst} (hd : d.Proper) (hu : Spells u d) :
    parseMqUri u = some d := by
  obtain ⟨svr, name, mode⟩ := d
  obtain ⟨hsvr, hname⟩ := hd
  obtain ⟨P, hu, hfirst⟩ := hu
  dsimp only at hsvr hname
  have e1 : u = (P ++ mqPrefix) ++ (svr ++ '/' :: (modeText mode ++ '/' :: name)) := by
    simp [hu, urlOf]
  have e2 : u = (P ++ mqPrefix ++ svr ++ ['/']) ++ (modeText mode ++ '/' :: name) := by
    simp [hu, urlOf]
  have l1 : (P ++ mqPrefix).length = P.length + 3 := by simp [mqPrefix]
  have l2 : (P ++ mqPrefix ++ svr ++ ['/']).length = P.length + 3 + svr.length + 1 := by
    simp [mqPrefix]; omega
  have f0 : Text.find u mqPrefix 0 = some P.length := by
    rw [Text.find_zero, Text.search_eq_some]
    exact hfirst
  have f1 : Text.find u ['/'] (P.length + 3) = some (P.length + 3 + svr.length) := by
    have h := Text.find_of_split e1 (Text.search_symbol hsvr _)
    rwa [l1] at h
  have f2 : Text.find u ['/'] (P.length + 3 + svr.length + 1) =
      some (P.length + 3 + svr.length + 1 + (modeText mode).length) := by
    have h := Text.find_of_split e2 (Text.search_symbol (slash_notMem_modeText mode) _)
    rwa [l2] at h
  have s1 : Text.substr u (P.length + 3) (P.length + 3 + svr.length - (P.length + 3)) = svr := by
    have h := Text.substr_of_split (P ++ mqPrefix) svr _ (e1.trans (List.append_assoc ..).symm)
    rw [l1] at h
    rwa [Nat.add_sub_cancel_left]
  have s2 : Text.substr u (P.length + 3 + svr.length + 1)
      (P.length + 3 + svr.length + 1 + (modeText mode).length -
        (P.length + 3 + svr.length + 1)) = modeText mode := by
    have h := Text.substr_of_split (P ++ mqPrefix ++ svr ++ ['/']) (modeText mode) _
      (e2.trans (List.append_assoc ..).symm)
    rw [l2] at h
    rwa [Nat.add_sub_cancel_left]
  have hdrop : u.drop (P.length + 3 + svr.length + 1 + (modeText mode).length + 1) = name := by
    have e3 : u = (P ++ mqPrefix ++ svr ++ ['/'] ++ modeText mode ++ ['/']) ++ name := by
      simp [hu, urlOf]
    have l3 : (P ++ mqPrefix ++ svr ++ ['/'] ++ modeText mode ++ ['/']).length =
        P.length + 3 + svr.length + 1 + (modeText mode).length + 1 := by
      simp [mqPrefix]; omega
    rw [e3, ← l3, List.drop_left]
  unfold parseMqUri
  simp only [f0, f1, s1, f2, s2, hdrop, Option.bind_eq_bind, Option.bind_some, hname, if_false]
  cases mode <;> rfl

theorem parseMqUri_urlOf {d : Dst} (hd : d.Proper) : parseMqUri (urlOf d) = some d := by
  refine parseMqUri_of_spells hd ⟨[], rfl, Text.firstAt_zero.mpr ?_⟩
  simp only [urlOf, List.append_assoc]
  exact List.prefix_append mqPrefix _

theorem urlOf_inj {d d' : Dst} (hd : d.Proper) (hd' : d'.Proper) (h : urlOf d = urlOf d') :
    d = d' := by
  have h1 := parseMqUri_urlOf hd
  rw [h, parseMqUri_urlOf hd'] at h1
  exact (Option.some.inj h1).symm

/-! ## The grammar -/

/-- The end of the parser: the text of the mode is known, and then the name is not empty. -/
theorem type_and_name {strType strDstName svr : Str} {d : Dst}
    (h : (if strType = queueText then
        (some MqMsgMode.mqModeQueue).bind fun nType =>
          if strDstName = [] then none else some (Dst.mk svr strDstName nType)
      else if strType = topicText then
        (some MqMsgMode.mqModeTopic).bind fun nType =>
          if strDstName = [] then none else some (Dst.mk svr strDstName nType)
      else none) = some d) :
    strType = modeText d.nType ∧ strDstName ≠ [] ∧ d = ⟨svr, strDstName, d.nType⟩ := by
  have hname : strDstName ≠ [] := by
    rintro rfl
    simp at h
  simp only [hname, if_false, Option.bind_some] at h
  split at h
  · next hq =>
    cases h
    exact ⟨hq, hname, rfl⟩
  · split at h
    · next ht =>
      cases h
      exact ⟨ht, hname, rfl⟩
    · cases h

theorem spells_of_parseMqUri {u : Str} {d : Dst} (h : parseMqUri u = some d) :
    d.Proper ∧ Spells u d := by
  simp only [parseMqUri, Option.bind_eq_bind, Option.bind_eq_some_iff] at h
  obtain ⟨i, f0, j, f1, k, f2, h⟩ := h
  have hfirst : Text.FirstAt mqPrefix u i := by
    rwa [Text.find_zero, Text.search_eq_some] at f0
  obtain ⟨P, r, e1, hi⟩ := hfirst.split (List.cons_ne_nil _ _)
  have l1 : (P ++ mqPrefix).length = i + 3 := by simp [hi, mqPrefix]
  rw [← l1] at f1
  obtain ⟨svr, r₁, rfl, hsvr, hj⟩ := Text.split_of_find e1 f1
  have e2 : u = (P ++ mqPrefix ++ svr ++ ['/']) ++ r₁ := by
    simpa [List.append_assoc] using e1
  have l2 : (P ++ mqPrefix ++ svr ++ ['/']).length = j + 1 := by
    rw [hj]; simp; omega
  rw [← l2] at f2
  obtain ⟨typ, name, rfl, -, hk⟩ := Text.split_of_find e2 f2
  have s1 : Text.substr u (i + 3) (j - (i + 3)) = svr := by
    have h := Text.substr_of_split (P ++ mqPrefix) svr _ (e1.trans (List.append_assoc ..).symm)
    rwa [hj, l1, Nat.add_sub_cancel_left, ← l1]
  have s2 : Text.substr u (j + 1) (k - (j + 1)) = typ := by
    have h := Text.substr_of_split (P ++ mqPrefix ++ svr ++ ['/']) typ _
      (e2.trans (List.append_assoc ..).symm)
    rwa [hk, l2, Nat.add_sub_cancel_left, ← l2]
  have hdrop : u.drop (k + 1) = name := by
    have e3 : u = (P ++ mqPrefix ++ svr ++ ['/'] ++ typ ++ ['/']) ++ name := by
      simpa [List.append_assoc] using e2
    have l3 : (P ++ mqPrefix ++ svr ++ ['/'] ++ typ ++ ['/']).length = k + 1 := by
      rw [hk]; simp; omega
    rw [e3, ← l3, List.drop_left]
  rw [s1, s2, hdrop] at h
  obtain ⟨htyp, hname, hd⟩ := type_and_name h
  rw [hd]
  refine ⟨⟨hsvr, hname⟩, P, ?_, by rwa [hi]⟩
  rw [htyp] at e1
  simpa [urlOf, List.append_assoc] using e1

/-- **The accepted language.** -/
theorem parseMqUri_iff {u : Str} {d : Dst} : parseMqUri u = some d ↔ d.Proper ∧ Spells u d :=
  ⟨spells_of_parseMqUri, fun h => parseMqUri_of_spells h.1 h.2⟩

theorem urlOf_of_begins {u : Str} {d : Dst} (hu : mqPrefix <+: u) (h : parseMqUri u = some d) :
    u = urlOf d := by
  obtain ⟨-, P, he, hfirst⟩ := spells_of_parseMqUri h
  cases P with
  | nil => exact he
  | cons c P => exact absurd hu (hfirst.2 0 (Nat.succ_pos _))

/-- **`ParseMqUri` accepts exactly its grammar**, gives back what a url was formatted from, and
tells the urls apart that start with `mq/`. -/
theorem parseMqUri_grammar :
    (∀ (u S D : Str) (mode : MqMsgMode), parseMqUri u = some ⟨S, D, mode⟩ ↔
      ∃ P T, u = P ++ mqPrefix ++ S ++ ['/'] ++ T ++ ['/'] ++ D ∧
        Text.FirstAt mqPrefix u P.length ∧ '/' ∉ S ∧
        (T = queueText ∧ mode = .mqModeQueue ∨ T = topicText ∧ mode = .mqModeTopic) ∧ D ≠ []) ∧
    (∀ (S D : Str) (mode : MqMsgMode), '/' ∉ S → D ≠ [] →
      parseMqUri (mqPrefix ++ S ++ ['/'] ++ modeText mode ++ ['/'] ++ D) = some ⟨S, D, mode⟩) ∧
    ∀ (u u' : Str) (d : Dst), mqPrefix <+: u → mqPrefix <+: u' → parseMqUri u = some d →
      parseMqUri u' = some d → u = u' := by
  refine ⟨fun u S D mode => ?_, fun S D mode hS hD => ?_, fun u u' d hu hu' h h' => ?_⟩
  · rw [parseMqUri_iff]
    constructor
    · rintro ⟨⟨hS, hD⟩, P, hu, hfirst⟩
      refine ⟨P, modeText mode, by simp [hu, urlOf], hfirst, hS, ?_, hD⟩
      cases mode
      · exact Or.inr ⟨rfl, rfl⟩
      · exact Or.inl ⟨rfl, rfl⟩
    · rintro ⟨P, T, hu, hfirst, hS, hT, hD⟩
      refine ⟨⟨hS, hD⟩, P, ?_, hfirst⟩
      obtain ⟨rfl, rfl⟩ | ⟨rfl, rfl⟩ := hT <;> simp [hu, urlOf, modeText]
  · have h := parseMqUri_urlOf (d := ⟨S, D, mode⟩) ⟨hS, hD⟩
    simpa [urlOf] using h
  · exact (urlOf_of_begins hu h).trans (urlOf_of_begins hu' h').symm

end AppUtil.Mq
