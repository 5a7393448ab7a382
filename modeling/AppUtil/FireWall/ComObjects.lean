import AppUtil.FireWall.Com

/-! # What the members hold and give back

Whichever calls fail, a member releases at its end exactly the interfaces and `BSTR`s it has obtained,
and between two calls the manager holds its profile and the apartment, or nothing. -/
namespace AppUtil.FireWall
open AppUtil.Lib AppUtil.Lib.Attempt AppUtil.Lib.Lifetime
set_option autoImplicit false

namespace ComMgr

/-! ## The steps -/

/-- Between two calls the profile and the apartment are there or are not there together. -/
def Between (m : ComMgr) : Prop := m.fireWallProfile = none ↔ m.apartment = none

def Ready (m : ComMgr) : Prop := m.fireWallProfile ≠ none ∧ m.apartment ≠ none

/-- The locals `S` hold an object each, in a manager that is initialised. -/
def Holds (S : List ComLocal) : ComScope → Prop := Scope.Holding base kin Ready S

/-- All that is held is in the locals `ls`. -/
def Tidy (ls : List ComLocal) (s : ComScope) : Prop := ∃ S ⊆ ls, Scope.Holding base kin Between S s

/-- The same of a manager that is initialised. -/
def Held (ls : List ComLocal) (s : ComScope) : Prop := ∃ S ⊆ ls, Holds S s

/-- Nothing is held in locals. -/
def Idle : ComScope → Prop := Scope.Holding base kin Between []

variable {S ls : List ComLocal} {l : ComLocal} {m : ComMgr} {s : ComScope}

theorem Ready.between (h : Ready m) : Between m := iff_of_false h.1 h.2

theorem Holds.tidy (hS : S ⊆ ls) (h : Holds S s) : Tidy ls s := ⟨S, hS, h.1, h.2.between⟩

theorem Idle.tidy (h : Idle s) : Tidy ls s := ⟨[], List.nil_subset ls, h⟩

theorem Holds.held (hS : S ⊆ ls) (h : Holds S s) : Held ls s := ⟨S, hS, h⟩

theorem Tidy.idle (h : Tidy [] s) : Idle s := by
  obtain ⟨S, hS, hs⟩ := h
  obtain rfl := List.subset_nil.mp hS
  exact hs

theorem Holds.idle (h : Holds [] s) : Idle s := ⟨h.1, h.2.between⟩

theorem base_ready (h : Ready m) : base m = [(m.fireWallProfile, some m.apartment), (m.apartment, none)] := by
  rw [base, if_neg h.1, if_neg h.2]
  rfl

theorem kin_rooted (h : Ready m) (l : ComLocal) (q : Ptr) (hq : kin l m = some q) :
    q ∈ (base m).map Prod.fst := by
  have hap : m.apartment ∈ (base m).map Prod.fst := by simp [base_ready h]
  cases l <;> simp only [kin, reduceCtorEq, Option.some.injEq] at hq <;> exact hq ▸ hap

theorem haveProfile_ends : Ends Idle haveProfile (fun _ => Holds []) (Tidy ls) := by
  refine .require (fun s hs hp => ⟨hs.1, ?_⟩) fun s hs _ => hs.tidy
  have hset : s.world.fireWallProfile ≠ none := Option.isSome_iff_ne_none.mp hp
  exact ⟨hset, fun hap => hset (hs.2.mpr hap)⟩

theorem useProfile_ends {E : ComScope → Prop} :
    Ends (Holds S) useProfile (fun _ => Holds S) E := by
  refine Scope.touch_ends fun s hs => ?_
  rw [List.map_append, base_ready hs.2]
  exact List.mem_append_right _ (List.mem_cons_self ..)

theorem use_ends (hl : l ∈ S) {E : ComScope → Prop} : Ends (Holds S) (use l) (fun _ => Holds S) E :=
  Scope.touch_local_ends hl

theorem ends_tidy {α : Type} {p : Com α} {Q : α → ComScope → Prop} (hS : S ⊆ ls)
    (hp : Ends (Holds S) p Q (Holds S)) : Ends (Holds S) p Q (Tidy ls) :=
  hp.mono (fun _ h => h) (fun _ _ h => h) fun _ h => h.tidy hS

theorem acquire_ends {α : Type} {f : ComMgr → Option α} (hl : l ∉ S) (hS : S ⊆ ls) :
    Ends (Holds S) (Scope.acquire kin l f) (fun _ => Holds (l :: S)) (Tidy ls) :=
  ends_tidy hS (Scope.acquire_ends hl fun _ hm => kin_rooted hm l)

/-- A failure that is not the end. -/
theorem handledAcquire_ends {α : Type} {f : ComMgr → Option α} (hl : l ∉ S) {E : ComScope → Prop} :
    Ends (Holds S) (handled (Scope.acquire kin l f)) (fun r => Holds (if r.isSome then l :: S else S)) E := by
  refine .handled ?_
  exact Scope.acquire_ends hl fun _ hm => kin_rooted hm l

theorem get_ends (hl : l ∉ S) (hS : S ⊆ ls) :
    Ends (Holds S) (get l) (fun _ => Holds (l :: S)) (Tidy ls) :=
  acquire_ends hl hS

theorem ask_ends {α : Type} {f : FireWallMgr → Option α} (hS : S ⊆ ls) :
    Ends (Holds S) (ask f) (fun _ => Holds S) (Tidy ls) := by
  refine ends_tidy hS (Scope.act_ends fun w a w' hw hx => ?_)
  obtain ⟨b, -, heq⟩ := Option.map_eq_some_iff.mp hx
  cases heq
  exact ⟨rfl, fun _ => rfl, hw⟩

theorem comCall_ends (hS : S ⊆ ls) : Ends (Holds S) comCall (fun _ => Holds S) (Tidy ls) := by
  refine ends_tidy hS (Scope.act_ends fun w a w' hw hx => ?_)
  cases hx
  exact ⟨rfl, fun _ => rfl, hw⟩

theorem tell_ends {f : FireWallMgr → FireWallMgr} (hS : S ⊆ ls) :
    Ends (Holds S) (tell f) (fun _ => Holds S) (Tidy ls) := by
  refine ends_tidy hS (Scope.act_ends fun w a w' hw hx => ?_)
  cases hx
  exact ⟨rfl, fun l => by cases l <;> rfl, hw⟩

/-- A `BSTR` of length 0 is an object too. -/
theorem sysAllocString_ends {t : Option WStr} (hl : l ∉ S) (hS : l :: S ⊆ ls) :
    Ends (Holds S) (sysAllocString l t) (fun _ => Holds (l :: S)) (Tidy ls) := by
  refine .bind (acquire_ends hl (List.Subset.trans (List.subset_cons_self l S) hS)) fun bstr =>
    .bind (use_ends (List.mem_cons_self ..)) fun _ => ?_
  by_cases hb : bstr = []
  · rw [if_pos hb]
    exact .giveUp fun _ h => h.tidy hS
  · rw [if_neg hb]
    exact .pure fun _ h => h

theorem inScope_ends {α : Type} {p : Com α}
    (hp : Ends Idle p (fun _ => Held ls) (Tidy ls)) : Ends Idle (Scope.inScope ls p) (fun _ => Holds []) Idle :=
  Scope.inScope_ends (D := fun _ => Ready) hp

/-- The last step of a body. -/
theorem ends_held {α : Type} {p : Com α} (hS : S ⊆ ls) (hp : Ends (Holds S) p (fun _ => Holds S) (Tidy ls)) :
    Ends (Holds S) p (fun _ => Held ls) (Tidy ls) :=
  hp.mono (fun _ h => h) (fun _ _ h => h.held hS) fun _ h => h

/-! ## The queries -/

theorem isFirewallOn_ends : Ends Idle isFirewallOn (fun _ => Holds []) Idle := by
  have hprofile : Ends Idle haveProfile (fun _ => Holds []) (Tidy []) := haveProfile_ends
  refine Ends.mono (.bind hprofile fun _ => .bind useProfile_ends fun _ =>
    ask_ends (List.nil_subset _)) (fun _ h => h) (fun _ _ h => h) fun _ h => h.idle

theorem isAppEnabled_ends (file : Option WStr) : Ends Idle (isAppEnabled file) (fun _ => Holds []) Idle := by
  unfold isAppEnabled
  by_cases hf : file = none
  · rw [if_pos hf]
    exact .giveUp fun _ h => h
  · rw [if_neg hf]
    refine inScope_ends (.bind haveProfile_ends fun _ => .bind useProfile_ends fun _ =>
      .bind (get_ends (by simp) (by simp)) fun _ => .bind (sysAllocString_ends (by simp) (by simp)) fun bstr =>
      .bind (use_ends (by simp)) fun _ => .bind (use_ends (by simp)) fun _ =>
      .bind (handledAcquire_ends (by simp)) fun r => ?_)
    cases r with
    | none => exact .pure fun s h => Holds.held (by simp) h
    | some e =>
      refine .bind (use_ends (by simp)) fun _ => ?_
      exact ends_held (by simp) (ask_ends (by simp))

theorem isPortEnabled_ends (port : ℤ) (ipProtocol : IpProtocol) :
    Ends Idle (isPortEnabled port ipProtocol) (fun _ => Holds []) Idle := by
  refine inScope_ends (.bind haveProfile_ends fun _ => .bind useProfile_ends fun _ =>
    .bind (get_ends (by simp) (by simp)) fun _ => .bind (use_ends (by simp)) fun _ =>
    .bind (acquire_ends (by simp) (by simp)) fun e => .bind (use_ends (by simp)) fun _ => ?_)
  exact ends_held (by simp) (ask_ends (by simp))

/-- A query from a body that holds nothing yet. -/
theorem query_ends {p : Com Bool} (hp : Ends Idle p (fun _ => Holds []) Idle) :
    Ends (Holds []) p (fun _ => Holds []) (Tidy ls) :=
  hp.mono (fun _ h => h.idle) (fun _ _ h => h) fun _ h => h.tidy

/-! ## The members that change the profile -/

theorem putFirewallEnabled_ends {c on : Bool} :
    Ends (Holds []) (if c = false then do useProfile; tell (FireWallMgr.putFirewallEnabled on) else pure ())
      (fun _ => Holds []) (Tidy []) := by
  by_cases hc : c = false
  · rw [if_pos hc]
    exact .bind useProfile_ends fun _ => tell_ends (List.nil_subset _)
  · rw [if_neg hc]
    exact .pure fun _ h => h

theorem turnOnFirewall_ends : Ends Idle turnOnFirewall (fun _ => Holds []) Idle :=
  Ends.mono (.bind haveProfile_ends fun _ => .bind (query_ends isFirewallOn_ends) fun _ =>
    putFirewallEnabled_ends) (fun _ h => h) (fun _ _ h => h) fun _ h => h.idle

theorem turnOffFirewall_ends : Ends Idle turnOffFirewall (fun _ => Holds []) Idle :=
  Ends.mono (.bind haveProfile_ends fun _ => .bind (query_ends isFirewallOn_ends) fun _ =>
    putFirewallEnabled_ends) (fun _ h => h) (fun _ _ h => h) fun _ h => h.idle

theorem addApplication_ends (file reg : Option WStr) :
    Ends Idle (addApplication file reg) (fun _ => Holds []) Idle := by
  unfold addApplication
  by_cases hf : file = none ∨ reg = none
  · rw [if_pos hf]
    exact .giveUp fun _ h => h
  · rw [if_neg hf]
    refine inScope_ends (.bind haveProfile_ends fun _ =>
      .bind (query_ends (isAppEnabled_ends file)) fun b => ?_)
    by_cases hb : b = true
    · rw [if_pos hb]
      exact .giveUp fun _ h => h.tidy (by simp)
    · rw [if_neg hb]
      refine .bind useProfile_ends fun _ => .bind (get_ends (by simp) (by simp)) fun _ =>
        .bind (get_ends (by simp) (by simp)) fun _ =>
        .bind (sysAllocString_ends (by simp) (by simp)) fun f => .bind (use_ends (by simp)) fun _ =>
        .bind (use_ends (by simp)) fun _ => .bind (comCall_ends (by simp)) fun _ =>
        .bind (sysAllocString_ends (by simp) (by simp)) fun n => .bind (use_ends (by simp)) fun _ =>
        .bind (use_ends (by simp)) fun _ => .bind (comCall_ends (by simp)) fun _ =>
        .bind (use_ends (by simp)) fun _ => .bind (use_ends (by simp)) fun _ => ?_
      exact ends_held (by simp) (tell_ends (by simp))

theorem removeApplication_ends (file : Option WStr) :
    Ends Idle (removeApplication file) (fun _ => Holds []) Idle := by
  unfold removeApplication
  by_cases hf : file = none
  · rw [if_pos hf]
    exact .giveUp fun _ h => h
  · rw [if_neg hf]
    refine inScope_ends (.bind haveProfile_ends fun _ =>
      .bind (query_ends (isAppEnabled_ends file)) fun b => ?_)
    by_cases hb : b = true
    · rw [if_pos hb]
      refine .bind useProfile_ends fun _ => .bind (get_ends (by simp) (by simp)) fun _ =>
        .bind (sysAllocString_ends (by simp) (by simp)) fun f => .bind (use_ends (by simp)) fun _ =>
        .bind (use_ends (by simp)) fun _ => ?_
      exact ends_held (by simp) (tell_ends (by simp))
    · rw [if_neg hb]
      exact .giveUp fun _ h => h.tidy (by simp)

theorem addPortRule_ends (port : ℤ) (ipProtocol : IpProtocol) (reg : Option WStr) :
    Ends Idle (addPortRule port ipProtocol reg) (fun _ => Holds []) Idle := by
  refine inScope_ends (.bind haveProfile_ends fun _ =>
    .bind (query_ends (isPortEnabled_ends port ipProtocol)) fun b => ?_)
  by_cases hb : b = false
  · rw [if_pos hb]
    refine .bind useProfile_ends fun _ => .bind (get_ends (by simp) (by simp)) fun _ =>
      .bind (get_ends (by simp) (by simp)) fun _ => .bind (use_ends (by simp)) fun _ =>
      .bind (comCall_ends (by simp)) fun _ => .bind (use_ends (by simp)) fun _ =>
      .bind (comCall_ends (by simp)) fun _ => .bind (sysAllocString_ends (by simp) (by simp)) fun n =>
      .bind (use_ends (by simp)) fun _ => .bind (use_ends (by simp)) fun _ =>
      .bind (comCall_ends (by simp)) fun _ => .bind (use_ends (by simp)) fun _ =>
      .bind (use_ends (by simp)) fun _ => ?_
    exact ends_held (by simp) (tell_ends (by simp))
  · rw [if_neg hb]
    exact .giveUp fun _ h => h.tidy (by simp)

theorem removePortRule_ends (port : ℤ) (ipProtocol : IpProtocol) :
    Ends Idle (removePortRule port ipProtocol) (fun _ => Holds []) Idle := by
  refine inScope_ends (.bind haveProfile_ends fun _ =>
    .bind (query_ends (isPortEnabled_ends port ipProtocol)) fun b => ?_)
  by_cases hb : b = true
  · rw [if_pos hb]
    refine .bind useProfile_ends fun _ => .bind (get_ends (by simp) (by simp)) fun _ =>
      .bind (use_ends (by simp)) fun _ => ?_
    exact ends_held (by simp) (tell_ends (by simp))
  · rw [if_neg hb]
    exact .pure fun _ h => h.held (by simp)

/-! ## `Init` and `Fini` -/

/-- Only the apartment is there. -/
def Entered (m : ComMgr) : Prop := m.fireWallProfile = none ∧ m.apartment ≠ none

/-- The locals `S` hold an object each, before there is a profile. -/
def HoldsEntered (S : List ComLocal) : ComScope → Prop := Scope.Holding base kin Entered S

theorem base_entered (h : Entered m) : base m = [(m.apartment, none)] := by
  rw [base, if_pos h.1, if_neg h.2]
  rfl

theorem getEntered_ends (hl : l ∉ S) :
    Ends (HoldsEntered S) (get l) (fun _ => HoldsEntered (l :: S)) (HoldsEntered S) := by
  refine Scope.acquire_ends hl fun w hw q hq => ?_
  have hap : w.apartment ∈ (base w).map Prod.fst := by simp [base_entered hw]
  cases l <;> simp only [kin, reduceCtorEq, Option.some.injEq] at hq <;> exact hq ▸ hap

theorem getCurrentProfile_ends :
    Ends (HoldsEntered S) getCurrentProfile (fun _ => Holds S) (HoldsEntered S) := by
  refine Scope.adopt_ends (fun w hw q hq => ?_) fun w n hw => ?_
  · cases hq
    simp [base_entered hw]
  · have hready : Ready { w with fireWallProfile := some n } := ⟨Option.some_ne_none n, hw.2⟩
    refine ⟨?_, fun l _ => (by cases l <;> rfl), hready⟩
    rw [base_ready hready, base_entered hw]

theorem createProfile_ends :
    Ends (HoldsEntered []) createProfile (fun _ => Holds []) (HoldsEntered []) := by
  have hsome : ∀ {S : List ComLocal} {s : ComScope}, S ⊆ [.fwPolicy, .fwMgr] → HoldsEntered S s →
      ∃ S ⊆ [.fwPolicy, .fwMgr], HoldsEntered S s := fun hS h => ⟨_, hS, h⟩
  refine Scope.inScope_ends (D := fun _ => Ready) (E := Entered) ?_
  refine .bind ((getEntered_ends (by simp)).mono (fun _ h => h) (fun _ _ h => h) fun _ => hsome (by simp))
    fun _ => .bind (Scope.touch_local_ends (by simp)) fun _ =>
    .bind ((getEntered_ends (by simp)).mono (fun _ h => h) (fun _ _ h => h) fun _ => hsome (by simp))
    fun _ => .bind (Scope.touch_local_ends (by simp)) fun _ => ?_
  exact getCurrentProfile_ends.mono (fun _ h => h) (fun _ _ h => ⟨_, by simp, h⟩) fun _ => hsome (by simp)

theorem coInitialize_ends :
    Ends (Scope.Holding base kin (fun m => m.fireWallProfile = none ∧ Between m) []) coInitialize
      (fun _ => HoldsEntered []) Idle := by
  refine (Scope.adopt_ends (N := Entered) (fun w _ q hq => by cases hq) fun w n hw => ?_).mono
    (fun _ h => h) (fun _ _ h => h) fun _ h => ⟨h.1, h.2.2⟩
  have hentered : Entered { w with apartment := some n } := ⟨hw.1, Option.some_ne_none n⟩
  have hap : w.apartment = none := hw.2.mp hw.1
  refine ⟨?_, fun l hl => (by cases hl), hentered⟩
  rw [base_entered hentered, base, if_pos hw.1, if_pos hap]
  exact List.Perm.refl _

theorem coUninitialize_ends {E : ComScope → Prop} :
    Ends (HoldsEntered []) coUninitialize (fun _ => Idle) E := by
  refine Scope.disown_ends (N := Between) fun w hw => ⟨none, ?_, fun y hy => ?_, ?_⟩
  · rw [base_entered hw, base, if_pos hw.1]
    exact List.Perm.refl _
  · simp [base, hw.1] at hy
  · exact iff_of_true hw.1 rfl

theorem init_ends : Ends Idle init (fun _ => Holds []) Idle := by
  refine .bind (Q := fun _ => Scope.Holding base kin (fun m => m.fireWallProfile = none ∧ Between m) [])
    (.require (fun s hs hp => ⟨hs.1, Option.isNone_iff_eq_none.mp hp, hs.2⟩) fun s hs _ => hs) fun _ =>
    .bind coInitialize_ends fun _ => .bind (Q := fun r s => if r = none then HoldsEntered [] s else Holds [] s)
    (.handled createProfile_ends) fun r => ?_
  cases r with
  | none => exact .bind coUninitialize_ends fun _ => .giveUp fun _ h => h
  | some u => exact .pure fun _ h => h

theorem fini_ends : Ends Idle fini (fun _ => Idle) Idle := by
  have hprofile : Ends Idle haveProfile (fun _ => Holds []) (Tidy []) := haveProfile_ends
  refine Ends.mono (.bind hprofile fun _ =>
    .bind (Q := fun _ => HoldsEntered []) (Scope.disown_ends fun w hw => ?_) fun _ =>
    coUninitialize_ends) (fun _ h => h) (fun _ _ h => h) fun _ h => h.idle
  have hentered : Entered { w with fireWallProfile := none } := ⟨rfl, hw.2⟩
  refine ⟨some w.apartment, ?_, fun y hy => ?_, hentered⟩
  · rw [base_ready hw, base_entered hentered]
  · rw [base_entered hentered] at hy
    simp at hy

/-! ## The runs -/

/-- What is in a pointer of the manager. -/
theorem mem_base (h : Between m) (x : Ptr) :
    x ∈ (base m).map Prod.fst ↔ x ≠ none ∧ (x = m.fireWallProfile ∨ x = m.apartment) := by
  by_cases hp : m.fireWallProfile = none
  · have hap : m.apartment = none := h.mp hp
    simp [base, hp, hap]
  · have hap : m.apartment ≠ none := fun hap => hp (h.mpr hap)
    rw [base_ready ⟨hp, hap⟩]
    constructor
    · intro hx
      rcases List.mem_cons.mp hx with rfl | hx
      · exact ⟨hp, .inl rfl⟩
      · obtain rfl := List.mem_singleton.mp hx
        exact ⟨hap, .inr rfl⟩
    · rintro ⟨-, rfl | rfl⟩
      · exact List.mem_cons_self ..
      · exact List.mem_cons_of_mem _ (List.mem_singleton.mpr rfl)

/-- Everything has been released once, but for the profile and the apartment of a manager that is
initialised. -/
def GivenBack (s : ComScope) : Prop :=
  Disciplined s.log ∧ ∀ x, Born s.log x → s.log.count (.died x) =
    if x = s.world.fireWallProfile ∨ x = s.world.apartment then 0 else 1

theorem Idle.givenBack (h : Idle s) : GivenBack s := by
  have hd : Disciplined (s.log.map id) := by
    rw [List.map_id]
    exact h.1.owes.disciplined
  refine ⟨h.1.owes.disciplined, fun x hx => ?_⟩
  have hne : x ≠ none := by
    obtain ⟨n, rfl, -⟩ := h.1.named x hx
    exact Option.some_ne_none n
  have halive := h.1.owes.alive_iff x
  rw [show Scope.locals kin [] s ++ base s.world = base s.world from rfl, mem_base h.2] at halive
  by_cases hm : x = s.world.fireWallProfile ∨ x = s.world.apartment
  · rw [if_pos hm, List.count_eq_zero]
    exact (halive.mpr ⟨hne, hm⟩).2
  · rw [if_neg hm]
    have hdied : Event.died x ∈ s.log := by
      by_contra hno
      exact hm (halive.mp ⟨hx, hno⟩).2
    exact hd.countP_died (fun b hb => by simpa using hb) hdied (by simp)

end ComMgr

open ComMgr

theorem FwOp.com_ends (op : FwOp) : Ends Idle op.com (fun _ => Idle) Idle := by
  have hidle : ∀ {p : Com Unit}, Ends Idle p (fun _ => Holds []) Idle → Ends Idle p (fun _ => Idle) Idle :=
    fun hp => hp.mono (fun _ h => h) (fun _ _ h => h.idle) fun _ h => h
  cases op with
  | turnOnFirewall => exact hidle ComMgr.turnOnFirewall_ends
  | turnOffFirewall => exact hidle ComMgr.turnOffFirewall_ends
  | addApplication file reg => exact hidle (ComMgr.addApplication_ends file reg)
  | removeApplication file => exact hidle (ComMgr.removeApplication_ends file)
  | addPortRule port ipProtocol reg => exact hidle (ComMgr.addPortRule_ends port ipProtocol reg)
  | removePortRule port ipProtocol => exact hidle (ComMgr.removePortRule_ends port ipProtocol)

theorem ComOp.body_ends (op : ComOp) : Ends Idle op.body (fun _ => Idle) Idle := by
  have hidle : ∀ {p : Com Bool}, Ends Idle p (fun _ => Holds []) Idle →
      Ends Idle (do let b ← p; pure (some b)) (fun _ => Idle) Idle :=
    fun hp => .bind hp fun _ => .pure fun _ h => h.idle
  cases op with
  | init => exact .bind ComMgr.init_ends fun _ => .pure fun _ h => h.idle
  | fini => exact .bind ComMgr.fini_ends fun _ => .pure fun _ h => h
  | isFirewallOn => exact hidle ComMgr.isFirewallOn_ends
  | isAppEnabled file => exact hidle (ComMgr.isAppEnabled_ends file)
  | isPortEnabled port ipProtocol => exact hidle (ComMgr.isPortEnabled_ends port ipProtocol)
  | change op => exact .bind op.com_ends fun _ => .pure fun _ h => h

theorem ComOp.exec_idle (fails : ℕ → Bool) (t : Trace ComScope) (op : ComOp) (h : Idle t.world) :
    ∃ t', ComOp.exec fails t op = .ok t' ∧ Idle t'.world := by
  refine ⟨_, rfl, ?_⟩
  obtain ⟨hok, hno⟩ := op.body_ends fails t h
  cases hx : (op.body fails t).1 with
  | none => exact hno hx
  | some a => exact hok a hx

theorem created_idle (profile : FwProfile) : Idle (created profile) :=
  ⟨⟨Owes.nil, fun x hx => (by obtain ⟨p, hp⟩ := hx; cases hp), fun _ _ => rfl,
    fun x q hx => by cases hx⟩, iff_of_true rfl rfl⟩

/-- **No object leaks and none is used too late.** Whatever calls a run makes of a manager and
whichever of the calls it makes fail, nothing is used before it is obtained or after its release, and
after each call all that the calls have obtained has been released once, the profile and the apartment
of an initialised manager apart. -/
theorem objects_given_back (fails : ℕ → Bool) (profile : FwProfile) (n : ℕ) (ops : List ComOp) :
    Lib.Holds (ComOp.exec fails) (fun t => GivenBack t.world) ⟨created profile, n⟩ ops := by
  have hidle : Lib.Holds (ComOp.exec fails) (fun t => Idle t.world) ⟨created profile, n⟩ ops :=
    Lib.Holds.of_step (L := fun _ => True) (fun t op _ ht => ComOp.exec_idle fails t op ht)
      (created_idle profile) fun _ _ => trivial
  exact hidle.mono fun t ht => ht.givenBack

end AppUtil.FireWall
