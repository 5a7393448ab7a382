import AppUtil.WinApi.Processes

/-! # Which process handles are closed

A program calls the functions one after another. Each closes its snapshot, its manager with the buffer and its
token on every way out, and none closes the handle of a process. -/
namespace AppUtil.WinApi
open AppUtil.Lib AppUtil.Lib.Lifetime
set_option autoImplicit false

/-- A call of one of the functions. -/
inductive ProcMember where
  | getProcInfo
  | getSvrInfo
  | getProcPathByPid (dwProcessID : UInt32)
  | getPidByAppName (strAppName : Text)
  | getAppSetupPath (strAppName : Text)
  | getSetupPathBySvrName (strSvrName : Text)
  | killProcessByAppName (strAppName : Text)
  deriving DecidableEq, Repr

/-- The call, begun at the moment. -/
def ProcMember.run (m : Machine) (t : ℕ) : ProcMember → ProcCalls Unit
  | .getProcInfo => AppUtil.WinApi.getProcInfo m t ∅ >>= fun _ => pure ()
  | .getSvrInfo => getSvrInfoCalls m t ∅ >>= fun _ => pure ()
  | .getProcPathByPid pid => AppUtil.WinApi.getProcPathByPid m t pid >>= fun _ => pure ()
  | .getPidByAppName name => AppUtil.WinApi.getPidByAppName m t name 0 >>= fun _ => pure ()
  | .getAppSetupPath name => AppUtil.WinApi.getAppSetupPath m t name [] >>= fun _ => pure ()
  | .getSetupPathBySvrName name => getSetupPathBySvrNameCalls m t name [] >>= fun _ => pure ()
  | .killProcessByAppName name => AppUtil.WinApi.killProcessByAppName m t name >>= fun _ => pure ()

/-- The calls of a program, from the moment on. No call lasts longer than two moments. -/
def runMembers (m : Machine) (t : ℕ) : List ProcMember → ProcCalls Unit
  | [] => pure ()
  | member :: rest => do
    member.run m t
    runMembers m (t + 2) rest

def ProcHandle.moment : ProcHandle → ℕ
  | .snapshot t => t
  | .manager t => t
  | .buffer t => t
  | .token t => t
  | .process t _ => t

def ProcHandle.IsProcess (h : ProcHandle) : Prop := ∃ t p, h = .process t p

/-- Nothing has been opened at the moment or later, and what is open are handles of processes. -/
def AtRest (t : ℕ) (past : List ProcCall) : Prop :=
  ∃ held, Open (fun h => t ≤ h.moment) held past ∧ ∀ e ∈ held, e.2 = none ∧ e.1.IsProcess

/-- From rest the call leaves rest behind. -/
def KeepsRest {α : Type} (t t' : ℕ) (x : ProcCalls α) : Prop :=
  ∀ past, AtRest t past → x.Keeps MayHappen past fun past' _ => AtRest t' past'

section Rest
variable {m : Machine} {t t' t'' : ℕ} {past : List ProcCall} {held : List (ProcHandle × Option ProcHandle)}

theorem AtRest.later (h : AtRest t past) (ht : t ≤ t') : AtRest t' past := by
  obtain ⟨held, hopen, hheld⟩ := h
  exact ⟨held, hopen.weaken fun x hx => ht.trans hx, hheld⟩

theorem keepsRest_pure {α : Type} (a : α) (h : t ≤ t') : KeepsRest t t' (pure a : ProcCalls α) :=
  fun _ hpast => Logged.keeps_pure (hpast.later h)

theorem keepsRest_bind {α β : Type} {x : ProcCalls α} {f : α → ProcCalls β} (hx : KeepsRest t t' x)
    (hf : ∀ a, KeepsRest t' t'' (f a)) : KeepsRest t t'' (x >>= f) :=
  fun past hpast => Logged.keeps_bind (hx past hpast) fun past' a hpast' => hf a past' hpast'

theorem KeepsRest.later {α : Type} {x : ProcCalls α} (h : KeepsRest t t' x) (ht : t' ≤ t'') :
    KeepsRest t t'' x :=
  fun past hpast => (h past hpast).mono fun _ _ h' => h'.later ht

/-- Nothing that is open has been opened from what is closed. -/
theorem no_child (h : ∀ e ∈ held, e.2 = none ∧ e.1.IsProcess) (x y : ProcHandle) : (y, some x) ∉ held := by
  intro hmem
  cases (h _ hmem).1

theorem enumerate_keeps {fresh : ProcHandle → Prop} (list : List Process) (map : SvrMap)
    (h : Open fresh held past) (hmem : .snapshot t ∈ held.map Prod.fst) :
    (enumerate t list map).Keeps MayHappen past fun past' _ => Open fresh held past' := by
  induction list generalizing map past with
  | nil => exact Logged.keeps_pure h
  | cons p rest ih => exact keeps_used h hmem fun past₁ _ _ h₁ => ih _ h₁

theorem getProcInfo_keepsRest (map : SvrMap) : KeepsRest t (t + 1) (getProcInfo m t map) := by
  intro past hpast
  obtain ⟨held, h, hheld⟩ := hpast
  unfold getProcInfo
  split
  · exact Logged.keeps_pure (AtRest.later ⟨held, h, hheld⟩ (Nat.le_succ t))
  · refine keeps_born (F := fun x => t + 1 ≤ x.moment) h (Nat.le_refl t) nofun (fun y hy => ⟨by omega, ?_⟩)
      fun past₁ _ _ h₁ => keeps_used h₁ (by simp) fun past₂ _ _ h₂ => ?_
    · rintro rfl
      exact absurd hy (Nat.not_succ_le_self t)
    · refine Logged.keeps_bind (enumerate_keeps _ _ h₂ (by simp)) fun past₃ _ h₃ => ?_
      exact keeps_died h₃ (no_child hheld _) fun past₄ _ _ h₄ => Logged.keeps_pure ⟨held, h₄, hheld⟩

theorem getSvrInfoCalls_keepsRest (map : SvrMap) : KeepsRest t (t + 1) (getSvrInfoCalls m t map) := by
  intro past hpast
  obtain ⟨held, h, hheld⟩ := hpast
  unfold getSvrInfoCalls
  split
  · exact Logged.keeps_pure (AtRest.later ⟨held, h, hheld⟩ (Nat.le_succ t))
  · refine keeps_born (F := fun x => x = .buffer t ∨ t + 1 ≤ x.moment) h (Nat.le_refl t) nofun (fun y hy => ?_)
      fun past₁ _ _ h₁ => keeps_used h₁ (by simp) fun past₂ _ _ h₂ => ?_
    · rcases hy with rfl | hy
      · exact ⟨Nat.le_refl t, nofun⟩
      · refine ⟨by omega, ?_⟩
        rintro rfl
        exact absurd hy (Nat.not_succ_le_self t)
    split
    · exact keeps_died h₂ (no_child hheld _) fun past₃ _ _ h₃ =>
        Logged.keeps_pure ⟨held, h₃.weaken fun x hx => .inr hx, hheld⟩
    · refine keeps_born (F := fun x => t + 1 ≤ x.moment) h₂ (.inl rfl) nofun (fun y hy => ⟨.inr hy, ?_⟩)
        fun past₃ _ _ h₃ => keeps_used h₃ (by simp) fun past₄ _ _ h₄ => keeps_used h₄ (by simp)
          fun past₅ _ _ h₅ => ?_
      · rintro rfl
        exact absurd hy (Nat.not_succ_le_self t)
      · -- the manager is closed above the buffer
        have h₆ := h₅.perm (List.Perm.swap ..)
        refine keeps_died h₆ (fun y hy => ?_) fun past₇ _ _ h₇ => keeps_died h₇ (no_child hheld _)
          fun past₈ _ _ h₈ => Logged.keeps_pure ⟨held, h₈, hheld⟩
        rcases List.mem_cons.mp hy with heq | hmem
        · cases heq
        · exact no_child hheld _ y hmem

/-- The handle of a process comes to what is open. -/
theorem openProcess_keeps {pid : UInt32}
    (h : Open (fun x => (∃ p, x = .process t p) ∨ t + 1 ≤ x.moment) held past) :
    (openProcess m t pid).Keeps MayHappen past fun past' hProcess =>
      ∃ new, (hProcess = none ∧ new = [] ∨ ∃ p, hProcess = some p ∧ new = [(.process t p, none)]) ∧
        Open (fun x => t + 1 ≤ x.moment) (new ++ held) past' := by
  have hnone : Open (fun x => t + 1 ≤ x.moment) ([] ++ held) past := h.weaken fun x hx => .inr hx
  unfold openProcess
  cases m.process t pid with
  | none => exact Logged.keeps_pure ⟨[], .inl ⟨rfl, rfl⟩, hnone⟩
  | some p =>
    dsimp only
    split
    · refine keeps_born (F := fun x => t + 1 ≤ x.moment) h (.inl ⟨p, rfl⟩) nofun (fun y hy => ⟨.inr hy, ?_⟩)
        fun past₁ _ _ h₁ => Logged.keeps_pure ⟨_, .inr ⟨p, rfl, rfl⟩, h₁⟩
      rintro rfl
      exact absurd hy (Nat.not_succ_le_self t)
    · exact Logged.keeps_pure ⟨[], .inl ⟨rfl, rfl⟩, hnone⟩

theorem getProcPathByPid_keepsRest (pid : UInt32) : KeepsRest t (t + 1) (getProcPathByPid m t pid) := by
  intro past hpast
  obtain ⟨held, h, hheld⟩ := hpast
  -- on every way out that has no process
  have hclose : ∀ {fresh : ProcHandle → Prop} {past' : List ProcCall} {a : ℤ × Text},
      Open fresh ((.token t, none) :: held) past' → (∀ x, t + 1 ≤ x.moment → fresh x) →
      (closed (.token t) >>= fun _ => pure a).Keeps MayHappen past' fun past'' _ => AtRest (t + 1) past'' := by
    intro fresh past' a h' hfresh
    exact keeps_died h' (no_child hheld _) fun past'' _ _ h'' =>
      Logged.keeps_pure ⟨held, h''.weaken hfresh, hheld⟩
  unfold getProcPathByPid
  split
  · exact Logged.keeps_pure (AtRest.later ⟨held, h, hheld⟩ (Nat.le_succ t))
  · refine keeps_born (F := fun x => (∃ p, x = .process t p) ∨ t + 1 ≤ x.moment) h (Nat.le_refl t) nofun
      (fun y hy => ?_) fun past₁ _ _ h₁ => ?_
    · rcases hy with ⟨p, rfl⟩ | hy
      · exact ⟨Nat.le_refl t, nofun⟩
      · refine ⟨by omega, ?_⟩
        rintro rfl
        exact absurd hy (Nat.not_succ_le_self t)
    split
    · exact hclose h₁ fun x hx => .inr hx
    · refine keeps_used h₁ (by simp) fun past₂ _ _ h₂ => ?_
      split
      · exact hclose h₂ fun x hx => .inr hx
      · refine Logged.keeps_bind (openProcess_keeps h₂) fun past₃ hProcess h₃ => ?_
        obtain ⟨new, ⟨rfl, rfl⟩ | ⟨p, rfl, rfl⟩, h₃⟩ := h₃
        · exact hclose h₃ fun x hx => hx
        · -- the token is closed beneath the process
          have h₄ := h₃.perm (List.Perm.swap ..)
          refine keeps_used h₄ (by simp) fun past₅ _ _ h₅ => keeps_died h₅ (fun y hy => ?_)
            fun past₆ _ _ h₆ => ?_
          · rcases List.mem_cons.mp hy with heq | hmem
            · cases heq
            · exact no_child hheld _ y hmem
          · have hrest : AtRest (t + 1) past₆ := by
              refine ⟨_, h₆, fun e he => ?_⟩
              rcases List.mem_cons.mp he with rfl | hmem
              · exact ⟨rfl, t, p, rfl⟩
              · exact hheld e hmem
            split
            · exact Logged.keeps_pure hrest
            · exact Logged.keeps_pure hrest

theorem getPidByAppName_keepsRest (name : Text) (iPid : ℤ) :
    KeepsRest t (t + 1) (getPidByAppName m t name iPid) := by
  refine keepsRest_bind (getProcInfo_keepsRest ∅) fun r => ?_
  obtain ⟨iRet, mapProcInfo⟩ := r
  dsimp only
  split
  · exact keepsRest_pure _ (Nat.le_refl _)
  · exact keepsRest_pure _ (Nat.le_refl _)

/-- The end that `GetAppSetupPath` and `GetSetupPathBySvrName` have in common. -/
theorem setupPath_keepsRest (iPid : ℤ) (strPath : Text) : KeepsRest t (t + 1)
    (getProcPathByPid m t (UInt32.ofInt iPid) >>= fun r =>
      if r.1 ≠ dtkOk then pure (dtkError, strPath) else pure (dtkOk, r.2)) := by
  refine keepsRest_bind (getProcPathByPid_keepsRest _) fun r => ?_
  split
  · exact keepsRest_pure _ (Nat.le_refl _)
  · exact keepsRest_pure _ (Nat.le_refl _)

theorem getAppSetupPath_keepsRest (name path : Text) : KeepsRest t (t + 2) (getAppSetupPath m t name path) := by
  refine keepsRest_bind (getPidByAppName_keepsRest name (-1)) fun r => ?_
  obtain ⟨iRet, iPid⟩ := r
  dsimp only
  split
  · exact keepsRest_pure _ (Nat.le_succ _)
  · exact setupPath_keepsRest iPid path

theorem getSetupPathBySvrNameCalls_keepsRest (name path : Text) :
    KeepsRest t (t + 2) (getSetupPathBySvrNameCalls m t name path) := by
  refine keepsRest_bind (getSvrInfoCalls_keepsRest ∅) fun r => ?_
  obtain ⟨iRet, mapSvrInfo⟩ := r
  dsimp only
  split
  · exact keepsRest_pure _ (Nat.le_succ _)
  · split
    · exact keepsRest_pure _ (Nat.le_succ _)
    · split
      · exact keepsRest_pure _ (Nat.le_succ _)
      · exact setupPath_keepsRest _ path

theorem killProcessByAppName_keepsRest (name : Text) :
    KeepsRest t (t + 2) (killProcessByAppName m t name) := by
  refine keepsRest_bind (getPidByAppName_keepsRest name 0) fun r => ?_
  obtain ⟨iRet, iPid⟩ := r
  dsimp only
  split
  · exact keepsRest_pure _ (Nat.le_succ _)
  · rintro past ⟨held, h, hheld⟩
    have hfresh : Open (fun x => (∃ p, x = .process (t + 1) p) ∨ t + 1 + 1 ≤ x.moment) held past := by
      refine h.weaken fun x hx => ?_
      rcases hx with ⟨p, rfl⟩ | hx
      · exact Nat.le_refl _
      · omega
    refine Logged.keeps_bind (openProcess_keeps hfresh) fun past₁ hHandle h₁ => ?_
    obtain ⟨new, ⟨rfl, rfl⟩ | ⟨p, rfl, rfl⟩, h₁⟩ := h₁
    · exact Logged.keeps_pure ⟨held, h₁, hheld⟩
    · refine keeps_used h₁ (by simp) fun past₂ _ _ h₂ => ?_
      have hrest : AtRest (t + 2) past₂ := by
        refine ⟨_, h₂, fun e he => ?_⟩
        rcases List.mem_cons.mp he with rfl | hmem
        · exact ⟨rfl, t + 1, p, rfl⟩
        · exact hheld e hmem
      split
      · exact Logged.keeps_pure hrest
      · exact Logged.keeps_pure hrest

/-! ## Whole programs -/

theorem run_keepsRest (member : ProcMember) : KeepsRest t (t + 2) (member.run m t) := by
  have hend : ∀ {α : Type} (x : ProcCalls α), KeepsRest t (t + 2) x →
      KeepsRest t (t + 2) (x >>= fun _ => pure ()) :=
    fun x hx => keepsRest_bind hx fun _ => keepsRest_pure () (Nat.le_refl _)
  have hlater : t + 1 ≤ t + 2 := Nat.le_succ _
  cases member with
  | getProcInfo => exact hend _ ((getProcInfo_keepsRest ∅).later hlater)
  | getSvrInfo => exact hend _ ((getSvrInfoCalls_keepsRest ∅).later hlater)
  | getProcPathByPid pid => exact hend _ ((getProcPathByPid_keepsRest pid).later hlater)
  | getPidByAppName name => exact hend _ ((getPidByAppName_keepsRest name 0).later hlater)
  | getAppSetupPath name => exact hend _ (getAppSetupPath_keepsRest name [])
  | getSetupPathBySvrName name => exact hend _ (getSetupPathBySvrNameCalls_keepsRest name [])
  | killProcessByAppName name => exact hend _ (killProcessByAppName_keepsRest name)

theorem runMembers_keepsRest (members : List ProcMember) (t : ℕ) :
    KeepsRest t (t + 2 * members.length) (runMembers m t members) := by
  induction members generalizing t with
  | nil => exact keepsRest_pure () (Nat.le_refl _)
  | cons member rest ih =>
    refine keepsRest_bind (run_keepsRest member) fun _ => ?_
    have hlen : t + 2 * (member :: rest).length = t + 2 + 2 * rest.length := by
      rw [List.length_cons]
      omega
    rw [hlen]
    exact ih (t + 2)

end Rest

/-! ## No handle of a process is closed -/

/-- The call does not close the handle of a process. -/
def SparesProcesses (call : ProcCall) : Prop := ∀ h, call = .died h → ¬ h.IsProcess

section Spares
variable {m : Machine} {t : ℕ}

theorem only_opened (h : ProcHandle) : Logged.Only SparesProcesses (opened h) := Logged.only_step nofun

theorem only_used (h : ProcHandle) : Logged.Only SparesProcesses (used h) := Logged.only_step nofun

theorem only_closed {h : ProcHandle} (hh : ¬ h.IsProcess) : Logged.Only SparesProcesses (closed h) := by
  refine Logged.only_step fun x hx => ?_
  obtain rfl := Event.died.inj hx
  exact hh

theorem only_enumerate (list : List Process) (map : SvrMap) :
    Logged.Only SparesProcesses (enumerate t list map) := by
  induction list generalizing map with
  | nil => exact Logged.only_pure map
  | cons p rest ih => exact Logged.only_bind (only_used _) fun _ => ih _

theorem only_getProcInfo (map : SvrMap) : Logged.Only SparesProcesses (getProcInfo m t map) := by
  unfold getProcInfo
  split
  · exact Logged.only_pure _
  · exact Logged.only_bind (only_opened _) fun _ => Logged.only_bind (only_used _) fun _ =>
      Logged.only_bind (only_enumerate _ _) fun _ => Logged.only_bind (only_closed nofun) fun _ =>
        Logged.only_pure _

theorem only_getSvrInfoCalls (map : SvrMap) : Logged.Only SparesProcesses (getSvrInfoCalls m t map) := by
  unfold getSvrInfoCalls
  split
  · exact Logged.only_pure _
  · refine Logged.only_bind (only_opened _) fun _ => Logged.only_bind (only_used _) fun _ => ?_
    split
    · exact Logged.only_bind (only_closed nofun) fun _ => Logged.only_pure _
    · exact Logged.only_bind (only_opened _) fun _ => Logged.only_bind (only_used _) fun _ =>
        Logged.only_bind (only_used _) fun _ => Logged.only_bind (only_closed nofun) fun _ =>
          Logged.only_bind (only_closed nofun) fun _ => Logged.only_pure _

theorem only_openProcess (pid : UInt32) : Logged.Only SparesProcesses (openProcess m t pid) := by
  unfold openProcess
  split
  · exact Logged.only_pure _
  · split
    · exact Logged.only_bind (only_opened _) fun _ => Logged.only_pure _
    · exact Logged.only_pure _

theorem only_getProcPathByPid (pid : UInt32) : Logged.Only SparesProcesses (getProcPathByPid m t pid) := by
  have hclose : ∀ a : ℤ × Text, Logged.Only SparesProcesses (closed (.token t) >>= fun _ => pure a) :=
    fun a => Logged.only_bind (only_closed nofun) fun _ => Logged.only_pure a
  unfold getProcPathByPid
  split
  · exact Logged.only_pure _
  · refine Logged.only_bind (only_opened _) fun _ => ?_
    split
    · exact hclose _
    · refine Logged.only_bind (only_used _) fun _ => ?_
      split
      · exact hclose _
      · refine Logged.only_bind (only_openProcess pid) fun hProcess => ?_
        cases hProcess with
        | none => exact hclose _
        | some p =>
          refine Logged.only_bind (only_used _) fun _ => Logged.only_bind (only_closed nofun) fun _ => ?_
          split
          · exact Logged.only_pure _
          · exact Logged.only_pure _

theorem only_getPidByAppName (name : Text) (iPid : ℤ) :
    Logged.Only SparesProcesses (getPidByAppName m t name iPid) := by
  refine Logged.only_bind (only_getProcInfo ∅) fun r => ?_
  dsimp only
  split
  · exact Logged.only_pure _
  · exact Logged.only_pure _

theorem only_setupPath (pid : UInt32) (strPath : Text) : Logged.Only SparesProcesses
    (getProcPathByPid m t pid >>= fun r =>
      if r.1 ≠ dtkOk then pure (dtkError, strPath) else pure (dtkOk, r.2)) := by
  refine Logged.only_bind (only_getProcPathByPid pid) fun r => ?_
  split
  · exact Logged.only_pure _
  · exact Logged.only_pure _

theorem only_getAppSetupPath (name path : Text) :
    Logged.Only SparesProcesses (getAppSetupPath m t name path) := by
  refine Logged.only_bind (only_getPidByAppName name _) fun r => ?_
  dsimp only
  split
  · exact Logged.only_pure _
  · exact only_setupPath _ path

theorem only_getSetupPathBySvrNameCalls (name path : Text) :
    Logged.Only SparesProcesses (getSetupPathBySvrNameCalls m t name path) := by
  refine Logged.only_bind (only_getSvrInfoCalls ∅) fun r => ?_
  dsimp only
  split
  · exact Logged.only_pure _
  · split
    · exact Logged.only_pure _
    · split
      · exact Logged.only_pure _
      · exact only_setupPath _ path

theorem only_killProcessByAppName (name : Text) :
    Logged.Only SparesProcesses (killProcessByAppName m t name) := by
  refine Logged.only_bind (only_getPidByAppName name 0) fun r => ?_
  dsimp only
  split
  · exact Logged.only_pure _
  · refine Logged.only_bind (only_openProcess _) fun hHandle => ?_
    cases hHandle with
    | none => exact Logged.only_pure _
    | some p =>
      refine Logged.only_bind (only_used _) fun _ => ?_
      split
      · exact Logged.only_pure _
      · exact Logged.only_pure _

theorem only_run (member : ProcMember) : Logged.Only SparesProcesses (member.run m t) := by
  have hend : ∀ {α : Type} (x : ProcCalls α), Logged.Only SparesProcesses x →
      Logged.Only SparesProcesses (x >>= fun _ => pure ()) :=
    fun x hx => Logged.only_bind hx fun _ => Logged.only_pure ()
  cases member with
  | getProcInfo => exact hend _ (only_getProcInfo ∅)
  | getSvrInfo => exact hend _ (only_getSvrInfoCalls ∅)
  | getProcPathByPid pid => exact hend _ (only_getProcPathByPid pid)
  | getPidByAppName name => exact hend _ (only_getPidByAppName name 0)
  | getAppSetupPath name => exact hend _ (only_getAppSetupPath name [])
  | getSetupPathBySvrName name => exact hend _ (only_getSetupPathBySvrNameCalls name [])
  | killProcessByAppName name => exact hend _ (only_killProcessByAppName name)

theorem only_runMembers (members : List ProcMember) (t : ℕ) :
    Logged.Only SparesProcesses (runMembers m t members) := by
  induction members generalizing t with
  | nil => exact Logged.only_pure ()
  | cons member rest ih => exact Logged.only_bind (only_run member) fun _ => ih (t + 2)

end Spares

/-- **The handles of a program**: snapshots, managers, buffers and tokens are closed behind each call, and every
process that was opened stays open. -/
theorem runMembers_leaves_processes (m : Machine) (members : List ProcMember) :
    Disciplined (runMembers m 0 members).log.reverse ∧
      ∀ h, Alive (runMembers m 0 members).log.reverse h ↔
        Born (runMembers m 0 members).log.reverse h ∧ h.IsProcess := by
  have hkeeps := runMembers_keepsRest (m := m) members 0 [] ⟨[], Open.start, nofun⟩
  have hlog : ([] : List ProcCall) ++ (runMembers m 0 members).log = (runMembers m 0 members).log :=
    List.nil_append _
  refine ⟨?_, fun h => ⟨fun halive => ⟨halive.1, ?_⟩, fun hborn => ⟨hborn.1, fun hdied => ?_⟩⟩⟩
  · have hd := disciplined_of_permitted hkeeps.1 trivial
    rwa [hlog] at hd
  · cases hresult : (runMembers m 0 members).result with
    | error e => exact e.elim
    | ok u =>
      obtain ⟨held, hopen, hheld⟩ := hkeeps.2 u hresult
      rw [hlog] at hopen
      obtain ⟨e, he, rfl⟩ := List.mem_map.mp ((hopen.owes.alive_iff h).mp halive)
      exact (hheld e he).2
  · exact only_runMembers members 0 _ (List.mem_reverse.mp hdied) h rfl hborn.2

end AppUtil.WinApi
