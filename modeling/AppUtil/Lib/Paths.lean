import Mathlib.Data.List.Induction
import Mathlib.Data.Nat.Notation
import Mathlib.Tactic.Common

/-! # Where a path leads

A path is a text over any symbols: a drive, if it begins with one, and what is split at the separators.
Empty components and `.` stay where they are, `..` goes up, and every other component is a name. Above
the root, where a path that begins with a separator begins, `..` does not lead. -/
namespace AppUtil.Lib.Paths
set_option autoImplicit false

structure Syntax (α : Type) where
  isSep : α → Bool
  dot : α
  /-- What follows the letter of a drive. -/
  colon : α
  isLetter : α → Bool
  colon_not_sep : isSep colon = false
  letter_not_sep : ∀ c, isLetter c = true → isSep c = false

/-- A drive, whether from its root or from where one stands on it, how far up from there, and down which
names. -/
structure Location (α : Type) where
  drive : List α
  rooted : Bool
  ups : ℕ
  names : List (List α)
  deriving DecidableEq, Repr

variable {α : Type} [DecidableEq α] (P : Syntax α)

def Location.here : Location α := ⟨[], false, 0, []⟩

/-- One component further. -/
def Location.step (l : Location α) (c : List α) : Location α :=
  if c = [] ∨ c = [P.dot] then l
  else if c = [P.dot, P.dot] then
    if l.names = [] then { l with ups := if l.rooted then l.ups else l.ups + 1 }
    else { l with names := l.names.dropLast }
  else { l with names := l.names ++ [c] }

def Location.walk (l : Location α) (cs : List (List α)) : Location α := cs.foldl (Location.step P) l

def drive : List α → List α
  | a :: b :: _ => if P.isLetter a = true ∧ b = P.colon then [a, b] else []
  | _ => []

/-- What stands behind the drive. -/
def body (p : List α) : List α := p.drop (drive P p).length

def start (p : List α) : Location α := ⟨drive P p, (body P p).head?.any P.isSep, 0, []⟩

def resolve (p : List α) : Location α := (start P p).walk P ((body P p).splitOnP P.isSep)

/-- Where a name leads from wherever it is taken. -/
def relative (name : List α) : Location α := Location.walk P .here (name.splitOnP P.isSep)

/-- At or below a location. -/
def Location.Below (l m : Location α) : Prop :=
  l.drive = m.drive ∧ l.rooted = m.rooted ∧ l.ups = m.ups ∧ l.names <+: m.names

instance (l m : Location α) : Decidable (l.Below m) := inferInstanceAs (Decidable (_ ∧ _ ∧ _ ∧ _))

/-- `p` leads to the folder `dir` or to a place in it. -/
def Inside (dir p : List α) : Prop := (resolve P dir).Below (resolve P p)

instance (dir p : List α) : Decidable (Inside P dir p) := inferInstanceAs (Decidable (Location.Below _ _))

/-- The name does not lead out of `dir`, which is more than a drive: what it climbs above its start it
comes down again the same way, and it climbs above the root only where that leads nowhere. -/
def Stays (dir name : List α) : Prop :=
  body P dir ≠ [] ∧
    ((resolve P dir).rooted = true ∨ (relative P name).ups ≤ (resolve P dir).names.length) ∧
    (resolve P dir).names.drop ((resolve P dir).names.length - (relative P name).ups) <+:
      (relative P name).names

instance (dir name : List α) : Decidable (Stays P dir name) := inferInstanceAs (Decidable (_ ∧ _ ∧ _))

variable {P}

/-! ## Walking -/

theorem walk_append (l : Location α) (cs ds : List (List α)) :
    l.walk P (cs ++ ds) = (l.walk P cs).walk P ds := List.foldl_append ..

@[simp] theorem step_nil (l : Location α) : l.step P [] = l := if_pos (.inl rfl)

theorem step_root (l : Location α) (c : List α) :
    (l.step P c).drive = l.drive ∧ (l.step P c).rooted = l.rooted := by
  unfold Location.step
  split
  · exact ⟨rfl, rfl⟩
  · split
    · split <;> exact ⟨rfl, rfl⟩
    · exact ⟨rfl, rfl⟩

theorem walk_root (l : Location α) (cs : List (List α)) :
    (l.walk P cs).drive = l.drive ∧ (l.walk P cs).rooted = l.rooted := by
  induction cs generalizing l with
  | nil => exact ⟨rfl, rfl⟩
  | cons c cs ih =>
    obtain ⟨hdrive, hrooted⟩ := ih (l.step P c)
    obtain ⟨hdrive', hrooted'⟩ := step_root (P := P) l c
    exact ⟨hdrive.trans hdrive', hrooted.trans hrooted'⟩

/-- Up from a location and down again. -/
def Location.upDown (l : Location α) (k : ℕ) (ds : List (List α)) : Location α :=
  ⟨l.drive, l.rooted, l.ups + (if l.rooted then 0 else k - l.names.length),
    l.names.take (l.names.length - k) ++ ds⟩

theorem step_upDown (l m : Location α) (hm : m.rooted = false) (c : List α) :
    (l.upDown m.ups m.names).step P c = l.upDown (m.step P c).ups (m.step P c).names := by
  by_cases hstay : c = [] ∨ c = [P.dot]
  · rw [Location.step, Location.step, if_pos hstay, if_pos hstay]
  by_cases hup : c = [P.dot, P.dot]
  · rw [Location.step, Location.step, if_neg hstay, if_neg hstay, if_pos hup, if_pos hup]
    by_cases hnames : m.names = []
    · -- `m` has nothing to come back from, so that the step climbs in `l`
      rw [if_pos hnames]
      simp only [Location.upDown, hnames, List.append_nil, hm, Bool.false_eq_true, if_false]
      by_cases hk : m.ups < l.names.length
      · have htake : l.names.take (l.names.length - m.ups) ≠ [] := by
          intro h
          have hlen := congrArg List.length h
          rw [List.length_take, List.length_nil] at hlen
          omega
        have h0 : m.ups - l.names.length = m.ups + 1 - l.names.length := by omega
        have hone : min (min (l.names.length - m.ups) l.names.length - 1) (l.names.length - m.ups) =
            l.names.length - (m.ups + 1) := by omega
        rw [if_neg htake, List.dropLast_eq_take, List.length_take, List.take_take, hone, h0]
      · have htake : l.names.length - m.ups = 0 := by omega
        have htake' : l.names.length - (m.ups + 1) = 0 := by omega
        rw [htake, htake', List.take_zero, if_pos rfl]
        cases l.rooted with
        | true => rfl
        | false =>
          have hups : l.ups + (m.ups + 1 - l.names.length) = l.ups + (m.ups - l.names.length) + 1 := by
            omega
          simp [hups]
    · have hne : l.names.take (l.names.length - m.ups) ++ m.names ≠ [] := by
        simp [hnames]
      rw [if_neg hnames]
      simp only [Location.upDown, if_neg hne, List.dropLast_append_of_ne_nil hnames]
  · rw [Location.step, Location.step, if_neg hstay, if_neg hstay, if_neg hup, if_neg hup]
    simp only [Location.upDown, List.append_assoc]

/-- **Walking from a location** is climbing its names and coming down. -/
theorem walk_eq (l : Location α) (cs : List (List α)) :
    l.walk P cs = l.upDown (Location.here.walk P cs).ups (Location.here.walk P cs).names := by
  induction cs using List.reverseRecOn with
  | nil => simp [Location.walk, Location.here, Location.upDown]
  | append_singleton cs c ih =>
    rw [walk_append, walk_append, ih]
    exact step_upDown l _ (walk_root ..).2 c

/-! ## Appending -/

theorem drive_append_body (p : List α) : drive P p ++ body P p = p := by
  unfold body drive
  split
  · split <;> rfl
  · rfl

theorem eq_drive_of_body {p : List α} (hp : p ≠ []) (h : body P p = []) : ∃ a, p = [a, P.colon] := by
  have hdrive : drive P p = p := by rw [← List.append_nil (drive P p), ← h, drive_append_body]
  unfold drive at hdrive
  split at hdrive
  next a b q =>
    split at hdrive
    next hab => exact ⟨a, by rw [← hdrive, hab.2]⟩
    next => exact absurd hdrive.symm hp
  next => exact absurd hdrive.symm hp

theorem drive_append_sep (dir : List α) {c : α} (hc : P.isSep c = true) (name : List α) :
    drive P (dir ++ c :: name) = drive P dir := by
  have hcolon : c ≠ P.colon := by
    rintro rfl
    rw [P.colon_not_sep] at hc
    cases hc
  have hletter : P.isLetter c = false := by
    refine Bool.eq_false_iff.mpr fun h => ?_
    rw [P.letter_not_sep c h] at hc
    cases hc
  match dir with
  | [] => cases name <;> simp [drive, hletter]
  | [a] => simp [drive, hcolon]
  | a :: b :: dir => rfl

theorem drive_append_of_ends {dir : List α} {c : α} (hdir : dir.getLast? = some c)
    (hc : P.isSep c = true) (name : List α) : drive P (dir ++ name) = drive P dir := by
  obtain ⟨pre, rfl⟩ := List.getLast?_eq_some_iff.mp hdir
  rw [List.append_assoc, List.singleton_append, drive_append_sep pre hc, drive_append_sep pre hc]

theorem body_append {dir name : List α} (h : drive P (dir ++ name) = drive P dir) :
    body P (dir ++ name) = body P dir ++ name := by
  have hsplit : drive P dir ++ body P (dir ++ name) = drive P dir ++ (body P dir ++ name) :=
    calc drive P dir ++ body P (dir ++ name) = dir ++ name := by rw [← h, drive_append_body]
      _ = drive P dir ++ (body P dir ++ name) := by rw [← List.append_assoc, drive_append_body]
  exact List.append_cancel_left hsplit

theorem start_append {dir name : List α} (h : drive P (dir ++ name) = drive P dir)
    (hdir : body P dir ≠ []) : start P (dir ++ name) = start P dir := by
  obtain ⟨a, q, hq⟩ := List.exists_cons_of_ne_nil hdir
  rw [start, start, h, body_append h, hq]
  rfl

theorem resolve_append_sep {dir : List α} (hdir : body P dir ≠ []) {c : α} (hc : P.isSep c = true)
    (name : List α) : resolve P (dir ++ c :: name) = (resolve P dir).walk P (name.splitOnP P.isSep) := by
  have h := drive_append_sep (P := P) dir hc name
  rw [resolve, resolve, start_append h hdir, body_append h, List.splitOnP_append_cons _ _ hc, walk_append]

theorem body_ne_nil_of_ends {dir : List α} {c : α} (hdir : dir.getLast? = some c)
    (hc : P.isSep c = true) : body P dir ≠ [] := by
  obtain ⟨pre, rfl⟩ := List.getLast?_eq_some_iff.mp hdir
  rw [body_append (drive_append_sep pre hc [])]
  simp

/-- Where the folder is written with a separator at its end. -/
theorem resolve_append_of_ends {dir : List α} {c : α} (hdir : dir.getLast? = some c)
    (hc : P.isSep c = true) (name : List α) :
    resolve P (dir ++ name) = (resolve P dir).walk P (name.splitOnP P.isSep) := by
  have h := drive_append_of_ends (P := P) hdir hc name
  obtain ⟨pre, rfl⟩ := List.getLast?_eq_some_iff.mp hdir
  have hbody := body_append (drive_append_sep (P := P) pre hc [])
  rw [resolve, resolve, start_append h (body_ne_nil_of_ends hdir hc), body_append h, hbody,
    List.append_assoc, List.singleton_append, List.splitOnP_append_cons _ _ hc,
    List.splitOnP_append_cons _ _ hc, List.splitOnP_nil, walk_append, walk_append]
  simp [Location.walk]

/-- A separator at the end of a path leads nowhere. -/
theorem resolve_append_singleton {dir : List α} (hdir : body P dir ≠ []) {c : α}
    (hc : P.isSep c = true) : resolve P (dir ++ [c]) = resolve P dir := by
  rw [resolve_append_sep hdir hc, List.splitOnP_nil]
  simp [Location.walk]

theorem resolve_rooted {dir : List α} : (resolve P dir).rooted = (body P dir).head?.any P.isSep :=
  (walk_root ..).2

/-! ## One separator for another -/

section Map
variable {f : α → α} (hsep : ∀ c, P.isSep (f c) = P.isSep c) (hf : ∀ c, P.isSep c = false → f c = c)
include hsep hf

omit [DecidableEq α] in
theorem splitOnP_map (p : List α) : (p.map f).splitOnP P.isSep = p.splitOnP P.isSep := by
  induction p with
  | nil => rfl
  | cons a p ih =>
    rw [List.map_cons, List.splitOnP_cons_eq_if_modifyHead, List.splitOnP_cons_eq_if_modifyHead, hsep, ih]
    split
    · rfl
    next h => rw [hf a (Bool.eq_false_iff.mpr h)]

theorem drive_map (p : List α) : drive P (p.map f) = drive P p := by
  match p with
  | [] => rfl
  | [a] => rfl
  | a :: b :: p =>
    have ha : P.isLetter (f a) = P.isLetter a ∧ (P.isLetter a = true → f a = a) := by
      cases hs : P.isSep a with
      | false =>
        rw [hf a hs]
        exact ⟨rfl, fun _ => rfl⟩
      | true =>
        have hnot : ∀ c, P.isSep c = true → P.isLetter c = false := fun c hc =>
          Bool.eq_false_iff.mpr fun h => by
            rw [P.letter_not_sep c h] at hc
            cases hc
        rw [hnot a hs, hnot (f a) ((hsep a).trans hs)]
        exact ⟨rfl, fun h => by cases h⟩
    have hb : f b = P.colon ↔ b = P.colon := by
      cases hs : P.isSep b with
      | false => rw [hf b hs]
      | true =>
        have hnot : ∀ c, P.isSep c = true → c ≠ P.colon := fun c hc h => by
          rw [h, P.colon_not_sep] at hc
          cases hc
        exact iff_of_false (hnot _ ((hsep b).trans hs)) (hnot b hs)
    simp only [List.map_cons, drive, ha.1, hb]
    split
    next h => rw [ha.2 h.1, hb.mpr h.2, h.2]
    next => rfl

theorem resolve_map (p : List α) : resolve P (p.map f) = resolve P p := by
  have hbody : body P (p.map f) = (body P p).map f := by rw [body, body, drive_map hsep hf, List.map_drop]
  have hany : ((body P p).map f).head?.any P.isSep = (body P p).head?.any P.isSep := by
    cases body P p with
    | nil => rfl
    | cons a q => exact hsep a
  rw [resolve, resolve, start, start, drive_map hsep hf, hbody, hany, splitOnP_map hsep hf]

end Map

/-! ## Inside -/

theorem inside_self (dir : List α) : Inside P dir dir := ⟨rfl, rfl, rfl, List.prefix_rfl⟩

theorem below_walk_iff {dir name : List α} (hdir : body P dir ≠ []) :
    (resolve P dir).Below ((resolve P dir).walk P (name.splitOnP P.isSep)) ↔ Stays P dir name := by
  rw [walk_eq, Location.Below, Stays, ← relative, and_iff_right hdir]
  simp only [Location.upDown, true_and]
  apply and_congr
  · cases (resolve P dir).rooted with
    | true => simp
    | false =>
      simp only [Bool.false_eq_true, if_false, false_or]
      omega
  · generalize (resolve P dir).names = ns, (relative P name).ups = k, (relative P name).names = ds
    have hns : ns = ns.take (ns.length - k) ++ ns.drop (ns.length - k) :=
      (List.take_append_drop ..).symm
    calc ns <+: ns.take (ns.length - k) ++ ds
        ↔ ns.take (ns.length - k) ++ ns.drop (ns.length - k) <+: ns.take (ns.length - k) ++ ds := by
          rw [← hns]
      _ ↔ ns.drop (ns.length - k) <+: ds := List.prefix_append_right_inj _

/-- **A path made of a folder and a name** leads into the folder exactly when the name stays there. -/
theorem inside_append_sep_iff {dir : List α} {c : α} (hc : P.isSep c = true) {name : List α} :
    Inside P dir (dir ++ c :: name) ↔ Stays P dir name := by
  by_cases hdir : body P dir = []
  · -- the path has a root that the folder has not
    refine iff_of_false (fun h => ?_) fun h => h.1 hdir
    have hrooted := h.2.1
    rw [resolve_rooted, resolve_rooted, body_append (drive_append_sep dir hc name), hdir] at hrooted
    simp [hc] at hrooted
  · rw [Inside, resolve_append_sep hdir hc, below_walk_iff hdir]

theorem inside_append_of_ends_iff {dir : List α} {c : α} (hdir : dir.getLast? = some c)
    (hc : P.isSep c = true) {name : List α} : Inside P dir (dir ++ name) ↔ Stays P dir name := by
  rw [Inside, resolve_append_of_ends hdir hc, below_walk_iff (body_ne_nil_of_ends hdir hc)]

end AppUtil.Lib.Paths
