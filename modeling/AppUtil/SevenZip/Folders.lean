import AppUtil.SevenZip.ZipLib
import AppUtil.Zip.Directories
import AppUtil.Zip.Extraction

/-! # Which folders `CreateComplexDirectory` tries

It goes outward from its argument until a folder can be created or is there, and comes back. Where the
output folder is there it does not go beyond it. -/
namespace AppUtil.SevenZip
open AppUtil.Lib AppUtil.Zip
set_option autoImplicit false

/-- Where both lead to the same place, by their text. -/
def LeadsTo (dir path : Path) : Prop := Paths.resolve windows path = Paths.resolve windows dir

instance (dir path : Path) : Decidable (LeadsTo dir path) := inferInstanceAs (Decidable (_ = _))

/-- The folder is there, or is created at once. -/
def Provides {σ : Type} (api : FileApi σ) (dir : Path) : Prop :=
  ∀ s path, LeadsTo dir path → (api.myCreateDirectory s path).1 ≠ .failed

/-- What `CreateComplexDirectory` tries if nothing can be created. -/
def tries (pathName : Path) : List Path :=
  if isDiskFolder pathName then [] else outward (withoutSlash pathName)

/-- Of these, the ones before `dir`. -/
def approach (dir pathName : Path) : List Path := (tries pathName).takeWhile fun p => ¬ LeadsTo dir p

theorem LeadsTo.inside {dir path : Path} (h : LeadsTo dir path) : Paths.Inside windows dir path := by
  rw [Paths.Inside, h]
  exact Paths.inside_self dir

/-! ## Positions -/

theorem length_lt_of_mem_aboveReversed {t q : Path} (h : q ∈ aboveReversed t) : q.length < t.length := by
  induction t with
  | nil => cases h
  | cons c t ih =>
    rw [aboveReversed] at h
    rw [List.length_cons]
    split at h
    · split at h
      · cases h
      · rcases List.mem_cons.mp h with rfl | h
        · rw [List.length_reverse]
          omega
        · exact Nat.lt_succ_of_lt (ih h)
    · exact Nat.lt_succ_of_lt (ih h)

theorem pairwise_aboveReversed (t : Path) : (aboveReversed t).Pairwise fun p q => q.length < p.length := by
  induction t with
  | nil => exact List.Pairwise.nil
  | cons c t ih =>
    rw [aboveReversed]
    split
    · split
      · exact List.Pairwise.nil
      · refine List.pairwise_cons.mpr ⟨fun q hq => ?_, ih⟩
        rw [List.length_reverse]
        exact length_lt_of_mem_aboveReversed hq
    · exact ih

theorem pairwise_outward (p : Path) : (outward p).Pairwise fun p q => q.length < p.length := by
  refine List.pairwise_cons.mpr ⟨fun q hq => ?_, pairwise_aboveReversed _⟩
  have hlt := length_lt_of_mem_aboveReversed hq
  rwa [List.length_reverse] at hlt

/-- On the way out no folder is left out. -/
theorem mem_aboveReversed_of_longer {t v q : Path} (h : q ∈ aboveReversed t) {u : Path}
    (ht : t = u ++ '\\' :: v) (hlen : q.length < v.length) : v.reverse ∈ aboveReversed t := by
  induction t generalizing u with
  | nil => cases h
  | cons c t ih =>
    rw [aboveReversed] at h ⊢
    cases u with
    | nil =>
      obtain ⟨rfl, rfl⟩ := List.cons.inj ht
      rw [if_pos rfl] at h ⊢
      split at h
      · cases h
      next hstop =>
        rw [if_neg hstop]
        exact List.mem_cons_self ..
    | cons d u =>
      have ht' : t = u ++ '\\' :: v := (List.cons.inj ht).2
      split at h
      · split at h
        · cases h
        next hc hstop =>
          rw [if_pos hc, if_neg hstop]
          rcases List.mem_cons.mp h with rfl | h
          · rw [List.length_reverse, ht', List.length_append, List.length_cons] at hlen
            omega
          · exact List.mem_cons_of_mem _ (ih h ht')
      next hc =>
        rw [if_neg hc]
        exact ih h ht'

theorem mem_outward_of_mem_inward {p q r : Path} (hq : q ∈ outward p) (hr : r ∈ inward q.length p) :
    r ∈ outward p ∧ q.length < r.length := by
  unfold inward at hr
  split at hr
  next hlt =>
    rcases List.mem_append.mp hr with hr | hr
    · obtain ⟨hsplit, hlen⟩ := List.mem_filter.mp hr
      have hlen' : q.length < r.length := of_decide_eq_true hlen
      obtain ⟨u, rest, rfl, hu⟩ := mem_splitDirs_iff.mp hsplit
      obtain rfl : r = u := hu
      rcases List.mem_cons.mp hq with rfl | hq
      · rw [List.length_append] at hlen'
        omega
      · refine ⟨List.mem_cons_of_mem _ ?_, hlen'⟩
        have hrev := mem_aboveReversed_of_longer hq (u := rest.reverse) (v := r.reverse) (by simp)
          (by rwa [List.length_reverse])
        rwa [List.reverse_reverse] at hrev
    · obtain rfl := List.mem_singleton.mp hr
      exact ⟨List.mem_cons_self .., hlt⟩
  next => cases hr

/-! ## The folders before `dir` -/

theorem mem_takeWhile_cons {dir p q : Path} {l : List Path} :
    q ∈ (p :: l).takeWhile (fun p => ¬ LeadsTo dir p) ↔
      ¬ LeadsTo dir p ∧ (q = p ∨ q ∈ l.takeWhile fun p => ¬ LeadsTo dir p) := by
  rw [List.takeWhile_cons]
  by_cases h : LeadsTo dir p <;> simp [h]

theorem eq_append_of_slash {p : Path} (h : '\\' ∈ p) :
    p = beforeLast p ++ '\\' :: afterLast p ∧ '\\' ∉ afterLast p := by
  have hmem : '\\' ∉ p.reverse.takeWhile (· ≠ '\\') := fun hc => by
    simpa using List.all_eq_true.mp List.all_takeWhile _ hc
  have hsplit : p.reverse.takeWhile (· ≠ '\\') ++ p.reverse.dropWhile (· ≠ '\\') = p.reverse :=
    List.takeWhile_append_dropWhile
  refine ⟨?_, by rw [afterLast, List.mem_reverse]; exact hmem⟩
  cases hd : p.reverse.dropWhile (· ≠ '\\') with
  | nil =>
    rw [hd, List.append_nil] at hsplit
    rw [hsplit, List.mem_reverse] at hmem
    exact absurd h hmem
  | cons c t =>
    obtain rfl : c = '\\' := by
      have hhead := List.head?_dropWhile_not (· ≠ '\\') p.reverse
      rw [hd] at hhead
      simpa using hhead
    have hrev := congrArg List.reverse hsplit
    rw [hd, List.reverse_reverse, List.reverse_append] at hrev
    rw [beforeLast, if_pos h, upToLast, hd, afterLast]
    calc p = ('\\' :: t).reverse ++ (p.reverse.takeWhile (· ≠ '\\')).reverse := hrev.symm
      _ = ('\\' :: t).reverse.dropLast ++ '\\' :: (p.reverse.takeWhile (· ≠ '\\')).reverse := by simp

theorem aboveReversed_append {l : Path} (hl : '\\' ∉ l) (t : Path) :
    aboveReversed (l ++ t) = aboveReversed t := by
  induction l with
  | nil => rfl
  | cons c l ih =>
    rw [List.mem_cons, not_or] at hl
    rw [List.cons_append, aboveReversed, if_neg fun h => hl.1 h.symm]
    exact ih hl.2

theorem outward_append {p last : Path} (hlast : '\\' ∉ last) :
    outward (p ++ '\\' :: last) = (p ++ '\\' :: last) ::
      if p = [] ∨ p.getLast? = some ':' then [] else outward p := by
  have hl : '\\' ∉ last.reverse := by rwa [List.mem_reverse]
  rw [outward, List.reverse_append, List.reverse_cons, List.append_assoc, aboveReversed_append hl,
    List.singleton_append, aboveReversed, if_pos rfl, List.reverse_reverse]
  simp only [List.reverse_eq_nil_iff, List.head?_reverse]
  rfl

theorem body_ne_nil {p : Path} (hp : p ≠ []) (hcolon : p.getLast? ≠ some ':') :
    Paths.body windows p ≠ [] := by
  intro h
  obtain ⟨a, rfl⟩ := Paths.eq_drive_of_body hp h
  exact hcolon rfl

theorem body_ne_nil_of_disk {p : Path} (hp : p ≠ []) (hdisk : ¬ isDiskFolder (p ++ ['\\']) = true) :
    Paths.body windows p ≠ [] := by
  intro h
  obtain ⟨a, rfl⟩ := Paths.eq_drive_of_body hp h
  exact hdisk rfl

theorem getLast?_of_disk {p : Path} (h : isDiskFolder (p ++ ['\\']) = true) : p.getLast? = some ':' := by
  simp only [isDiskFolder, List.length_append, List.length_singleton, Bool.and_eq_true,
    decide_eq_true_eq] at h
  obtain ⟨⟨hlen, hcolon⟩, -⟩ := h
  match p, hlen with
  | [a, b], _ => exact hcolon

theorem withoutSlash_append {p : Path} (hp : p ≠ []) : withoutSlash (p ++ ['\\']) = p := by
  have hlen : 1 < (p ++ ['\\']).length := by
    rw [List.length_append]
    exact Nat.lt_add_of_pos_left (List.length_pos_iff.mpr hp)
  rw [withoutSlash, if_pos ⟨List.getLast?_concat, hlen⟩, List.dropLast_concat]

theorem withoutSlash_of_ne {p : Path} (h : p.getLast? ≠ some '\\') : withoutSlash p = p :=
  if_neg fun hc => h hc.1

theorem isDiskFolder_of_ne {p : Path} (h : p.getLast? ≠ some '\\') : isDiskFolder p = false := by
  simp [isDiskFolder, h]

/-- The folder of a path comes next, unless it is no more than a drive. -/
theorem mem_approach_append {dir p last q : Path} (hlast : '\\' ∉ last)
    (hq : q ∈ approach dir (p ++ '\\' :: last)) :
    q = p ++ '\\' :: last ∨ Paths.body windows p ≠ [] ∧ ¬ LeadsTo dir (p ++ '\\' :: last) ∧
      q ∈ (outward p).takeWhile fun p => ¬ LeadsTo dir p := by
  rw [approach, tries] at hq
  split at hq
  next => cases hq
  next hdisk =>
    by_cases hend : last = [] ∧ p ≠ []
    · obtain ⟨rfl, hp⟩ := hend
      rw [withoutSlash_append hp] at hq
      have hbody := body_ne_nil_of_disk hp hdisk
      refine .inr ⟨hbody, ?_, hq⟩
      rw [LeadsTo, Paths.resolve_append_singleton hbody rfl]
      exact (mem_takeWhile_cons.mp hq).1
    · have hkeep : withoutSlash (p ++ '\\' :: last) = p ++ '\\' :: last := by
        rcases List.eq_nil_or_concat last with rfl | ⟨init, c, rfl⟩
        · obtain rfl : p = [] := by
            by_contra hp
            exact hend ⟨rfl, hp⟩
          rfl
        · rw [List.concat_eq_append] at hlast ⊢
          refine withoutSlash_of_ne fun h => hlast (List.mem_append_right _ ?_)
          rw [← List.cons_append, ← List.append_assoc, List.getLast?_concat] at h
          exact List.mem_singleton.mpr (Option.some.inj h).symm
      rw [hkeep, outward_append hlast, mem_takeWhile_cons] at hq
      rcases hq.2 with h | h
      · exact .inl h
      · split at h
        next => cases h
        next hstop =>
          rw [not_or] at hstop
          exact .inr ⟨body_ne_nil hstop.1 hstop.2, hq.1, h⟩

/-- The folders before `dir`, from a folder on. -/
theorem mem_takeWhile_outward {dir p q : Path}
    (hq : q ∈ (outward p).takeWhile fun p => ¬ LeadsTo dir p) : q = p ∨ q ∈ approach dir p := by
  by_cases hend : p.getLast? = some '\\'
  · obtain ⟨h, rfl⟩ := List.getLast?_eq_some_iff.mp hend
    rw [outward_append (List.not_mem_nil), mem_takeWhile_cons] at hq
    refine hq.2.imp_right fun hq => ?_
    split at hq
    next => cases hq
    next hstop =>
      rw [not_or] at hstop
      rw [approach, tries, if_neg fun hdisk => hstop.2 (getLast?_of_disk hdisk),
        withoutSlash_append hstop.1]
      exact hq
  · right
    rw [approach, tries, isDiskFolder_of_ne hend, withoutSlash_of_ne hend]
    exact hq

theorem normalizeDirPathPrefix_eq {dir : Path} (hdir : dir ≠ []) :
    ∃ p, normalizeDirPathPrefix dir = p ++ ['\\'] ∧ (Paths.body windows p ≠ [] → LeadsTo dir p) := by
  rw [normalizeDirPathPrefix, if_neg hdir]
  split
  next h =>
    obtain ⟨p, rfl⟩ := List.getLast?_eq_some_iff.mp h
    exact ⟨p, rfl, fun hp => (Paths.resolve_append_singleton hp rfl).symm⟩
  next => exact ⟨dir, rfl, fun _ => rfl⟩

/-- Before the output folder come the path itself, its folder, and what comes before it from there. -/
theorem mem_approach_full {dir name q : Path} (hq : q ∈ approach dir (normalizeDirPathPrefix dir ++ name)) :
    q = normalizeDirPathPrefix dir ++ name ∨ '\\' ∈ name ∧
      Paths.body windows (normalizeDirPathPrefix dir ++ beforeLast name) ≠ [] ∧
      ¬ LeadsTo dir (normalizeDirPathPrefix dir ++ name) ∧
      (q = normalizeDirPathPrefix dir ++ beforeLast name ∨
        q ∈ approach dir (normalizeDirPathPrefix dir ++ beforeLast name)) := by
  by_cases hname : '\\' ∈ name
  · obtain ⟨heq, hlast⟩ := eq_append_of_slash hname
    have hfull : normalizeDirPathPrefix dir ++ name =
        (normalizeDirPathPrefix dir ++ beforeLast name) ++ '\\' :: afterLast name := by
      rw [List.append_assoc, ← heq]
    rw [hfull] at hq ⊢
    refine (mem_approach_append hlast hq).imp_right fun ⟨hbody, hne, h⟩ => ?_
    exact ⟨hname, hbody, hne, mem_takeWhile_outward h⟩
  · left
    by_cases hdir : dir = []
    · subst hdir
      have hend : name.getLast? ≠ some '\\' := fun h => hname (List.mem_of_getLast? h)
      have hrev : aboveReversed name.reverse = [] := by
        rw [← List.append_nil name.reverse, aboveReversed_append (by rwa [List.mem_reverse])]
        rfl
      rw [normalizeDirPathPrefix, if_pos rfl, List.nil_append, approach, tries, isDiskFolder_of_ne hend,
        withoutSlash_of_ne hend, outward, hrev] at hq
      exact ((mem_takeWhile_cons.mp hq).2).resolve_right fun h => by cases h
    · obtain ⟨p, hp, hlead⟩ := normalizeDirPathPrefix_eq hdir
      rw [hp, List.append_assoc, List.singleton_append] at hq ⊢
      refine (mem_approach_append hname hq).resolve_right fun ⟨hbody, _, h⟩ => ?_
      rw [outward, mem_takeWhile_cons] at h
      exact h.1 (hlead hbody)

/-! ## What is tried -/

section Effects
variable {σ : Type} {api : FileApi σ} {dir : Path}

/-- The first loop tries the folders in their order and stops at `dir`. -/
theorem climb_spec (hapi : Provides api dir) (l : List Path) (s : σ) :
    ∃ tried rest, l = tried ++ rest ∧ (climb api l s).1 = tried.map .myCreateDirectory ∧
      (∀ q ∈ tried, LeadsTo dir q ∨ q ∈ l.takeWhile fun p => ¬ LeadsTo dir p) ∧
      ∀ pos, (climb api l s).2.1 = .ok pos → ∃ before q, tried = before ++ [q] ∧ q.length = pos := by
  induction l generalizing s with
  | nil => exact ⟨[], [], rfl, rfl, by simp, fun pos h => by cases h⟩
  | cons p l ih =>
    have hfirst : LeadsTo dir p ∨ p ∈ (p :: l).takeWhile fun p => ¬ LeadsTo dir p := by
      rw [mem_takeWhile_cons]
      by_cases h : LeadsTo dir p
      · exact .inl h
      · exact .inr ⟨h, .inl rfl⟩
    cases hx : api.myCreateDirectory s p with
    | mk result s₁ =>
      cases result with
      | created =>
        refine ⟨[p], l, rfl, by simp [climb, hx], by simpa using hfirst, fun pos h => ⟨[], p, rfl, ?_⟩⟩
        simpa [climb, hx] using h
      | alreadyExists =>
        refine ⟨[p], l, rfl, by simp [climb, hx], by simpa using hfirst, fun pos h => ⟨[], p, rfl, ?_⟩⟩
        rw [climb, hx] at h
        dsimp only at h
        split at h <;> cases h
        rfl
      | failed =>
        obtain ⟨tried, rest, rfl, heff, htried, hpos⟩ := ih s₁
        have hnot : ¬ LeadsTo dir p := fun h => hapi s p h (by rw [hx])
        refine ⟨p :: tried, rest, rfl, by simp [climb, hx, heff], ?_, fun pos h => ?_⟩
        · intro q hq
          rw [mem_takeWhile_cons]
          rcases List.mem_cons.mp hq with rfl | hq
          · exact .inr ⟨hnot, .inl rfl⟩
          · exact (htried q hq).imp_right fun h => ⟨hnot, .inr h⟩
        · rw [climb, hx] at h
          obtain ⟨before, q, rfl, hq⟩ := hpos pos h
          exact ⟨p :: before, q, rfl, hq⟩

theorem exists_of_mem_descend {l : List Path} {s : σ} {e : Effect} (he : e ∈ (descend api l s).1) :
    ∃ q ∈ l, e = .myCreateDirectory q := by
  induction l generalizing s with
  | nil => cases he
  | cons p l ih =>
    have here : e = .myCreateDirectory p → ∃ q ∈ p :: l, e = .myCreateDirectory q := fun h =>
      ⟨p, List.mem_cons_self .., h⟩
    rw [descend] at he
    split at he
    next s₁ _ =>
      rcases List.mem_cons.mp he with h | h
      · exact here h
      · obtain ⟨q, hq, heq⟩ := ih h
        exact ⟨q, List.mem_cons_of_mem p hq, heq⟩
    next => exact here (List.mem_singleton.mp he)

/-- **What `CreateComplexDirectory` tries** is in `dir` if its argument is and the folders before `dir`
are. -/
theorem createComplexDirectory_inside (hapi : Provides api dir) {p : Path}
    (hp : Paths.Inside windows dir p) (happroach : ∀ q ∈ approach dir p, Paths.Inside windows dir q)
    {s : σ} {e : Effect} (he : e ∈ (createComplexDirectory api p s).1) :
    Paths.Inside windows dir e.path := by
  unfold createComplexDirectory at he
  split at he
  next =>
    obtain rfl := List.mem_singleton.mp he
    exact hp
  next hdisk =>
    rw [approach, tries, if_neg hdisk] at happroach
    obtain ⟨tried, rest, hl, heff, htried, hpos⟩ := climb_spec hapi (outward (withoutSlash p)) s
    have hin : ∀ q ∈ tried, Paths.Inside windows dir q := fun q hq =>
      (htried q hq).elim LeadsTo.inside (happroach q)
    have hclimb : ∀ e' ∈ tried.map Effect.myCreateDirectory, Paths.Inside windows dir e'.path := by
      intro e' h
      obtain ⟨q, hq, rfl⟩ := List.mem_map.mp h
      exact hin q hq
    dsimp only at he
    split at he
    next tried' r s₁ hx =>
      obtain rfl : tried' = tried.map .myCreateDirectory := by rw [← heff, hx]
      rcases List.mem_cons.mp he with rfl | he
      · exact hp
      · exact hclimb e he
    next tried' pos s₁ hx =>
      obtain rfl : tried' = tried.map .myCreateDirectory := by rw [← heff, hx]
      obtain ⟨before, q, rfl, rfl⟩ := hpos pos (by rw [hx])
      rcases List.mem_append.mp he with he | he
      · rcases List.mem_cons.mp he with rfl | he
        · exact hp
        · exact hclimb e he
      · -- what is tried on the way back was tried on the way out
        obtain ⟨r, hr, rfl⟩ := exists_of_mem_descend he
        have hq : q ∈ outward (withoutSlash p) := by
          rw [hl]
          simp
        obtain ⟨hmem, hlen⟩ := mem_outward_of_mem_inward hq hr
        have hsorted := pairwise_outward (withoutSlash p)
        rw [hl] at hmem hsorted
        apply hin r
        rcases List.mem_append.mp hmem with h | h
        · exact h
        · have hlt := (List.pairwise_append.mp hsorted).2.2 q (by simp) r h
          omega

end Effects

/-! ## A file system in which nothing but `dir` is there and no folder can be created -/

def refusing (dir : Path) : FileApi Unit where
  myCreateDirectory _ path := (if LeadsTo dir path then .alreadyExists else .failed, ())
  find _ _ := none
  deleteFileAlways _ _ := (true, ())
  openAlways _ _ := some ()

theorem refusing_provides (dir : Path) : Provides (refusing dir) dir := by
  intro s path h
  simp [refusing, h]

theorem climb_refusing {dir q : Path} {l : List Path}
    (hq : q ∈ l.takeWhile fun p => ¬ LeadsTo dir p) :
    .myCreateDirectory q ∈ (climb (refusing dir) l ()).1 := by
  induction l with
  | nil => cases hq
  | cons p l ih =>
    obtain ⟨hp, hq⟩ := mem_takeWhile_cons.mp hq
    have hx : (refusing dir).myCreateDirectory () p = (.failed, ()) := by simp [refusing, hp]
    rw [climb, hx]
    rcases hq with rfl | hq
    · exact List.mem_cons_self ..
    · exact List.mem_cons_of_mem _ (ih hq)

theorem createComplexDirectory_refusing {dir p q : Path} (hq : q ∈ approach dir p) :
    .myCreateDirectory q ∈ (createComplexDirectory (refusing dir) p ()).1 := by
  rw [approach, tries] at hq
  unfold createComplexDirectory
  split at hq
  next => cases hq
  next hdisk =>
    have hmem := climb_refusing hq
    rw [if_neg hdisk]
    dsimp only
    split
    next hx =>
      rw [hx] at hmem
      exact List.mem_cons_of_mem _ hmem
    next hx =>
      rw [hx] at hmem
      exact List.mem_append_left _ (List.mem_cons_of_mem _ hmem)

end AppUtil.SevenZip
