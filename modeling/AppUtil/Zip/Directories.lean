import Mathlib.Data.List.Basic
import Mathlib.Data.List.DropRight
import Mathlib.Tactic.Common
import AppUtil.Zip.ZipTools

/-! # What `CreatedMultipleDirectory` makes and says

The result is what happened to the last of the folders: a folder that is there already makes it
`false`. A path that begins with `\` begins with the empty string, which cannot be made. -/
namespace AppUtil.Zip
set_option autoImplicit false

/-! ## The list of folders -/

/-- `strDir`. -/
def strDirOf (szPath : Path) : Path :=
  if szPath.getLast? = some '\\' then szPath else szPath ++ ['\\']

/-- The folders of a path, from the outside to the inside. -/
def vPathOf (szPath : Path) : List Path := splitDirs [] (strDirOf szPath)

theorem mem_splitDirs_iff {p q : Path} {pre : Path} :
    q ∈ splitDirs pre p ↔ ∃ u rest, p = u ++ '\\' :: rest ∧ q = pre ++ u := by
  induction p generalizing pre with
  | nil => simp [splitDirs]
  | cons c p ih =>
    have hcons : (∃ u rest, c :: p = u ++ '\\' :: rest ∧ q = pre ++ u) ↔
        (c = '\\' ∧ q = pre) ∨ ∃ u rest, p = u ++ '\\' :: rest ∧ q = pre ++ [c] ++ u := by
      constructor
      · rintro ⟨u, rest, h, rfl⟩
        cases u with
        | nil =>
          left
          cases h
          exact ⟨rfl, List.append_nil pre⟩
        | cons d u =>
          right
          cases h
          exact ⟨u, rest, rfl, by simp⟩
      · rintro (⟨rfl, rfl⟩ | ⟨u, rest, rfl, rfl⟩)
        · exact ⟨[], p, rfl, (List.append_nil q).symm⟩
        · exact ⟨c :: u, rest, rfl, by simp⟩
    rw [hcons, splitDirs]
    split
    next hc => rw [ih, or_iff_right fun h => hc h.1]
    next hc =>
      have hc' : c = '\\' := not_not.mp hc
      rw [List.mem_cons, ih, and_iff_right hc']

/-- One folder is above another. -/
def Above (p q : Path) : Prop := p <+: q ∧ p.length < q.length

theorem splitDirs_pairwise (pre p : Path) : (splitDirs pre p).Pairwise Above := by
  induction p generalizing pre with
  | nil => exact List.Pairwise.nil
  | cons c p ih =>
    unfold splitDirs
    split
    · exact ih (pre ++ [c])
    · refine List.pairwise_cons.mpr ⟨fun q hq => ?_, ih (pre ++ [c])⟩
      obtain ⟨u, rest, -, rfl⟩ := mem_splitDirs_iff.mp hq
      rw [List.append_assoc]
      refine ⟨List.prefix_append .., ?_⟩
      rw [List.length_append, List.length_append, List.length_singleton]
      omega

theorem mem_vPathOf {szPath q : Path} : q ∈ vPathOf szPath ↔ q ++ ['\\'] <+: strDirOf szPath := by
  unfold vPathOf
  rw [mem_splitDirs_iff]
  constructor
  · rintro ⟨u, rest, h, rfl⟩
    exact ⟨rest, by rw [h, List.append_assoc]; rfl⟩
  · rintro ⟨rest, h⟩
    exact ⟨q, rest, by rw [← h, List.append_assoc]; rfl, rfl⟩

theorem vPathOf_ne_nil (szPath : Path) : vPathOf szPath ≠ [] := by
  have hlast : ∃ q, strDirOf szPath = q ++ ['\\'] := by
    unfold strDirOf
    split
    next h => exact ⟨szPath.dropLast, (List.dropLast_append_getLast? _ h).symm⟩
    next => exact ⟨szPath, rfl⟩
  obtain ⟨q, hq⟩ := hlast
  refine List.ne_nil_of_mem (mem_vPathOf.mpr ?_ : q ∈ vPathOf szPath)
  exact ⟨[], by rw [List.append_nil, hq]⟩

/-! ## The folders that are made -/

section Making
variable {σ : Type} {ops : FileOps σ}

/-- What holds of `DTK_AccessFile` and `DTK_MakeDir` where nobody else changes anything and only
folders are there: a folder that was made is there, one that is there stays, a separator at the end
makes no difference, and the empty string is no path. -/
structure FolderLaws (ops : FileOps σ) : Prop where
  made : ∀ s p s', ops.makeDir s p = some s' → ops.accessFile s' p = true
  kept : ∀ s p s' q, ops.makeDir s p = some s' → ops.accessFile s q = true →
    ops.accessFile s' q = true
  slash : ∀ s p, p ≠ [] → p.head? ≠ some '\\' → ops.accessFile s (p ++ ['\\']) = ops.accessFile s p
  empty : ∀ s, ops.accessFile s [] = false ∧ ops.makeDir s [] = none

/-- The calls of `DTK_MakeDir` in `makeDirs`, each with the state in which it is made. -/
def makeDirCalls (ops : FileOps σ) : List Path → σ → List (Path × σ)
  | [], _ => []
  | path :: rest, s =>
    if ops.accessFile s path then makeDirCalls ops rest s
    else (path, s) :: (ops.makeDir s path).elim [] (makeDirCalls ops rest)

/-- Each folder of the list is there, or is made when its turn comes. -/
inductive Makes (ops : FileOps σ) : List Path → σ → σ → Prop
  | done (s : σ) : Makes ops [] s s
  | there {path : Path} {rest : List Path} {s t : σ} (h : ops.accessFile s path = true)
      (hrest : Makes ops rest s t) : Makes ops (path :: rest) s t
  | made {path : Path} {rest : List Path} {s s' t : σ} (h : ops.accessFile s path = false)
      (hmake : ops.makeDir s path = some s') (hrest : Makes ops rest s' t) :
      Makes ops (path :: rest) s t

/-- A missing folder cannot be made when its turn comes. -/
def Blocked (ops : FileOps σ) (paths : List Path) (s : σ) : Prop :=
  ∃ pre path post t, paths = pre ++ path :: post ∧ Makes ops pre s t ∧
    ops.accessFile t path = false ∧ ops.makeDir t path = none

/-- The state after the loop is the one after the last call that succeeds. -/
theorem makeDirs_state (b : Bool) (paths : List Path) (s : σ) :
    (makeDirs ops b paths s).2 =
      (makeDirCalls ops paths s).foldl (fun t call => (ops.makeDir call.2 call.1).getD t) s := by
  induction paths generalizing b s with
  | nil => rfl
  | cons path rest ih =>
    unfold makeDirs makeDirCalls
    cases hthere : ops.accessFile s path with
    | true => exact ih false s
    | false =>
      cases hmake : ops.makeDir s path with
      | none => simp [hmake]
      | some s' =>
        simp only [Bool.false_eq_true, if_false, Option.elim_some, List.foldl_cons, hmake,
          Option.getD_some]
        exact ih true s'

theorem makeDirCalls_sublist (paths : List Path) (s : σ) :
    List.Sublist ((makeDirCalls ops paths s).map Prod.fst) paths := by
  induction paths generalizing s with
  | nil => exact List.Sublist.refl []
  | cons path rest ih =>
    unfold makeDirCalls
    split
    · exact (ih s).cons path
    · cases ops.makeDir s path with
      | none => exact (List.nil_sublist rest).cons_cons path
      | some s' => exact (ih s').cons_cons path

theorem makeDirCalls_missing {paths : List Path} {s : σ} :
    ∀ call ∈ makeDirCalls ops paths s, ops.accessFile call.2 call.1 = false := by
  induction paths generalizing s with
  | nil => exact fun call h => absurd h List.not_mem_nil
  | cons path rest ih =>
    intro call h
    unfold makeDirCalls at h
    cases hthere : ops.accessFile s path with
    | true =>
      rw [hthere] at h
      exact ih call h
    | false =>
      rw [hthere] at h
      rcases List.mem_cons.mp h with rfl | h
      · exact hthere
      · cases hmake : ops.makeDir s path with
        | none =>
          rw [hmake] at h
          exact absurd h List.not_mem_nil
        | some s' =>
          rw [hmake] at h
          exact ih call h

theorem Makes.kept (laws : FolderLaws ops) {paths : List Path} {s t : σ} (h : Makes ops paths s t)
    {q : Path} (hq : ops.accessFile s q = true) : ops.accessFile t q = true := by
  induction h with
  | done => exact hq
  | there _ _ ih => exact ih hq
  | made _ hmake _ ih => exact ih (laws.kept _ _ _ _ hmake hq)

theorem Makes.all_there (laws : FolderLaws ops) {paths : List Path} {s t : σ} (h : Makes ops paths s t) :
    ∀ q ∈ paths, ops.accessFile t q = true := by
  induction h with
  | done => exact fun q hq => absurd hq List.not_mem_nil
  | there h hrest ih =>
    intro q hq
    rcases List.mem_cons.mp hq with rfl | hq
    · exact hrest.kept laws h
    · exact ih q hq
  | made _ hmake hrest ih =>
    intro q hq
    rcases List.mem_cons.mp hq with rfl | hq
    · exact hrest.kept laws (laws.made _ _ _ hmake)
    · exact ih q hq

/-- The loop gets through, or stops at the folder that cannot be made. -/
theorem makeDirs_cases (ops : FileOps σ) (b : Bool) (paths : List Path) (s : σ) :
    Makes ops paths s (makeDirs ops b paths s).2 ∨
      (makeDirs ops b paths s).1 = false ∧ ∃ pre path post, paths = pre ++ path :: post ∧
        Makes ops pre s (makeDirs ops b paths s).2 ∧
        ops.accessFile (makeDirs ops b paths s).2 path = false ∧
        ops.makeDir (makeDirs ops b paths s).2 path = none := by
  induction paths generalizing b s with
  | nil => exact .inl (.done s)
  | cons path rest ih =>
    unfold makeDirs
    cases hthere : ops.accessFile s path with
    | true =>
      simp only [if_true]
      rcases ih false s with h | ⟨hr, pre, q, post, rfl, hpre, hq, hmake⟩
      · exact .inl (.there hthere h)
      · exact .inr ⟨hr, path :: pre, q, post, rfl, .there hthere hpre, hq, hmake⟩
    | false =>
      simp only [Bool.false_eq_true, if_false]
      cases hmake : ops.makeDir s path with
      | none => exact .inr ⟨rfl, [], path, rest, rfl, .done s, hthere, hmake⟩
      | some s' =>
        rcases ih true s' with h | ⟨hr, pre, q, post, rfl, hpre, hq, hno⟩
        · exact .inl (.made hthere hmake h)
        · exact .inr ⟨hr, path :: pre, q, post, rfl, .made hthere hmake hpre, hq, hno⟩

theorem makeDirs_there {b : Bool} {paths : List Path} {s : σ} (hne : paths ≠ [])
    (h : ∀ q ∈ paths, ops.accessFile s q = true) : makeDirs ops b paths s = (false, s) := by
  induction paths generalizing b with
  | nil => exact absurd rfl hne
  | cons path rest ih =>
    unfold makeDirs
    rw [if_pos (h path (List.mem_cons_self ..))]
    cases rest with
    | nil => rfl
    | cons q rest => exact ih (List.cons_ne_nil q rest) fun r hr => h r (List.mem_cons_of_mem path hr)

end Making

/-! ## The answer -/

section Answer
variable {σ : Type} {ops : FileOps σ} {szPath : Path} {s : σ}

/-- The path exists: every prefix of it that ends with a separator does. -/
def PathExists (ops : FileOps σ) (szPath : Path) (s : σ) : Prop :=
  ∀ q, q ++ ['\\'] <+: strDirOf szPath → ops.accessFile s (q ++ ['\\']) = true

/-- No exception; the answer is whether the path exists afterwards; folders are made only where they
are missing, those above before those below; and the answer is `true` again when the path has been
created. -/
def CreatesPath (ops : FileOps σ) (szPath : Path) (s : σ) : Prop :=
  ∃ bSuccess s', createdMultipleDirectory ops szPath s = .ok (bSuccess, s') ∧
    (bSuccess = true ↔ PathExists ops szPath s') ∧
    (∀ call ∈ makeDirCalls ops (vPathOf szPath) s, ops.accessFile call.2 call.1 = false) ∧
    ((makeDirCalls ops (vPathOf szPath) s).map Prod.fst).Pairwise Above ∧
    (bSuccess = true → ∃ s'', createdMultipleDirectory ops szPath s' = .ok (true, s''))

theorem createdMultipleDirectory_eq (h : szPath ≠ []) (s : σ) :
    createdMultipleDirectory ops szPath s = .ok (makeDirs ops false (vPathOf szPath) s) := if_neg h

theorem vPathOf_rooted (h : szPath.head? = some '\\') : ∃ rest, vPathOf szPath = [] :: rest := by
  cases szPath with
  | nil => cases h
  | cons c path =>
    obtain rfl : c = '\\' := Option.some.inj h
    unfold vPathOf strDirOf
    split
    · exact ⟨_, rfl⟩
    · exact ⟨_, rfl⟩

theorem nil_mem_vPathOf (h : szPath.head? = some '\\') : [] ∈ vPathOf szPath := by
  obtain ⟨rest, hrest⟩ := vPathOf_rooted h
  rw [hrest]
  exact List.mem_cons_self ..

theorem makeDirs_rooted (laws : FolderLaws ops) (h : szPath.head? = some '\\') (s : σ) :
    makeDirs ops false (vPathOf szPath) s = (false, s) := by
  obtain ⟨rest, hrest⟩ := vPathOf_rooted h
  obtain ⟨hno, hmake⟩ := laws.empty s
  rw [hrest]
  unfold makeDirs
  simp only [hno, Bool.false_eq_true, if_false, hmake]

/-- The last folder of the list is the path itself, without the separator at its end. -/
theorem vPathOf_last (szPath : Path) :
    ∃ outer q, vPathOf szPath = outer ++ [q] ∧ (q = szPath ∨ q ++ ['\\'] = szPath) := by
  have hsplit : ∀ pre q : Path, ∃ outer, splitDirs pre (q ++ ['\\']) = outer ++ [pre ++ q] := by
    intro pre q
    induction q generalizing pre with
    | nil => exact ⟨[], by simp [splitDirs]⟩
    | cons c q ih =>
      obtain ⟨outer, h⟩ := ih (pre ++ [c])
      rw [List.append_assoc, List.singleton_append] at h
      rw [List.cons_append, splitDirs]
      split
      · exact ⟨outer, h⟩
      · exact ⟨pre :: outer, by rw [h]; rfl⟩
  have hdir : ∃ q, strDirOf szPath = q ++ ['\\'] ∧ (q = szPath ∨ q ++ ['\\'] = szPath) := by
    unfold strDirOf
    split
    next h =>
      have hq := List.dropLast_append_getLast? _ h
      exact ⟨szPath.dropLast, hq.symm, .inr hq⟩
    next => exact ⟨szPath, rfl, .inl rfl⟩
  obtain ⟨q, hq, hself⟩ := hdir
  obtain ⟨outer, houter⟩ := hsplit [] q
  exact ⟨outer, q, by unfold vPathOf; rw [hq, houter]; rfl, hself⟩

theorem makeDirs_last_there (laws : FolderLaws ops) {outer : List Path} {q : Path} {b : Bool}
    (h : ops.accessFile s q = true) : (makeDirs ops b (outer ++ [q]) s).1 = false := by
  induction outer generalizing b s with
  | nil =>
    rw [List.nil_append, makeDirs, if_pos h]
    rfl
  | cons path outer ih =>
    rw [List.cons_append, makeDirs]
    split
    · exact ih h
    · split
      · rfl
      next s' hmake => exact ih (laws.kept _ _ _ _ hmake h)

theorem plain_of_mem_vPathOf (hne : szPath ≠ []) (h : szPath.head? ≠ some '\\') {q : Path}
    (hq : q ∈ vPathOf szPath) : q ≠ [] ∧ q.head? ≠ some '\\' := by
  obtain ⟨rest, hrest⟩ := mem_vPathOf.mp hq
  have hhead : (strDirOf szPath).head? = szPath.head? := by
    unfold strDirOf
    split
    · rfl
    · exact List.head?_append_of_ne_nil szPath hne
  rw [← hhead, ← hrest] at h
  cases q with
  | nil => exact absurd rfl h
  | cons c q => exact ⟨List.cons_ne_nil c q, h⟩

/-- Of a folder that is there the answer is always `false`. -/
theorem makeDirs_denies (laws : FolderLaws ops) (h : ops.accessFile s szPath = true) :
    (makeDirs ops false (vPathOf szPath) s).1 = false := by
  obtain ⟨outer, q, hsplit, hq⟩ := vPathOf_last szPath
  have hne : q ≠ [] → q.head? ≠ some '\\' → ops.accessFile s q = true := by
    intro hne hplain
    rcases hq with rfl | rfl
    · exact h
    · exact (laws.slash s q hne hplain).symm.trans h
  by_cases hroot : szPath.head? = some '\\'
  · rw [makeDirs_rooted laws hroot]
  · have hszPath : szPath ≠ [] := by
      rintro rfl
      rw [(laws.empty s).1] at h
      cases h
    have hmem : q ∈ vPathOf szPath := by
      rw [hsplit]
      exact List.mem_append_right outer (List.mem_singleton.mpr rfl)
    obtain ⟨hq₁, hq₂⟩ := plain_of_mem_vPathOf hszPath hroot hmem
    rw [hsplit]
    exact makeDirs_last_there laws (hne hq₁ hq₂)

theorem pathExists_iff (laws : FolderLaws ops) (hne : szPath ≠ []) (h : szPath.head? ≠ some '\\') :
    PathExists ops szPath s ↔ ∀ q ∈ vPathOf szPath, ops.accessFile s q = true := by
  refine forall_congr' fun q => ?_
  rw [mem_vPathOf]
  refine forall_congr' fun hq => ?_
  obtain ⟨hq₁, hq₂⟩ := plain_of_mem_vPathOf hne h (mem_vPathOf.mpr hq)
  rw [laws.slash s q hq₁ hq₂]

theorem not_makes_of_blocked {paths : List Path} {t : σ}
    (hb : Blocked ops paths s) : ¬ Makes ops paths s t := by
  obtain ⟨pre, path, post, u, rfl, hpre, hno, hmake⟩ := hb
  intro h
  induction hpre with
  | done =>
    cases h with
    | there hthere => rw [hno] at hthere; cases hthere
    | made _ hmake' => rw [hmake] at hmake'; cases hmake'
  | there hthere _ ih =>
    cases h with
    | there _ hrest => exact ih hno hmake hrest
    | made hno' => rw [hthere] at hno'; cases hno'
  | made hmissing hmade _ ih =>
    cases h with
    | there hthere => rw [hmissing] at hthere; cases hthere
    | made _ hmade' hrest =>
      obtain rfl := Option.some.inj (hmade.symm.trans hmade')
      exact ih hno hmake hrest

/-- **When `CreatedMultipleDirectory` tells the truth**: only where it does not create the path,
because a missing folder cannot be made. -/
theorem createsPath_iff (laws : FolderLaws ops) :
    CreatesPath ops szPath s ↔
      szPath ≠ [] ∧ Blocked ops (vPathOf szPath) s ∧ ¬ PathExists ops szPath s := by
  have hkeeps : ∀ {paths t}, Makes ops paths s t → PathExists ops szPath s → PathExists ops szPath t :=
    fun hm hall q hq => hm.kept laws (hall q hq)
  constructor
  · rintro ⟨bSuccess, s', hrun, hanswer, -, -, hagain⟩
    have hne : szPath ≠ [] := by
      rintro rfl
      cases hrun
    rw [createdMultipleDirectory_eq hne] at hrun hagain
    have hrun' := Except.ok.inj hrun
    have hcases := makeDirs_cases ops false (vPathOf szPath) s
    rw [hrun'] at hcases
    rcases hcases with hm | ⟨hfalse, pre, path, post, hsplit, hpre, hmissing, hmake⟩
    · -- everything is there afterwards, so that a second call says `false`
      have hall := hm.all_there laws
      have hplain : szPath.head? ≠ some '\\' := by
        intro hroot
        have hthere := hall [] (nil_mem_vPathOf hroot)
        rw [(laws.empty s').1] at hthere
        cases hthere
      obtain ⟨s'', h⟩ := hagain (hanswer.mpr ((pathExists_iff laws hne hplain).mpr hall))
      rw [makeDirs_there (vPathOf_ne_nil szPath) hall] at h
      cases h
    · refine ⟨hne, ⟨pre, path, post, s', hsplit, hpre, hmissing, hmake⟩, fun hall => ?_⟩
      have htrue : bSuccess = true := hanswer.mpr (hkeeps hpre hall)
      exact absurd (hfalse.symm.trans htrue) (by decide)
  · rintro ⟨hne, hb, hnot⟩
    rcases makeDirs_cases ops false (vPathOf szPath) s with
      hm | ⟨hfalse, pre, path, post, hsplit, hpre, hmissing, hmake⟩
    · exact absurd hm (not_makes_of_blocked hb)
    have hnot' : ¬ PathExists ops szPath (makeDirs ops false (vPathOf szPath) s).2 := by
      by_cases hroot : szPath.head? = some '\\'
      · rw [makeDirs_rooted laws hroot]
        exact hnot
      · intro hall
        have hmem : path ∈ vPathOf szPath := by
          rw [hsplit]
          exact List.mem_append_right pre (List.mem_cons_self ..)
        have hthere := (pathExists_iff laws hne hroot).mp hall path hmem
        rw [hmissing] at hthere
        cases hthere
    have hno : (makeDirs ops false (vPathOf szPath) s).1 ≠ true := by
      rw [hfalse]
      decide
    exact ⟨_, _, createdMultipleDirectory_eq hne s, iff_of_false hno hnot', makeDirCalls_missing,
      (splitDirs_pairwise [] _).sublist (makeDirCalls_sublist _ s), fun h => absurd h hno⟩

end Answer

/-! ## A set of folders -/

section Sets

/-- A path without the separators at its end. -/
def bare (path : Path) : Path := path.rdropWhile (· = '\\')

/-- The folders that are there, and which can be made. -/
def folders (can : Path → Bool) : FileOps (List Path) where
  accessFile s path := path ≠ [] ∧ bare path ∈ s
  deleteFile s _ := s
  makeDir s path := if path ≠ [] ∧ bare path ∉ s ∧ can path then some (bare path :: s) else none
  create _ _ := none
  fwrite s _ _ := (false, s)

theorem folders_laws (can : Path → Bool) : FolderLaws (folders can) := by
  refine ⟨fun s p s' h => ?_, fun s p s' q h hq => ?_, fun s p hp _ => ?_, fun s => ?_⟩
  · simp only [folders, Option.ite_none_right_eq_some, Option.some.injEq] at h
    obtain ⟨⟨hp, -⟩, rfl⟩ := h
    simp [folders, hp]
  · simp only [folders, Option.ite_none_right_eq_some, Option.some.injEq] at h
    obtain ⟨-, rfl⟩ := h
    simp only [folders, decide_eq_true_eq] at hq ⊢
    exact ⟨hq.1, List.mem_cons_of_mem _ hq.2⟩
  · have hbare : bare (p ++ ['\\']) = bare p := List.rdropWhile_concat_pos _ _ _ (by decide)
    simp only [folders, hbare]
    simp [hp]
  · exact ⟨by simp [folders], by simp [folders]⟩

end Sets

theorem createsPath_iff_sample : CreatesPath (folders (· ≠ ['a', '\\', 'b'])) ['a', '\\', 'b'] [] := by
  refine (createsPath_iff (folders_laws _)).mpr ⟨by decide, ?_, fun h => ?_⟩
  · refine ⟨[['a']], ['a', '\\', 'b'], [], [['a']], by decide, ?_, by decide, by decide⟩
    exact .made (by decide) (by decide) (.done _)
  · exact absurd (h ['a'] ⟨['b', '\\'], by decide⟩) (by decide)

/-- The empty path is an exception, a folder that is there is denied, and so is one that was created
a moment ago. -/
theorem createdMultipleDirectory_denies :
    ¬ CreatesPath (folders (fun _ => true)) [] [] ∧
    ¬ CreatesPath (folders (fun _ => true)) ['a'] [['a']] ∧
    ¬ CreatesPath (folders (fun _ => true)) ['a'] [] := by
  have hdenied : createdMultipleDirectory (folders (fun _ => true)) ['a'] [['a']] =
      .ok (false, [['a']]) := by decide
  have hmade : createdMultipleDirectory (folders (fun _ => true)) ['a'] [] = .ok (true, [['a']]) := by
    decide
  refine ⟨?_, ?_, ?_⟩
  · rintro ⟨b, s', hrun, -⟩
    cases hrun
  · rintro ⟨b, s', hrun, hanswer, -⟩
    rw [hdenied] at hrun
    cases hrun
    have hthere : PathExists (folders (fun _ => true)) ['a'] [['a']] :=
      (pathExists_iff (folders_laws _) (by decide) (by decide)).mpr (by decide)
    exact absurd (hanswer.mpr hthere) (by decide)
  · rintro ⟨b, s', hrun, -, -, -, hagain⟩
    rw [hmade] at hrun
    cases hrun
    obtain ⟨s'', h⟩ := hagain rfl
    rw [hdenied] at h
    cases h

end AppUtil.Zip
