import Mathlib.Data.List.Forall2
import AppUtil.SevenZip.Packing

/-! # Which files `Compress` archives

The item that `FindFirst` delivers is not looked at, a separator at the end of the path stands before every
name, and one at its beginning is lost if there is no other. -/
namespace AppUtil.SevenZip
open AppUtil.Lib.Text
open AppUtil.Zip (Path Folder afterLast beforeLast isDots)
open AppUtil.Zip.Path (below below_cons)
set_option autoImplicit false

/-! ## What is asked for -/

/-- The last component of a path, whatever separators it ends with. -/
def lastComponent (path : Path) : Path :=
  ((path.reverse.dropWhile fun c => c = '\\' ∨ c = '/').takeWhile fun c => ¬ (c = '\\' ∨ c = '/')).reverse

/-- The regular file is to be archived: nothing on the way to it is called `.svn`, nor the file itself. -/
def Wanted (folder : Folder) (p : List Path) : Prop := folder.FileAt p ∧ svn ∉ p

/-- The items are the files that are to be archived, each once: each denotes its file, and is named by the
last component and the way from there. -/
def Archived (os : FileFind) (strPak : Path) (items : List DirItem) : Prop :=
  ∃ ps : List (List Path), ps.Nodup ∧ (∀ p, p ∈ ps ↔ Wanted (os.items (os.place strPak)) p) ∧
    List.Forall₂ (fun item p => os.place item.fullPath = os.place strPak ++ p ∧
      item.name = lastComponent strPak ++ joined '\\' p) items ps

/-! ## What is found -/

/-- Neither the file nor a folder on the way to it is called `.svn` or is what `FindFirst` delivers in its
folder, and the folders open. With `first` the folder's own first item is left out. -/
def Reached (os : FileFind) : Bool → List Path → Folder → List Path → Prop
  | _, _, .done, _ => False
  | first, place, .file name _ rest, p =>
    (first = false ∧ name ≠ svn ∧ p = [name]) ∨ Reached os false place rest p
  | first, place, .subdir name below rest, p =>
    (first = false ∧ isDots name = false ∧ name ≠ svn ∧ os.opens (place ++ [name]) = true ∧
      ∃ q, p = name :: q ∧ Reached os true (place ++ [name]) below q) ∨ Reached os false place rest p

/-- The file is reached from the folder at `place`. -/
def ReachedFrom (os : FileFind) (place p : List Path) : Prop :=
  os.opens place = true ∧ Reached os true place (os.items place) p

/-- What the paths of a disk denote: the names in a folder are proper, an item of a folder is where its path
leads to, and a file that is there is found. -/
structure FileFindLaws (os : FileFind) : Prop where
  proper : ∀ place, (os.items place).Proper
  place : ∀ path p, (os.items (os.place path)).FileAt p ∨
    ((os.items (os.place path)).FolderAt p ∧ ∀ n ∈ p, isDots n = false) →
      os.place (below path p) = os.place path ++ p
  find : ∀ path p, (os.items (os.place path)).FileAt p → (os.find (below path p)).isSome = true

section Reaching
variable {os : FileFind} {first : Bool} {folder : Folder} {place p : List Path}

theorem wanted_of_reached (h : Reached os first place folder p) : Wanted folder p := by
  induction folder generalizing first place p with
  | done => exact absurd h id
  | file name contents rest ih =>
    rcases h with ⟨-, hsvn, rfl⟩ | h
    · refine ⟨.inl rfl, fun hmem => hsvn ?_⟩
      exact (List.mem_singleton.mp hmem).symm
    · exact ⟨.inr (ih h).1, (ih h).2⟩
  | subdir name below rest ihBelow ihRest =>
    rcases h with ⟨-, hdots, hsvn, -, q, rfl, h⟩ | h
    · refine ⟨.inl ⟨hdots, q, rfl, (ihBelow h).1⟩, fun hmem => ?_⟩
      rcases List.mem_cons.mp hmem with heq | hmem
      · exact hsvn heq.symm
      · exact (ihBelow h).2 hmem
    · exact ⟨.inr (ihRest h).1, (ihRest h).2⟩

/-- The paths below `path` lead into the folder. -/
def Denotes (os : FileFind) (path : Path) (folder : Folder) : Prop :=
  ∀ p, folder.FileAt p ∨ (folder.FolderAt p ∧ ∀ n ∈ p, isDots n = false) →
    os.place (below path p) = os.place path ++ p

theorem inFolder_child (strFolderPath strFileName name : Path) :
    inFolder strFolderPath (strFileName.child name) = (inFolder strFolderPath strFileName).child name := by
  unfold inFolder Zip.Path.child
  split
  · rfl
  · rw [List.append_assoc, List.cons_append]

theorem inFolder_below (strFolderPath strFileName : Path) (p : List Path) :
    inFolder strFolderPath (below strFileName p) = below (inFolder strFolderPath strFileName) p := by
  induction p generalizing strFileName with
  | nil => rw [Zip.Path.below_nil, Zip.Path.below_nil]
  | cons name p ih => rw [below_cons, below_cons, ih, inFolder_child]

theorem Denotes.rest_file {path name : Path} {contents : Zip.Bytes} {rest : Folder}
    (h : Denotes os path (.file name contents rest)) : Denotes os path rest := by
  intro p hp
  apply h p
  exact hp.imp .inr id

theorem Denotes.rest_subdir {path name : Path} {below' rest : Folder}
    (h : Denotes os path (.subdir name below' rest)) : Denotes os path rest := by
  intro p hp
  apply h p
  exact hp.imp .inr fun hfolder => ⟨.inr (.inr hfolder.1), hfolder.2⟩

theorem Denotes.child {path name : Path} {below' rest : Folder}
    (h : Denotes os path (.subdir name below' rest)) (hdots : isDots name = false) :
    os.place (path.child name) = os.place path ++ [name] ∧ Denotes os (path.child name) below' := by
  have hname : os.place (path.child name) = os.place path ++ [name] := by
    rw [Zip.Path.child_eq_below]
    refine h [name] (.inr ⟨.inl rfl, fun n hn => ?_⟩)
    rw [List.mem_singleton.mp hn]
    exact hdots
  refine ⟨hname, fun p hp => ?_⟩
  rw [← below_cons, hname, List.append_assoc, List.singleton_append]
  apply h
  rcases hp with hp | ⟨hp, hall⟩
  · exact .inl (.inl ⟨hdots, p, rfl, hp⟩)
  · refine .inr ⟨.inr (.inl ⟨hdots, p, rfl, hp⟩), fun n hn => ?_⟩
    rcases List.mem_cons.mp hn with rfl | hn
    · exact hdots
    · exact hall n hn

variable (os) in
/-- The files that are reached, in the order in which they are. -/
def reachedPaths : Bool → List Path → Folder → List (List Path)
  | _, _, .done => []
  | first, place, .file name _ rest =>
    (if first ∨ name = svn then [] else [[name]]) ++ reachedPaths false place rest
  | first, place, .subdir name below rest =>
    (if first ∨ isDots name ∨ name = svn then []
      else if os.opens (place ++ [name]) then
        (reachedPaths true (place ++ [name]) below).map (name :: ·)
      else []) ++ reachedPaths false place rest

theorem mem_reachedPaths_iff : p ∈ reachedPaths os first place folder ↔ Reached os first place folder p := by
  induction folder generalizing first place p with
  | done =>
    unfold reachedPaths Reached
    exact ⟨fun h => absurd h List.not_mem_nil, False.elim⟩
  | file name contents rest ih =>
    unfold reachedPaths Reached
    rw [List.mem_append, ih]
    refine or_congr_left ?_
    cases first with
    | true => simp
    | false => by_cases hsvn : name = svn <;> simp [hsvn]
  | subdir name below rest ihBelow ihRest =>
    unfold reachedPaths Reached
    rw [List.mem_append, ihRest]
    refine or_congr_left ?_
    cases first with
    | true => simp
    | false =>
      cases hdots : isDots name with
      | true => simp
      | false =>
        by_cases hsvn : name = svn
        · simp [hsvn]
        · cases hopen : os.opens (place ++ [name]) with
          | false => simp [hsvn]
          | true =>
            simp only [Bool.false_eq_true, hsvn, or_self, if_false, if_true, List.mem_map, ihBelow,
              ne_eq, not_false_eq_true, true_and]
            exact exists_congr fun q => and_comm.trans (and_congr_left' eq_comm)

variable (os first place) in
theorem reachedPaths_nodup (hf : folder.Proper) : (reachedPaths os first place folder).Nodup := by
  induction folder generalizing first place with
  | done => exact List.nodup_nil
  | file name contents rest ih =>
    obtain ⟨-, hfresh, hrest⟩ := hf
    unfold reachedPaths
    split
    · exact ih false place hrest
    · refine (List.nodup_singleton _).append (ih false place hrest) fun p hp hp' => ?_
      rw [List.mem_singleton.mp hp] at hp'
      obtain ⟨n, q, heq, hn⟩ := (wanted_of_reached (mem_reachedPaths_iff.mp hp')).1.head
      cases heq
      exact hfresh hn
  | subdir name below rest ihBelow ihRest =>
    obtain ⟨-, hfresh, hbelow, hrest⟩ := hf
    unfold reachedPaths
    split
    · exact ihRest false place hrest
    next hskip =>
      split
      · have hdots : isDots name = false := by
          by_contra hdots
          exact hskip (.inr (.inl (eq_true_of_ne_false hdots)))
        refine ((ihBelow true (place ++ [name]) (hbelow hdots)).map fun q r => ?_).append (ihRest false place hrest)
          fun p hp hp' => ?_
        · exact fun h => (List.cons.inj h).2
        · obtain ⟨q, -, rfl⟩ := List.mem_map.mp hp
          obtain ⟨n, r, heq, hn⟩ := (wanted_of_reached (mem_reachedPaths_iff.mp hp')).1.head
          cases heq
          exact hfresh hn
      · exact ihRest false place hrest

variable (first) in
theorem traverseItems_eq {strFolderPath strFileName : Path}
    (hd : Denotes os (inFolder strFolderPath strFileName) folder) :
    traverseItems os strFolderPath first strFileName folder =
      (reachedPaths os first (os.place (inFolder strFolderPath strFileName)) folder).map
        (below strFileName) := by
  induction folder generalizing first strFileName with
  | done => rfl
  | file name contents rest ih =>
    unfold traverseItems reachedPaths
    rw [List.map_append, ih false hd.rest_file]
    congr 1
    split
    · rfl
    · rw [Zip.Path.child_eq_below]
      rfl
  | subdir name below' rest ihBelow ihRest =>
    unfold traverseItems reachedPaths
    rw [List.map_append, ihRest false hd.rest_subdir]
    congr 1
    split
    · rfl
    next hskip =>
      have hdots : isDots name = false := by
        by_contra hdots
        exact hskip (.inr (.inl (eq_true_of_ne_false hdots)))
      obtain ⟨hname, hchild⟩ := hd.child hdots
      rw [inFolder_child, hname]
      split
      · rw [ihBelow true (by rw [inFolder_child]; exact hchild), inFolder_child, hname, List.map_map]
        exact List.map_congr_left fun q _ => (below_cons ..).symm
      · rfl

end Reaching

/-! ## What is handed over -/

section Handing
variable {os : FileFind} {packer : Packer} {strPak strName : Path}

theorem dirItems_spec {path : Path} {files : List Path} {items : List DirItem}
    (h : dirItems os path files = some items) :
    List.Forall₂ (fun item file => item.name = file ∧ item.fullPath = inFolder path file) items files := by
  induction files generalizing items with
  | nil =>
    cases h
    exact .nil
  | cons file files ih =>
    unfold dirItems at h
    dsimp only at h
    cases hfind : os.find (inFolder path file) with
    | none =>
      rw [hfind] at h
      cases h
    | some fi =>
      cases hrest : dirItems os path files with
      | none =>
        rw [hfind, hrest] at h
        cases h
      | some rest =>
        rw [hfind, hrest] at h
        cases h
        exact .cons ⟨rfl, rfl⟩ (ih hrest)

theorem dirItems_of_found {path : Path} {files : List Path}
    (h : ∀ file ∈ files, (os.find (inFolder path file)).isSome = true) :
    ∃ items, dirItems os path files = some items := by
  induction files with
  | nil => exact ⟨[], rfl⟩
  | cons file files ih =>
    obtain ⟨fi, hfi⟩ := Option.isSome_iff_exists.mp (h file (List.mem_cons_self ..))
    obtain ⟨items, hitems⟩ := ih fun f hf => h f (List.mem_cons_of_mem file hf)
    unfold dirItems
    dsimp only
    rw [hfi, hitems]
    exact ⟨_, rfl⟩

theorem traverseFloder_reached (hlaws : FileFindLaws os) (strFileName strFolderPath : Path) :
    ∃ ps : List (List Path), ps.Nodup ∧
      (∀ p, p ∈ ps ↔ ReachedFrom os (os.place (inFolder strFolderPath strFileName)) p) ∧
      (traverseFloder os strFileName strFolderPath).getD [] = ps.map (below strFileName) := by
  have heq := traverseItems_eq true (hlaws.place (inFolder strFolderPath strFileName))
  have hnodup := reachedPaths_nodup os true (os.place (inFolder strFolderPath strFileName))
    (hlaws.proper (os.place (inFolder strFolderPath strFileName)))
  unfold traverseFloder ReachedFrom
  dsimp only
  generalize os.place (inFolder strFolderPath strFileName) = place at heq hnodup ⊢
  cases hopen : os.opens place with
  | false =>
    refine ⟨[], List.nodup_nil, fun p => ⟨fun h => absurd h List.not_mem_nil, fun h => ?_⟩, rfl⟩
    cases h.1
  | true =>
    refine ⟨_, hnodup, fun p => ?_, ?_⟩
    · rw [mem_reachedPaths_iff]
      exact ⟨fun h => ⟨rfl, h⟩, And.right⟩
    · rw [← heq, if_neg Bool.noConfusion]
      cases os.items place <;> rfl

variable (os strPak) in
/-- The folder in which `Compress` looks. -/
def searched : List Path := os.place (inFolder (strFolderPath strPak) (strFileName strPak))

variable (strPak) in
/-- `Compress` hands over the files that are reached, each once. -/
theorem handed_spec (hlaws : FileFindLaws os) (hready : packer.Ready strName) :
    ∃ ps : List (List Path), ps.Nodup ∧ (∀ p, p ∈ ps ↔ ReachedFrom os (searched os strPak) p) ∧
      List.Forall₂ (fun item p => os.place item.fullPath = searched os strPak ++ p ∧
        item.name = strFileName strPak ++ joined '\\' p)
        ((compress os packer strPak strName).1.getD []) ps := by
  rw [compress_handed hready]
  obtain ⟨ps, hnodup, hmem, hlist⟩ := traverseFloder_reached hlaws (strFileName strPak) (strFolderPath strPak)
  refine ⟨ps, hnodup, hmem, ?_⟩
  cases htraverse : traverseFloder os (strFileName strPak) (strFolderPath strPak) with
  | none =>
    rw [htraverse] at hlist
    rw [List.map_eq_nil_iff.mp hlist.symm]
    exact .nil
  | some files =>
    rw [htraverse, Option.getD_some] at hlist
    rw [Option.bind_some, hlist]
    have hfile : ∀ p ∈ ps, (os.items (searched os strPak)).FileAt p :=
      fun p hp => (wanted_of_reached ((hmem p).mp hp).2).1
    obtain ⟨items, hitems⟩ : ∃ items, dirItems os (strFolderPath strPak)
        (ps.map (below (strFileName strPak))) = some items := by
      apply dirItems_of_found
      intro file hmemfile
      obtain ⟨p, hp, rfl⟩ := List.mem_map.mp hmemfile
      rw [inFolder_below]
      exact hlaws.find _ p (hfile p hp)
    rw [hitems, Option.getD_some]
    have hspec := List.forall₂_map_right_iff.mp (dirItems_spec hitems)
    -- each path leads to its file
    have hboth := List.Forall₂.flip ((List.forall₂_and_left ps _).mpr ⟨hfile, hspec.flip⟩)
    refine hboth.imp fun item p h => ?_
    obtain ⟨hat, hname, hpath⟩ := h
    refine ⟨?_, ?_⟩
    · rw [hpath, inFolder_below]
      exact hlaws.place _ p (.inl hat)
    · rw [hname]
      rfl

end Handing

/-! ## When all files are archived -/

section Archiving
variable {os : FileFind} {strPak : Path}

theorem strFileName_noBackslash (path : Path) : '\\' ∉ strFileName path := by
  unfold strFileName afterLast
  rw [List.mem_reverse]
  intro h
  have hne := List.all_eq_true.mp List.all_takeWhile _ h
  simp at hne

theorem lastComponent_noBackslash (path : Path) : '\\' ∉ lastComponent path := by
  unfold lastComponent
  rw [List.mem_reverse]
  intro h
  have hne := List.all_eq_true.mp List.all_takeWhile _ h
  simp at hne

/-- What stands at the same place in two lists that go with a third. -/
theorem exists_partner {α β γ : Type} {R : α → β → Prop} {S : α → γ → Prop} {as : List α} {bs : List β}
    {cs : List γ} (hr : List.Forall₂ R as bs) (hs : List.Forall₂ S as cs) {b : β} (hb : b ∈ bs) :
    ∃ a, R a b ∧ ∃ c ∈ cs, S a c := by
  induction hr generalizing cs with
  | nil => cases hb
  | cons hab _ ih =>
    cases hs with
    | cons hac hrest =>
      rcases List.mem_cons.mp hb with rfl | hb
      · exact ⟨_, hab, _, List.mem_cons_self .., hac⟩
      · obtain ⟨a, hr, c, hc, hs⟩ := ih hrest hb
        exact ⟨a, hr, c, List.mem_cons_of_mem _ hc, hs⟩

/-- **What `Compress` hands to `UpdateItems`** are exactly the files below the folder when its name is the
last component, it looks in that folder, and every file is reached; or when there is nothing to archive
and it finds nothing. -/
theorem compress_archives_iff (packer : Packer) (strName : Path) (hlaws : FileFindLaws os)
    (hready : packer.Ready strName) :
    Archived os strPak ((compress os packer strPak strName).1.getD []) ↔
      (strFileName strPak = lastComponent strPak ∧ searched os strPak = os.place strPak ∧
        ∀ p, Wanted (os.items (os.place strPak)) p → ReachedFrom os (os.place strPak) p) ∨
      ((∀ p, ¬ Wanted (os.items (os.place strPak)) p) ∧ ∀ p, ¬ ReachedFrom os (searched os strPak) p) := by
  obtain ⟨ps, hnodup, hmem, hitems⟩ := handed_spec strPak hlaws hready
  generalize (compress os packer strPak strName).1.getD [] = items at hitems
  have hnames : ∀ place p, Wanted (os.items place) p → ∀ n ∈ p, '\\' ∉ n := fun place p h n hn =>
    ((hlaws.proper place).validFile h.1 n hn).noBackslash
  constructor
  · rintro ⟨wanted, -, hwanted, hforall⟩
    -- an item that stands for a file that is wanted stands for the same file where it is looked for
    have hsame : ∀ p, Wanted (os.items (os.place strPak)) p → ReachedFrom os (searched os strPak) p ∧
        strFileName strPak = lastComponent strPak ∧ searched os strPak = os.place strPak := by
      intro p hp
      obtain ⟨item, ⟨hplace, hname⟩, q, hq, hplace', hname'⟩ :=
        exists_partner hforall hitems ((hwanted p).mpr hp)
      have hreached := (hmem q).mp hq
      obtain ⟨hbase, rfl⟩ := append_joined_inj (strFileName_noBackslash strPak)
        (lastComponent_noBackslash strPak) (hnames _ q (wanted_of_reached hreached.2)) (hnames _ p hp)
        (hname'.symm.trans hname)
      exact ⟨hreached, hbase, List.append_cancel_right (hplace'.symm.trans hplace)⟩
    by_cases hex : ∃ p, Wanted (os.items (os.place strPak)) p
    · obtain ⟨p, hp⟩ := hex
      obtain ⟨-, hbase, hplace⟩ := hsame p hp
      refine .inl ⟨hbase, hplace, fun q hq => ?_⟩
      rw [← hplace]
      exact (hsame q hq).1
    · have hnone : ∀ p, ¬ Wanted (os.items (os.place strPak)) p := fun p hp => hex ⟨p, hp⟩
      refine .inr ⟨hnone, fun p hp => ?_⟩
      obtain ⟨item, -, q, hq, -⟩ := exists_partner hitems hforall ((hmem p).mpr hp)
      exact hnone q ((hwanted q).mp hq)
  · rintro (⟨hbase, hplace, hall⟩ | ⟨hnone, hreached⟩)
    · rw [hplace] at hmem hitems
      rw [hbase] at hitems
      refine ⟨ps, hnodup, fun p => ?_, hitems⟩
      rw [hmem]
      exact ⟨fun h => wanted_of_reached h.2, hall p⟩
    · have hps : ps = [] := List.eq_nil_iff_forall_not_mem.mpr fun p hp => hreached p ((hmem p).mp hp)
      subst hps
      cases hitems
      exact ⟨[], List.nodup_nil, fun p => ⟨fun h => absurd h List.not_mem_nil, fun h => absurd h (hnone p)⟩,
        .nil⟩

end Archiving

/-! ## A drive with two files -/

/-- The root of a drive with the files `f` and `g`, in this order; it has no `.` and no `..`. -/
def twoFiles : FileFind where
  place path :=
    if path = ['d', ':'] then [path]
    else if path = ['d', ':', '\\', 'f'] then [['d', ':'], ['f']]
    else if path = ['d', ':', '\\', 'g'] then [['d', ':'], ['g']]
    else []
  opens place := place = [['d', ':']]
  items place := if place = [['d', ':']] then .file ['f'] [1] (.file ['g'] [2] .done) else .done
  find path := if path = [] then none else some ⟨0, 1, 0, 0, 0⟩

/-- A packer that takes everything. -/
def takesAll : Packer := ⟨true, true, fun _ => true, true, some sOk, fun _ => (sOk, 0)⟩

theorem takesAll_ready (strName : Path) : takesAll.Ready strName := ⟨rfl, rfl, rfl, rfl, rfl⟩

theorem twoFiles_items {place p : List Path}
    (h : (twoFiles.items place).FileAt p ∨ (twoFiles.items place).FolderAt p ∧ ∀ n ∈ p, isDots n = false) :
    place = [['d', ':']] ∧ (p = [['f']] ∨ p = [['g']]) := by
  unfold twoFiles at h
  dsimp only at h
  split at h
  next hplace => simpa [Folder.FileAt, Folder.FolderAt, hplace] using h
  next => simp [Folder.FileAt, Folder.FolderAt] at h

theorem twoFiles_place {path : Path} (h : twoFiles.place path = [['d', ':']]) : path = ['d', ':'] := by
  unfold twoFiles at h
  dsimp only at h
  split at h
  next hpath => exact hpath
  next =>
    split at h
    · cases h
    · split at h <;> cases h

theorem twoFiles_laws : FileFindLaws twoFiles := by
  refine ⟨fun place => ?_, fun path p h => ?_, fun path p h => ?_⟩
  · unfold twoFiles
    dsimp only
    split
    · exact ⟨.of_plain (by decide), by decide, .of_plain (by decide), by decide, trivial⟩
    · trivial
  · obtain ⟨hplace, hp⟩ := twoFiles_items h
    obtain rfl := twoFiles_place hplace
    rcases hp with rfl | rfl <;> rfl
  · obtain ⟨hplace, hp⟩ := twoFiles_items (.inl h)
    obtain rfl := twoFiles_place hplace
    rcases hp with rfl | rfl <;> rfl

theorem compress_archives_iff_sample :
    ¬ Archived twoFiles ['d', ':'] ((compress twoFiles takesAll ['d', ':'] ['a']).1.getD []) := by
  rw [compress_archives_iff takesAll ['a'] twoFiles_laws (takesAll_ready ['a'])]
  rintro (⟨-, -, hall⟩ | ⟨hnone, -⟩)
  · have hf : Reached twoFiles true [['d', ':']] (.file ['f'] [1] (.file ['g'] [2] .done)) [['f']] :=
      (hall [['f']] ⟨.inl rfl, by decide⟩).2
    simp [Reached] at hf
  · exact hnone [['f']] ⟨.inl rfl, by decide⟩

/-- The first file is not archived. -/
theorem compress_loses_first :
    (compress twoFiles takesAll ['d', ':'] ['a']).1 =
        some [⟨⟨0, 1, 0, 0, 0⟩, ['d', ':', '\\', 'g'], ['d', ':', '\\', 'g']⟩] ∧
      ¬ Archived twoFiles ['d', ':'] ((compress twoFiles takesAll ['d', ':'] ['a']).1.getD []) := by
  have hitems : (compress twoFiles takesAll ['d', ':'] ['a']).1 =
      some [⟨⟨0, 1, 0, 0, 0⟩, ['d', ':', '\\', 'g'], ['d', ':', '\\', 'g']⟩] := by rfl
  refine ⟨hitems, ?_⟩
  rw [hitems, Option.getD_some]
  rintro ⟨ps, -, hmem, hforall⟩
  -- one item cannot stand for both files
  obtain ⟨p, rest, -, hnil, rfl⟩ := List.forall₂_cons_left_iff.mp hforall
  cases hnil
  have hf : [['f']] ∈ [p] := (hmem [['f']]).mpr ⟨.inl rfl, by decide⟩
  have hg : [['g']] ∈ [p] := (hmem [['g']]).mpr ⟨.inr (.inl rfl), by decide⟩
  rw [List.mem_singleton] at hf hg
  rw [← hf] at hg
  cases hg

end AppUtil.SevenZip
