import Mathlib.Data.List.Nodup
import AppUtil.Lib.Text
import AppUtil.Zip.Complete

/-! # What `TraverseFloder` lists

A file of a folder tree is told by the names on the way to it. The order in which the items of a
folder are delivered, and where `.` and `..` stand among them, do not matter. -/
namespace AppUtil.Zip
open AppUtil.Lib.Text
set_option autoImplicit false

/-! ## Trees of files -/

/-- `path\p`. -/
def Path.below (path : Path) (p : List Path) : Path := path ++ joined '\\' p

/-- There is a regular file at the relative path. -/
def Folder.FileAt : Folder → List Path → Prop
  | .done, _ => False
  | .file name _ rest, p => p = [name] ∨ rest.FileAt p
  | .subdir name below rest, p =>
    (isDots name = false ∧ ∃ q, p = name :: q ∧ below.FileAt q) ∨ rest.FileAt p

/-- There is a folder at the relative path, `.` and `..` among them. -/
def Folder.FolderAt : Folder → List Path → Prop
  | .done, _ => False
  | .file _ _ rest, p => rest.FolderAt p
  | .subdir name below rest, p =>
    p = [name] ∨ (isDots name = false ∧ ∃ q, p = name :: q ∧ below.FolderAt q) ∨ rest.FolderAt p

/-- The names of the items of a folder. -/
def Folder.names : Folder → List Path
  | .done => []
  | .file name _ rest => name :: rest.names
  | .subdir name _ rest => name :: rest.names

/-- A name that an item can have. -/
structure ValidName (name : Path) : Prop where
  noBackslash : '\\' ∉ name
  noSlash : '/' ∉ name
  noNul : Char.ofNat 0 ∉ name

/-- At every depth the items of a folder have names, and no two the same. -/
def Folder.Proper : Folder → Prop
  | .done => True
  | .file name _ rest => ValidName name ∧ name ∉ rest.names ∧ rest.Proper
  | .subdir name below rest =>
    ValidName name ∧ name ∉ rest.names ∧ (isDots name = false → below.Proper) ∧ rest.Proper

section Opening
variable {κ : Type}

/-- Every subfolder can be opened. -/
def Folder.Opens (sys : System κ) (path : Path) : Folder → Prop
  | .done => True
  | .file _ _ rest => rest.Opens sys path
  | .subdir name below rest =>
    (isDots name = false →
      sys.findFirst (path.child name) = true ∧ below.Opens sys (path.child name)) ∧ rest.Opens sys path

/-- The loop of `TraverseFloder`, which adds to `vctFileList`. -/
def traverseItems (sys : System κ) (strFolderPath : Path) : Folder → List Path → List Path
  | .done, vctFileList => vctFileList
  | .file name _ rest, vctFileList =>
    traverseItems sys strFolderPath rest (vctFileList ++ [strFolderPath.child name])
  | .subdir name below rest, vctFileList =>
    let vctFileList :=
      if isDots name then vctFileList
      else if sys.findFirst (strFolderPath.child name) then
        traverseItems sys (strFolderPath.child name) below vctFileList
      else vctFileList
    traverseItems sys strFolderPath rest vctFileList

/-- `TraverseFloder` with the list that it is given. Where nothing is found, not even `.`,
`_findfirst` fails. -/
def traverseFloderInto (sys : System κ) (strFolderPath : Path) (folder : Folder)
    (vctFileList : List Path) : ℤ × List Path :=
  if sys.findFirst strFolderPath = false then (zipStateErr, vctFileList)
  else
    match folder with
    | .done => (zipStateErr, vctFileList)
    | folder => (zipOk, traverseItems sys strFolderPath folder vctFileList)

theorem traverseItems_eq (sys : System κ) (path : Path) (folder : Folder) (list : List Path) :
    traverseItems sys path folder list = list ++ traverseEntries sys path folder := by
  induction folder generalizing path list with
  | done =>
    unfold traverseItems traverseEntries
    rw [List.append_nil]
  | file name contents rest ih =>
    unfold traverseItems traverseEntries
    rw [ih, List.append_assoc, List.singleton_append]
  | subdir name below rest ihBelow ihRest =>
    unfold traverseItems traverseEntries
    rw [ihRest, ihBelow]
    cases isDots name with
    | true => simp
    | false => cases sys.findFirst (path.child name) <;> simp

/-- What `TraverseFloder` adds does not depend on what is in the list. -/
theorem traverseFloderInto_eq (sys : System κ) (path : Path) (folder : Folder) (list : List Path) :
    (traverseFloderInto sys path folder list).2 = list ++ traverseFloder sys path folder := by
  unfold traverseFloderInto traverseFloder
  cases sys.findFirst path with
  | false => simp
  | true =>
    simp only [Bool.true_eq_false, if_false, if_true]
    cases folder with
    | done => simp [traverseEntries]
    | file name contents rest => exact traverseItems_eq ..
    | subdir name below rest => exact traverseItems_eq ..

end Opening

/-! ## Relative paths -/

section Relative
variable {folder : Folder} {p q : List Path}

theorem Path.below_cons (path name : Path) (p : List Path) :
    path.below (name :: p) = (path.child name).below p := by
  unfold Path.below Path.child
  rw [joined_cons, List.append_assoc, List.cons_append]

theorem Path.below_nil (path : Path) : path.below [] = path := List.append_nil path

theorem Path.child_eq_below (path name : Path) : path.child name = path.below [name] := by
  rw [Path.below_cons, Path.below_nil]

theorem Path.below_inj {path : Path} (hp : ∀ n ∈ p, '\\' ∉ n) (hq : ∀ n ∈ q, '\\' ∉ n)
    (h : path.below p = path.below q) : p = q :=
  joined_inj hp hq (List.append_cancel_left h)

theorem Folder.FileAt.head (h : folder.FileAt p) : ∃ name r, p = name :: r ∧ name ∈ folder.names := by
  induction folder with
  | done => exact absurd h id
  | file name contents rest ih =>
    rcases h with rfl | h
    · exact ⟨name, [], rfl, List.mem_cons_self ..⟩
    · obtain ⟨n, r, hp, hn⟩ := ih h
      exact ⟨n, r, hp, List.mem_cons_of_mem name hn⟩
  | subdir name below rest _ ih =>
    rcases h with ⟨-, r, hp, -⟩ | h
    · exact ⟨name, r, hp, List.mem_cons_self ..⟩
    · obtain ⟨n, r, hp, hn⟩ := ih h
      exact ⟨n, r, hp, List.mem_cons_of_mem name hn⟩

theorem Folder.FolderAt.head (h : folder.FolderAt p) :
    ∃ name r, p = name :: r ∧ name ∈ folder.names := by
  induction folder with
  | done => exact absurd h id
  | file name contents rest ih =>
    obtain ⟨n, r, hp, hn⟩ := ih h
    exact ⟨n, r, hp, List.mem_cons_of_mem name hn⟩
  | subdir name below rest _ ih =>
    rcases h with hp | ⟨-, r, hp, -⟩ | h
    · exact ⟨name, [], hp, List.mem_cons_self ..⟩
    · exact ⟨name, r, hp, List.mem_cons_self ..⟩
    · obtain ⟨n, r, hp, hn⟩ := ih h
      exact ⟨n, r, hp, List.mem_cons_of_mem name hn⟩

theorem Folder.Proper.validFile (hf : folder.Proper) (h : folder.FileAt p) : ∀ n ∈ p, ValidName n := by
  induction folder generalizing p with
  | done => exact absurd h id
  | file name contents rest ih =>
    rcases h with rfl | h
    · intro n hn
      obtain rfl := List.mem_singleton.mp hn
      exact hf.1
    · exact ih hf.2.2 h
  | subdir name below rest ihBelow ihRest =>
    rcases h with ⟨hdots, r, rfl, h⟩ | h
    · intro n hn
      rcases List.mem_cons.mp hn with rfl | hn
      · exact hf.1
      · exact ihBelow (hf.2.2.1 hdots) h n hn
    · exact ihRest hf.2.2.2 h

theorem Folder.Proper.validFolder (hf : folder.Proper) (h : folder.FolderAt p) :
    ∀ n ∈ p, ValidName n := by
  induction folder generalizing p with
  | done => exact absurd h id
  | file name contents rest ih => exact ih hf.2.2 h
  | subdir name below rest ihBelow ihRest =>
    rcases h with rfl | ⟨hdots, r, rfl, h⟩ | h
    · intro n hn
      obtain rfl := List.mem_singleton.mp hn
      exact hf.1
    · intro n hn
      rcases List.mem_cons.mp hn with rfl | hn
      · exact hf.1
      · exact ihBelow (hf.2.2.1 hdots) h n hn
    · exact ihRest hf.2.2.2 h

theorem Folder.Proper.not_both (hf : folder.Proper) (h : folder.FileAt p) : ¬ folder.FolderAt p := by
  induction folder generalizing p with
  | done => exact absurd h id
  | file name contents rest ih =>
    obtain ⟨-, hfresh, hrest⟩ := hf
    intro h'
    have hfolder : rest.FolderAt p := h'
    rcases h with rfl | h
    · obtain ⟨n, r, hp, hn⟩ := hfolder.head
      obtain ⟨rfl, -⟩ := List.cons.inj hp
      exact hfresh hn
    · exact ih hrest h hfolder
  | subdir name below rest ihBelow ihRest =>
    obtain ⟨-, hfresh, hbelow, hrest⟩ := hf
    -- the item is the same for both, since the names differ
    have hnone : ∀ r, ¬ rest.FileAt (name :: r) ∧ ¬ rest.FolderAt (name :: r) := by
      refine fun r => ⟨fun hr => ?_, fun hr => ?_⟩
      · obtain ⟨n, t, hp, hn⟩ := hr.head
        obtain ⟨rfl, -⟩ := List.cons.inj hp
        exact hfresh hn
      · obtain ⟨n, t, hp, hn⟩ := hr.head
        obtain ⟨rfl, -⟩ := List.cons.inj hp
        exact hfresh hn
    intro h'
    rcases h with ⟨hdots, r, rfl, h⟩ | h
    · rcases h' with hp | ⟨-, t, hp, h'⟩ | h'
      · obtain ⟨-, rfl⟩ := List.cons.inj hp
        obtain ⟨n, t, hp, -⟩ := h.head
        cases hp
      · obtain ⟨-, rfl⟩ := List.cons.inj hp
        exact ihBelow (hbelow hdots) h h'
      · exact (hnone r).2 h'
    · rcases h' with rfl | ⟨-, t, rfl, -⟩ | h'
      · exact (hnone []).1 h
      · exact (hnone t).1 h
      · exact ihRest hrest h h'

end Relative

/-! ## The list -/

section Listing
variable {κ : Type} {sys : System κ} {folder : Folder} {root : Path}

theorem fileAt_of_mem {q : Path} (h : q ∈ traverseEntries sys root folder) :
    ∃ p, folder.FileAt p ∧ q = root.below p := by
  induction folder generalizing root with
  | done => exact absurd h List.not_mem_nil
  | file name contents rest ih =>
    unfold traverseEntries at h
    rcases List.mem_cons.mp h with rfl | h
    · exact ⟨[name], .inl rfl, Path.child_eq_below ..⟩
    · obtain ⟨p, hp, rfl⟩ := ih h
      exact ⟨p, .inr hp, rfl⟩
  | subdir name below rest ihBelow ihRest =>
    unfold traverseEntries at h
    rcases List.mem_append.mp h with h | h
    · cases hdots : isDots name with
      | true =>
        rw [hdots] at h
        exact absurd h List.not_mem_nil
      | false =>
        rw [hdots] at h
        cases hopen : sys.findFirst (root.child name) with
        | false =>
          rw [hopen] at h
          exact absurd h List.not_mem_nil
        | true =>
          rw [hopen] at h
          obtain ⟨r, hr, rfl⟩ := ihBelow h
          exact ⟨name :: r, .inl ⟨hdots, r, rfl, hr⟩, (Path.below_cons ..).symm⟩
    · obtain ⟨p, hp, rfl⟩ := ihRest h
      exact ⟨p, .inr hp, rfl⟩

theorem mem_of_fileAt {p : List Path} (ho : folder.Opens sys root) (hp : folder.FileAt p) :
    root.below p ∈ traverseEntries sys root folder := by
  induction folder generalizing root p with
  | done => exact absurd hp id
  | file name contents rest ih =>
    unfold traverseEntries
    rcases hp with rfl | hp
    · rw [← Path.child_eq_below]
      exact List.mem_cons_self ..
    · exact List.mem_cons_of_mem _ (ih ho hp)
  | subdir name below rest ihBelow ihRest =>
    unfold traverseEntries
    apply List.mem_append.mpr
    rcases hp with ⟨hdots, r, rfl, hr⟩ | hp
    · obtain ⟨hopen, hbelow⟩ := ho.1 hdots
      left
      rw [hdots, hopen, Path.below_cons]
      exact ihBelow hbelow hr
    · exact .inr (ihRest ho.2 hp)

/-- What the items with other names give has other paths. -/
theorem below_notMem_rest {name : Path} {rest : Folder} {r : List Path} (hname : ValidName name)
    (hr : ∀ n ∈ r, '\\' ∉ n) (hfresh : name ∉ rest.names) (hrest : rest.Proper) :
    root.below (name :: r) ∉ traverseEntries sys root rest := by
  intro h
  obtain ⟨p, hp, heq⟩ := fileAt_of_mem h
  have hvalid : ∀ n ∈ name :: r, '\\' ∉ n := by
    intro n hn
    rcases List.mem_cons.mp hn with rfl | hn
    · exact hname.noBackslash
    · exact hr n hn
  have hsame := Path.below_inj hvalid (fun n hn => (hrest.validFile hp n hn).noBackslash) heq
  obtain ⟨n, t, hp', hn⟩ := hp.head
  rw [hp'] at hsame
  obtain ⟨rfl, -⟩ := List.cons.inj hsame
  exact hfresh hn

theorem traverseEntries_nodup (hf : folder.Proper) : (traverseEntries sys root folder).Nodup := by
  induction folder generalizing root with
  | done => exact List.nodup_nil
  | file name contents rest ih =>
    obtain ⟨hname, hfresh, hrest⟩ := hf
    unfold traverseEntries
    rw [List.nodup_cons, Path.child_eq_below]
    exact ⟨below_notMem_rest hname (fun n hn => absurd hn List.not_mem_nil) hfresh hrest, ih hrest⟩
  | subdir name below rest ihBelow ihRest =>
    obtain ⟨hname, hfresh, hbelow, hrest⟩ := hf
    unfold traverseEntries
    cases hdots : isDots name with
    | true =>
      simp only [if_true, List.nil_append]
      exact ihRest hrest
    | false =>
      cases sys.findFirst (root.child name) with
      | false =>
        simp only [Bool.false_eq_true, if_false, List.nil_append]
        exact ihRest hrest
      | true =>
        simp only [Bool.false_eq_true, if_false, if_true]
        refine (ihBelow (hbelow hdots)).append (ihRest hrest) ?_
        intro q hq
        obtain ⟨r, hr, rfl⟩ := fileAt_of_mem hq
        rw [← Path.below_cons]
        exact below_notMem_rest hname
          (fun n hn => ((hbelow hdots).validFile hr n hn).noBackslash) hfresh hrest

/-- **What `TraverseFloder` adds to the list**: the paths of the regular files below the folder, each
once and nothing else. -/
theorem traverseFloder_lists (hf : folder.Proper) (hroot : sys.findFirst root = true)
    (ho : folder.Opens sys root) (vctFileList : List Path) :
    ∃ found, (traverseFloderInto sys root folder vctFileList).2 = vctFileList ++ found ∧
      found.Nodup ∧ (∀ q, q ∈ found ↔ ∃ p, folder.FileAt p ∧ q = root.below p) ∧
      (∀ p, folder.FolderAt p → root.below p ∉ found) ∧
      ∀ p q, folder.FileAt p → folder.FileAt q → root.below p = root.below q → p = q := by
  have hlist : traverseFloder sys root folder = traverseEntries sys root folder := if_pos hroot
  have hinj : ∀ p q, (∀ n ∈ p, ValidName n) → (∀ n ∈ q, ValidName n) → root.below p = root.below q →
      p = q := fun p q hp hq =>
    Path.below_inj (fun n hn => (hp n hn).noBackslash) fun n hn => (hq n hn).noBackslash
  refine ⟨_, traverseFloderInto_eq .., ?_⟩
  rw [hlist]
  refine ⟨traverseEntries_nodup hf, fun q => ⟨fileAt_of_mem, ?_⟩, fun p hp hmem => ?_,
    fun p q hp hq => hinj p q (hf.validFile hp) (hf.validFile hq)⟩
  · rintro ⟨p, hp, rfl⟩
    exact mem_of_fileAt ho hp
  obtain ⟨q, hq, heq⟩ := fileAt_of_mem hmem
  obtain rfl := hinj p q (hf.validFolder hp) (hf.validFile hq) heq
  exact hf.not_both hq hp

end Listing

/-- `smallFolder` as it is delivered, `.` and `..` among the items. -/
def dottedFolder : Folder :=
  .subdir ['.', '.'] .done (.file ['f'] [1, 2] (.subdir ['.'] .done (.subdir ['t']
    (.subdir ['.'] .done (.file ['g'] [3] (.subdir ['.', '.'] .done .done))) .done)))

theorem ValidName.of_plain {name : Path} (h : name.all (fun c => c ∉ ['\\', '/', Char.ofNat 0]) = true) :
    ValidName name := by
  have hall := fun c hc => of_decide_eq_true (List.all_eq_true.mp h c hc)
  exact ⟨fun hc => hall _ hc (by simp), fun hc => hall _ hc (by simp), fun hc => hall _ hc (by simp)⟩

theorem dottedFolder_proper : dottedFolder.Proper := by
  unfold dottedFolder
  simp only [Folder.Proper, Folder.names]
  refine ⟨.of_plain (by decide), by decide, fun _ => trivial, .of_plain (by decide), by decide,
    .of_plain (by decide), by decide, fun _ => trivial, .of_plain (by decide), by decide, fun _ => ?_,
    trivial⟩
  exact ⟨.of_plain (by decide), by decide, fun _ => trivial, .of_plain (by decide), by decide,
    .of_plain (by decide), by decide, fun _ => trivial, trivial⟩

theorem traverseFloder_lists_sample : ∃ found,
    (traverseFloderInto (mostly (fun _ => true) (fun _ => true) true) smallPath dottedFolder
      [['x']]).2 = [['x']] ++ found ∧ smallPath.below [['t'], ['g']] ∈ found := by
  have ho : dottedFolder.Opens (mostly (fun _ => true) (fun _ => true) true) smallPath :=
    ⟨fun _ => ⟨rfl, trivial⟩, fun _ => ⟨rfl, trivial⟩, fun _ => ⟨rfl, fun _ => ⟨rfl, trivial⟩,
      fun _ => ⟨rfl, trivial⟩, trivial⟩, trivial⟩
  obtain ⟨found, hrun, -, hmem, -⟩ := traverseFloder_lists dottedFolder_proper rfl ho [['x']]
  refine ⟨found, hrun, (hmem _).mpr ⟨[['t'], ['g']], ?_, rfl⟩⟩
  simp [dottedFolder, Folder.FileAt, isDots]

end AppUtil.Zip
