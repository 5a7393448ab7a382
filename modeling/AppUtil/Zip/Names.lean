import Mathlib.Data.List.TakeWhile
import AppUtil.Zip.Traversal

/-! # The names of the entries

`GetRelativePath` cuts off a number of characters that is computed from the folder without its
trailing backslash, and `TraverseFloder` lists paths below the folder with it. -/
namespace AppUtil.Zip
open AppUtil.Lib.Text
set_option autoImplicit false

section Cutting
variable {R₀ : Path}

/-- What `find_last_of` cuts a path into. -/
theorem upToLast_append_afterLast (path : Path) : upToLast path ++ afterLast path = path := by
  unfold upToLast afterLast
  rw [← List.reverse_append, List.takeWhile_append_dropWhile, List.reverse_reverse]

theorem drop_afterLast (path rest : Path) :
    (path ++ rest).drop (path.length - (afterLast path).length) = afterLast path ++ rest := by
  have hlen : path.length - (afterLast path).length = (upToLast path).length := by
    have h := congrArg List.length (upToLast_append_afterLast path)
    rw [List.length_append] at h
    omega
  have hsplit : path ++ rest = upToLast path ++ (afterLast path ++ rest) := by
    rw [← List.append_assoc, upToLast_append_afterLast]
  rw [hlen, hsplit, List.drop_left]

theorem folderPath_plain (h : R₀.getLast? ≠ some '\\') : folderPath R₀ = R₀ := if_neg h

theorem folderPath_slash (R₀ : Path) : folderPath (R₀ ++ ['\\']) = R₀ := by
  unfold folderPath
  rw [if_pos (List.getLast?_concat ..), List.dropLast_concat]

theorem getRelativePath_plain (h : R₀.getLast? ≠ some '\\') (p : List Path) :
    getRelativePath R₀ (R₀.below p) = (afterLast R₀).below p := by
  unfold getRelativePath folderName
  rw [folderPath_plain h]
  exact drop_afterLast R₀ _

/-- With a backslash at the end there are two of them in the name. -/
theorem getRelativePath_slash (R₀ : Path) (p : List Path) :
    getRelativePath (R₀ ++ ['\\']) ((R₀ ++ ['\\']).below p) = afterLast R₀ ++ '\\' :: joined '\\' p := by
  unfold getRelativePath folderName
  rw [folderPath_slash, Path.below, List.append_assoc]
  exact drop_afterLast R₀ _

theorem getRelativePath_slash_ne (R₀ : Path) (p : List Path) :
    getRelativePath (R₀ ++ ['\\']) ((R₀ ++ ['\\']).below p) ≠ (afterLast R₀).below p := by
  rw [getRelativePath_slash, Path.below]
  intro h
  have hlen := congrArg List.length (List.append_cancel_left h)
  rw [List.length_cons] at hlen
  omega

end Cutting

/-! ## Out of the archive -/

section Restoring
variable {D : Path} {name : Path}

/-- A name that fits into the buffer is read as it is. -/
theorem szFilePath_eq {e : UnzEntry} (hlen : e.name.length < maxPath) (hnul : Char.ofNat 0 ∉ e.name) :
    e.szFilePath = e.name := by
  unfold UnzEntry.szFilePath
  rw [if_pos hlen]
  apply List.takeWhile_eq_self_iff.mpr
  intro c hc
  refine decide_eq_true fun h => hnul ?_
  rw [← h]
  exact hc

theorem netPathToWinPath_eq {path : Path} (h : '/' ∉ path) : netPathToWinPath path = path := by
  unfold netPathToWinPath
  refine (List.map_congr_left fun c hc => if_neg ?_).trans (List.map_id path)
  rintro rfl
  exact h hc

/-- Whether a name that does not fit is read as it is depends on what stands behind the buffer. -/
theorem szFilePath_cut (hlen : maxPath ≤ name.length) (hnul : Char.ofNat 0 ∉ name) :
    ∃ e : UnzEntry, e.name = name ∧ e.szFilePath.length ≠ name.length := by
  have hcut : ∀ beyond : Path, Char.ofNat 0 ∉ beyond →
      (UnzEntry.mk name beyond [] false).szFilePath.length = maxPath + beyond.length := by
    intro beyond hb
    unfold UnzEntry.szFilePath
    rw [if_neg (Nat.not_lt.mpr hlen), List.takeWhile_eq_self_iff.mpr, List.length_append,
      List.length_take, Nat.min_eq_left hlen]
    intro c hc
    refine decide_eq_true fun h => ?_
    subst h
    rcases List.mem_append.mp hc with hc | hc
    · exact hnul (List.mem_of_mem_take hc)
    · exact hb hc
  by_cases heq : name.length = maxPath
  · refine ⟨⟨name, ['x'], [], false⟩, rfl, ?_⟩
    rw [hcut ['x'] (by decide), heq]
    exact Nat.succ_ne_self maxPath
  · refine ⟨⟨name, [], [], false⟩, rfl, ?_⟩
    rw [hcut [] List.not_mem_nil]
    exact fun h => heq h.symm

theorem outFilePath_eq {e : UnzEntry} (hD : '/' ∉ D) (hname : '/' ∉ e.name)
    (hnul : Char.ofNat 0 ∉ e.name) (hlen : e.name.length < maxPath) :
    outFilePath D e = D.child e.name := by
  unfold outFilePath
  rw [szFilePath_eq hlen hnul]
  apply netPathToWinPath_eq
  intro h
  rcases List.mem_append.mp h with h | h
  · exact hD h
  · rcases List.mem_cons.mp h with h | h
    · exact absurd h (by decide)
    · exact hname h

theorem length_outFilePath (D : Path) (e : UnzEntry) :
    (outFilePath D e).length = D.length + (e.szFilePath.length + 1) := by
  unfold outFilePath netPathToWinPath Path.child
  rw [List.length_map, List.length_append, List.length_cons]

end Restoring

/-! ## The spelling of the folder -/

section Spelling
variable {κ : Type} {sys : System κ} {folder : Folder} {R₀ R D : Path}

/-- What `TraverseFloder` lists below `R` are the files, the name of each begins with the last
component of `R₀`, no two have one name, and `UnCompress` puts each where its name says. -/
structure NamesExact (sys : System κ) (folder : Folder) (R₀ R D : Path) : Prop where
  listed : ∀ q ∈ traverseFloder sys R folder, ∃ p, folder.FileAt p ∧ q = R.below p
  name : ∀ p, folder.FileAt p → getRelativePath R (R.below p) = (afterLast R₀).below p
  distinct : ((traverseFloder sys R folder).map (getRelativePath R)).Nodup
  restored : ∀ p, folder.FileAt p → ∀ e : UnzEntry, e.name = getRelativePath R (R.below p) →
    outFilePath D e = (D.child (afterLast R₀)).below p

theorem mem_traverseFloder {q : Path} (h : q ∈ traverseFloder sys R folder) :
    ∃ p, folder.FileAt p ∧ q = R.below p := by
  unfold traverseFloder at h
  cases hopen : sys.findFirst R with
  | false =>
    rw [hopen] at h
    exact absurd h List.not_mem_nil
  | true =>
    rw [hopen] at h
    exact fileAt_of_mem h

theorem names_nodup (hf : folder.Proper) :
    ((traverseFloder sys R folder).map (getRelativePath R)).Nodup := by
  have hnodup : (traverseFloder sys R folder).Nodup := by
    unfold traverseFloder
    split
    · exact traverseEntries_nodup hf
    · exact List.nodup_nil
  refine hnodup.map_on fun p hp q hq h => ?_
  obtain ⟨r, -, rfl⟩ := mem_traverseFloder hp
  obtain ⟨t, -, rfl⟩ := mem_traverseFloder hq
  exact getRelativePath_inj (List.prefix_append ..) (List.prefix_append ..) h

theorem notMem_below {c : Char} {path : Path} {p : List Path} (hpath : c ∉ path) (hc : c ≠ '\\')
    (hp : ∀ n ∈ p, c ∉ n) : c ∉ path.below p := by
  intro h
  rcases List.mem_append.mp h with h | h
  · exact hpath h
  · obtain ⟨n, hn, h⟩ := List.mem_flatMap.mp h
    rcases List.mem_cons.mp h with h | h
    · exact hc h
    · exact hp n hn h

theorem afterLast_subset {c : Char} (h : c ∉ R₀) : c ∉ afterLast R₀ := by
  intro hc
  refine h ?_
  rw [← upToLast_append_afterLast R₀]
  exact List.mem_append_right _ hc

/-- **When the names do not depend on how the folder is spelled**: without a backslash at the end, and
with names that fit into the buffer of `UnCompress`. -/
theorem names_exact_iff (hf : folder.Proper) (hlast : R₀.getLast? ≠ some '\\') (hslash : '/' ∉ R₀)
    (hnul : Char.ofNat 0 ∉ R₀) (hR : R = R₀ ∨ R = R₀ ++ ['\\']) (hD : '/' ∉ D) :
    NamesExact sys folder R₀ R D ↔
      ∀ p, folder.FileAt p → R = R₀ ∧ ((afterLast R₀).below p).length < maxPath := by
  have hplain : ∀ p, folder.FileAt p → '/' ∉ (afterLast R₀).below p ∧
      Char.ofNat 0 ∉ (afterLast R₀).below p := fun p hp =>
    ⟨notMem_below (afterLast_subset hslash) (by decide) fun n hn => (hf.validFile hp n hn).noSlash,
      notMem_below (afterLast_subset hnul) (by decide) fun n hn => (hf.validFile hp n hn).noNul⟩
  have hout : ∀ p, (D.child (afterLast R₀)).below p = D.child ((afterLast R₀).below p) := by
    intro p
    unfold Path.below Path.child
    rw [List.append_assoc, List.cons_append]
  constructor
  · intro h p hp
    have hspelled : R = R₀ := by
      rcases hR with hR | rfl
      · exact hR
      · exact absurd (h.name p hp) (getRelativePath_slash_ne R₀ p)
    subst hspelled
    refine ⟨rfl, Nat.lt_of_not_le fun hlong => ?_⟩
    obtain ⟨e, hname, hcut⟩ := szFilePath_cut hlong (hplain p hp).2
    have hplace := h.restored p hp e (hname.trans (h.name p hp).symm)
    have hlen := congrArg List.length hplace
    rw [hout, length_outFilePath, Path.child, List.length_append, List.length_cons] at hlen
    omega
  · intro h
    have hname : ∀ p, folder.FileAt p → getRelativePath R (R.below p) = (afterLast R₀).below p := by
      intro p hp
      obtain ⟨rfl, -⟩ := h p hp
      exact getRelativePath_plain hlast p
    refine ⟨fun q => mem_traverseFloder, hname, names_nodup hf, fun p hp e he => ?_⟩
    have he' := he.trans (hname p hp)
    obtain ⟨hs, hn⟩ := hplain p hp
    rw [outFilePath_eq hD (by rw [he']; exact hs) (by rw [he']; exact hn)
      (by rw [he']; exact (h p hp).2), he', hout]

end Spelling

theorem smallFolder_proper : smallFolder.Proper :=
  ⟨.of_plain (by decide), by decide, .of_plain (by decide), by decide,
    fun _ => ⟨.of_plain (by decide), by decide, trivial⟩, trivial⟩

theorem smallFolder_fileAt {p : List Path} (h : smallFolder.FileAt p) :
    p = [['f']] ∨ p = [['t'], ['g']] := by
  rcases h with rfl | ⟨-, r, rfl, rfl | h⟩ | h
  · exact .inl rfl
  · exact .inr rfl
  · exact absurd h id
  · exact absurd h id

theorem names_exact_iff_sample :
    NamesExact (mostly (fun _ => true) (fun _ => true) true) smallFolder smallPath smallPath
      ['c', ':', '\\', 'd'] := by
  refine (names_exact_iff smallFolder_proper (by decide) (by decide) (by decide) (.inl rfl)
    (by decide)).mpr fun p hp => ⟨rfl, ?_⟩
  rcases smallFolder_fileAt hp with rfl | rfl <;> decide

/-- Below `c:\s\` the file `f` has the name `s\\f`. -/
theorem trailing_backslash_named :
    getRelativePath (smallPath ++ ['\\']) ((smallPath ++ ['\\']).below [['f']]) =
        ['s', '\\', '\\', 'f'] ∧
      ¬ NamesExact (mostly (fun _ => true) (fun _ => true) true) smallFolder smallPath
        (smallPath ++ ['\\']) ['c', ':', '\\', 'd'] := by
  refine ⟨by decide, fun h => ?_⟩
  exact absurd (h.name [['f']] (.inl rfl)) (by decide)

end AppUtil.Zip
