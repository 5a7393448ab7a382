import AppUtil.MiniZip.Headers

/-! # `unzOpen64` on an archive

The end record is the last one that looks like it. Where nothing reads as a zip64 locator, what `zip.c`
wrote is opened unless it has no entries, or the signature stands once more behind the end record's own. -/
namespace AppUtil.MiniZip
open AppUtil.Lib
open AppUtil.Zip (Bytes)
set_option autoImplicit false

/-! ## Searching -/

theorem searched_endSignature (file : Bytes) :
    Searched endSignature file (min 0xffff file.length) (searchCentralDir file) :=
  searched_backSearch (by decide) (by decide) (by decide)

/-- The last end record in the last 65535 bytes is found, wherever the blocks of the search meet, unless it is the
very beginning of the file. -/
theorem searchCentralDir_eq_iff (file : Bytes) (pos : ℕ) :
    searchCentralDir file = pos ↔
      (pos ≠ 0 ∧ StandsAt endSignature file pos ∧ file.length - 0xffff ≤ pos ∧
        ∀ q, pos < q → ¬ StandsAt endSignature file q) ∨
      (pos = 0 ∧ ∀ q, 0 < q → file.length - 0xffff ≤ q → ¬ StandsAt endSignature file q) := by
  have hsearch := searched_endSignature file
  have hback : file.length - min 0xffff file.length = file.length - 0xffff := by omega
  constructor
  · intro hpos
    rw [hpos] at hsearch
    by_cases hzero : pos = 0
    · right
      refine ⟨hzero, ?_⟩
      rw [← hback]
      exact hsearch.nowhere hzero
    · left
      obtain ⟨hstands, hlow, hlast⟩ := hsearch.found hzero
      rw [hback] at hlow
      exact ⟨hzero, hstands, hlow, hlast⟩
  · intro hcase
    cases hcase with
    | inl hfound =>
      obtain ⟨hne, hstands, hlow, hlast⟩ := hfound
      rw [← hback] at hlow
      exact hsearch.eq_of_last (Nat.pos_of_ne_zero hne) hlow hstands hlast
    | inr hnowhere =>
      obtain ⟨rfl, hnone⟩ := hnowhere
      by_contra hne
      obtain ⟨hstands, hlow, -⟩ := hsearch.found hne
      rw [hback] at hlow
      exact hnone _ (Nat.pos_of_ne_zero hne) hlow hstands

theorem searched_locatorSignature (file : Bytes) :
    Searched locatorSignature file (min 0xffff file.length) (searchSignature locatorSignature file) :=
  searched_backSearch (by decide) (by decide) (by decide)

theorem standsAt_append (pre signature rest : Bytes) :
    StandsAt signature (pre ++ (signature ++ rest)) pre.length := by
  rw [StandsAt, List.drop_left]
  exact List.prefix_append signature rest

/-- What the bytes from `p` on would have to be for a zip64 archive. -/
def LocatorAt (file : Bytes) (p : ℕ) : Prop :=
  StandsAt locatorSignature file p ∧ ∃ relativeOffset rest rest',
    readLocator.run (file.drop p) = some ((0, relativeOffset, 1), rest) ∧
    getLong.run (file.drop relativeOffset) = some (zip64EndHeaderMagic, rest')

theorem searchCentralDir64_eq_zero {file : Bytes} (h : ∀ p, ¬ LocatorAt file p) : searchCentralDir64 file = 0 := by
  have hsearch := searched_locatorSignature file
  unfold searchCentralDir64
  generalize searchSignature locatorSignature file = found at hsearch
  by_cases hfound : found = 0
  · rw [if_pos hfound]
  · rw [if_neg hfound]
    obtain ⟨hstands, -, -⟩ := hsearch.found hfound
    cases hloc : readLocator.run (file.drop found) with
    | none => rfl
    | some r =>
      obtain ⟨⟨disk, relativeOffset, disks⟩, rest⟩ := r
      show (if disk ≠ 0 ∨ disks ≠ 1 then 0 else _) = 0
      by_cases hdisk : disk ≠ 0 ∨ disks ≠ 1
      · rw [if_pos hdisk]
      · rw [if_neg hdisk]
        obtain ⟨hzero, hone⟩ := not_or.mp hdisk
        obtain rfl := not_not.mp hzero
        obtain rfl := not_not.mp hone
        cases hlong : getLong.run (file.drop relativeOffset) with
        | none => rfl
        | some r =>
          obtain ⟨uL, rest'⟩ := r
          show (if uL ≠ zip64EndHeaderMagic then 0 else relativeOffset) = 0
          by_cases huL : uL = zip64EndHeaderMagic
          · subst huL
            exact absurd ⟨hstands, relativeOffset, rest, rest', hloc, hlong⟩ (h found)
          · rw [if_pos huL]

/-! ## The records at the end -/

theorem run_readEndRecord (numberEntry size offset : ℕ) :
    readEndRecord.run (endRecord numberEntry size offset) = some (⟨0, 0, min numberEntry 0xffff,
      min numberEntry 0xffff, stored size 4, min offset invalidValue⟩, []) := by
  have hnumber : stored (min numberEntry 0xffff) 2 = min numberEntry 0xffff :=
    stored_of_lt (by omega)
  have hoffset : stored (min offset invalidValue) 4 = min offset invalidValue :=
    stored_of_lt (by unfold invalidValue; omega)
  have hlast : ∀ k : ℕ → Reader EndInfo, (getNumber 2 >>= k).run (putValue 0 2) = (k (stored 0 2)).run [] := by
    intro k
    have h := run_getNumber_bind 0 2 [] k
    rw [List.append_nil] at h
    exact h
  simp only [readEndRecord, endRecord, getShort, getLong, run_getNumber_bind, hlast, hnumber, hoffset]
  rfl

theorem run_readZip64EndRecord {numberEntry size offset : ℕ} (hnumber : numberEntry < 2 ^ 64) (hsize : size < 2 ^ 64)
    (hoffset : offset < 2 ^ 64) (rest : Bytes) :
    readZip64EndRecord.run (zip64EndRecord numberEntry size offset ++ rest) =
      some (⟨0, 0, numberEntry, numberEntry, size, offset⟩, rest) := by
  have hnumber' : stored numberEntry 8 = numberEntry := stored_of_lt hnumber
  have hsize' : stored size 8 = size := stored_of_lt hsize
  have hoffset' : stored offset 8 = offset := stored_of_lt hoffset
  simp only [readZip64EndRecord, zip64EndRecord, List.append_assoc, getShort, getLong, getLong64, run_getNumber_bind,
    hnumber', hsize', hoffset']
  rfl

theorem run_readLocator {pos : ℕ} (hpos : pos < 2 ^ 64) (rest : Bytes) :
    readLocator.run (zip64Locator pos ++ rest) = some ((0, pos, 1), rest) := by
  have hpos' : stored pos 8 = pos := stored_of_lt hpos
  simp only [readLocator, zip64Locator, List.append_assoc, getLong, getLong64, run_getNumber_bind, hpos']
  rfl

/-! ## Archives -/

theorem endRecord_signature (numberEntry size offset : ℕ) :
    ∃ rest, endRecord numberEntry size offset = endSignature ++ rest := by
  have hmagic : putValue endHeaderMagic 4 = endSignature := by decide
  exact ⟨_, by rw [endRecord, hmagic]⟩

theorem zip64Locator_signature (pos : ℕ) : ∃ rest, zip64Locator pos = locatorSignature ++ rest := by
  have hmagic : putValue zip64EndLocHeaderMagic 4 = locatorSignature := by decide
  exact ⟨_, by rw [zip64Locator, hmagic]⟩

theorem length_endRecord (numberEntry size offset : ℕ) : (endRecord numberEntry size offset).length = 22 := by
  simp only [endRecord, List.length_append, length_putValue]

theorem length_zip64Locator (pos : ℕ) : (zip64Locator pos).length = 20 := by
  simp only [zip64Locator, List.length_append, length_putValue]

theorem length_zip64EndRecord (numberEntry size offset : ℕ) :
    (zip64EndRecord numberEntry size offset).length = 56 := by
  simp only [zip64EndRecord, List.length_append, length_putValue]

variable {items : List Item}

theorem length_localParts_ge (items : List Item) : 50 * items.length ≤ (localParts items).length := by
  induction items with
  | nil => exact Nat.zero_le _
  | cons it rest ih =>
    have hlen := it.length_localPart
    have hcons : localParts (it :: rest) = it.localPart ++ localParts rest := List.flatMap_cons
    rw [hcons, List.length_append, List.length_cons]
    omega

/-- How many entries `unzOpen64` finds: without the zip64 records there are two bytes for the number. -/
def entriesFound (items : List Item) : ℕ :=
  if (localParts items).length ≥ invalidValue then items.length else min items.length 0xffff

/-- The signature of a record stands once more behind that record's own. -/
def Misleading (items : List Item) : Prop :=
  if (localParts items).length ≥ invalidValue then
    ∃ q, (archive items).length < q + 42 ∧ StandsAt locatorSignature (archive items) q
  else ∃ q, (archive items).length < q + 22 ∧ StandsAt endSignature (archive items) q

/-- An archive of a length that a file can have, with a directory that its end can tell the size of, and
in which nothing reads as a zip64 locator when there is none. -/
structure Ordinary (items : List Item) : Prop where
  length : (archive items).length < 2 ^ 63
  directory : (centralDir 0 items).length < 2 ^ 32
  locator : (localParts items).length < invalidValue → ∀ p, ¬ LocatorAt (archive items) p

/-- The archive as it is opened. -/
def openedUnz (ι : Type) (items : List Item) : Unz ι := {
  file := archive items
  numberEntry := entriesFound items
  byteBeforeTheZipfile := 0
  numFile := 0
  posInCentralDir := 0
  currentFileOk := false
  centralPos := (localParts items).length + (centralDir 0 items).length
  sizeCentralDir := (centralDir 0 items).length
  offsetCentralDir := (localParts items).length
  curFileInfo := default
  offsetCurfile := 0
  pfileInZipRead := none }

theorem archive_small (h : (localParts items).length < invalidValue) :
    archive items = localParts items ++ centralDir 0 items ++
      endRecord items.length ((centralDir 0 items).length % 2 ^ 32) (localParts items).length := by
  rw [archive, zip64End, if_neg (Nat.not_le.mpr h), List.nil_append, List.append_assoc]

theorem archive_large (h : (localParts items).length ≥ invalidValue) :
    archive items = localParts items ++ centralDir 0 items ++
      (zip64EndRecord items.length ((centralDir 0 items).length % 2 ^ 32) (localParts items).length ++
        (zip64Locator ((localParts items).length + (centralDir 0 items).length) ++
          endRecord items.length ((centralDir 0 items).length % 2 ^ 32) (localParts items).length)) := by
  rw [archive, zip64End, if_pos h, List.append_assoc, List.append_assoc]

theorem findEnd_small (h : Ordinary items) (hsmall : (localParts items).length < invalidValue)
    (hne : items ≠ []) (hend : ¬ Misleading items) :
    findEnd (archive items) = some ((localParts items).length + (centralDir 0 items).length,
      ⟨0, 0, entriesFound items, entriesFound items, (centralDir 0 items).length, (localParts items).length⟩) := by
  have hnot : ¬ (localParts items).length ≥ invalidValue := Nat.not_le.mpr hsmall
  have h64 := searchCentralDir64_eq_zero (h.locator hsmall)
  have hsize : (centralDir 0 items).length % 2 ^ 32 = (centralDir 0 items).length := Nat.mod_eq_of_lt h.directory
  have hpos : 0 < items.length := List.length_pos_iff.mpr hne
  have hlen := length_localParts_ge items
  have harchive := archive_small hsmall
  rw [Misleading, if_neg hnot] at hend
  rw [hsize] at harchive
  have hlength : (archive items).length = (localParts items).length + (centralDir 0 items).length + 22 := by
    rw [harchive, List.length_append, List.length_append, length_endRecord]
  -- the end record is the last one
  have hsearch : searchCentralDir (archive items) = (localParts items).length + (centralDir 0 items).length := by
    refine (searched_endSignature (archive items)).eq_of_last (by omega) (by omega) ?_ fun q hq hstands =>
      hend ⟨q, by omega, hstands⟩
    obtain ⟨rest, hrest⟩ := endRecord_signature items.length (centralDir 0 items).length (localParts items).length
    rw [harchive, hrest, ← List.length_append]
    exact standsAt_append _ _ _
  have hdrop : (archive items).drop ((localParts items).length + (centralDir 0 items).length) =
      endRecord items.length (centralDir 0 items).length (localParts items).length := by
    rw [harchive, ← List.length_append, List.drop_left]
  have hstored : stored (centralDir 0 items).length 4 = (centralDir 0 items).length := stored_of_lt h.directory
  have hoffset : min (localParts items).length invalidValue = (localParts items).length := by omega
  have hfound : entriesFound items = min items.length 0xffff := if_neg hnot
  have hne0 : ¬ (localParts items).length + (centralDir 0 items).length = 0 := by omega
  unfold findEnd
  simp only [h64, hsearch, ne_eq, not_true_eq_false, if_false, if_neg hne0, hdrop, run_readEndRecord, hstored, hoffset,
    hfound, Option.map_some]

theorem length_archive_large (hlarge : (localParts items).length ≥ invalidValue) :
    (archive items).length = (localParts items).length + (centralDir 0 items).length + 98 := by
  rw [archive_large hlarge]
  simp only [List.length_append, length_zip64EndRecord, length_zip64Locator, length_endRecord]

theorem searchCentralDir64_large (h : Ordinary items) (hlarge : (localParts items).length ≥ invalidValue)
    (hend : ¬ Misleading items) :
    searchCentralDir64 (archive items) = (localParts items).length + (centralDir 0 items).length := by
  have hlength := length_archive_large hlarge
  have hbound := h.length
  have harchive := archive_large hlarge
  rw [Misleading, if_pos hlarge] at hend
  rw [Nat.mod_eq_of_lt h.directory] at harchive
  generalize hn : items.length = n at harchive
  generalize hend' : endRecord n (centralDir 0 items).length (localParts items).length = ending at harchive
  generalize hrecord : zip64EndRecord n (centralDir 0 items).length (localParts items).length = record at harchive
  generalize hpos : (localParts items).length + (centralDir 0 items).length = pos at hlength harchive ⊢
  have hfront : (localParts items ++ centralDir 0 items).length = pos := by rw [List.length_append, hpos]
  have hlenrecord : record.length = 56 := by rw [← hrecord, length_zip64EndRecord]
  have hfront' : (localParts items ++ centralDir 0 items ++ record).length = pos + 56 := by
    rw [List.length_append, hfront, hlenrecord]
  have harchive' :
      archive items = localParts items ++ centralDir 0 items ++ record ++ (zip64Locator pos ++ ending) := by
    rw [harchive, List.append_assoc _ record]
  -- the locator is the last one
  have hsearch : searchSignature locatorSignature (archive items) = pos + 56 := by
    refine (searched_locatorSignature (archive items)).eq_of_last (by omega) (by omega) ?_ fun q hq hstands =>
      hend ⟨q, by omega, hstands⟩
    obtain ⟨rest, hrest⟩ := zip64Locator_signature pos
    rw [harchive', hrest, ← hfront', List.append_assoc locatorSignature]
    exact standsAt_append _ _ _
  have hdrop : (archive items).drop (pos + 56) = zip64Locator pos ++ ending := by
    rw [harchive', ← hfront', List.drop_left]
  have hdrop' : (archive items).drop pos = record ++ (zip64Locator pos ++ ending) := by
    rw [harchive, ← hfront, List.drop_left]
  have hmagic : stored zip64EndHeaderMagic 4 = zip64EndHeaderMagic := by decide
  have hlong : ∃ rest, getLong.run (record ++ (zip64Locator pos ++ ending)) = some (zip64EndHeaderMagic, rest) := by
    exact ⟨_, by rw [← hrecord, zip64EndRecord, List.append_assoc, getLong, run_getNumber_putValue, hmagic]⟩
  obtain ⟨rest, hlong⟩ := hlong
  have hne : ¬ pos + 56 = 0 := by omega
  unfold searchCentralDir64
  simp only [hsearch, if_neg hne, hdrop, run_readLocator (show pos < 2 ^ 64 by omega), hdrop', hlong]
  rfl

theorem findEnd_large (h : Ordinary items) (hlarge : (localParts items).length ≥ invalidValue)
    (hend : ¬ Misleading items) :
    findEnd (archive items) = some ((localParts items).length + (centralDir 0 items).length,
      ⟨0, 0, entriesFound items, entriesFound items, (centralDir 0 items).length, (localParts items).length⟩) := by
  have h64 := searchCentralDir64_large h hlarge hend
  have hlength := length_archive_large hlarge
  have hbound := h.length
  have hlen := length_localParts_ge items
  have hdrop : ∃ rest, (archive items).drop ((localParts items).length + (centralDir 0 items).length) =
      zip64EndRecord items.length (centralDir 0 items).length (localParts items).length ++ rest := by
    exact ⟨_, by rw [archive_large hlarge, ← List.length_append, List.drop_left, Nat.mod_eq_of_lt h.directory]⟩
  obtain ⟨rest, hdrop⟩ := hdrop
  have hrun := run_readZip64EndRecord (show items.length < 2 ^ 64 by omega)
    (show (centralDir 0 items).length < 2 ^ 64 by omega) (show (localParts items).length < 2 ^ 64 by omega) rest
  have hfound : entriesFound items = items.length := if_pos hlarge
  have hne : ¬ (localParts items).length + (centralDir 0 items).length = 0 := by
    unfold invalidValue at hlarge
    omega
  unfold findEnd
  simp only [h64, ne_eq, hne, not_false_eq_true, if_true, hdrop, hrun, hfound, Option.map_some]

/-- The archive is opened at its first entry. -/
theorem unzOpen64_archive (ι : Type) (h : Ordinary items) (hne : items ≠ []) (hend : ¬ Misleading items) :
    unzOpen64 (archive items) = some (openedUnz ι items).unzGoToFirstFile.2 := by
  have hfind : findEnd (archive items) = some ((localParts items).length + (centralDir 0 items).length,
      ⟨0, 0, entriesFound items, entriesFound items, (centralDir 0 items).length, (localParts items).length⟩) := by
    by_cases hlarge : (localParts items).length ≥ invalidValue
    · exact findEnd_large h hlarge hend
    · exact findEnd_small h (Nat.not_le.mp hlarge) hne hend
  have hbound : (localParts items).length + (centralDir 0 items).length < 2 ^ 64 := by
    have hlength := h.length
    have hle : (localParts items).length + (centralDir 0 items).length ≤ (archive items).length := by
      rw [archive, ← List.append_assoc, List.length_append, List.length_append]
      omega
    omega
  have hmod : ((localParts items).length + (centralDir 0 items).length) % 2 ^ 64 =
      (localParts items).length + (centralDir 0 items).length := Nat.mod_eq_of_lt hbound
  have haccept : EndInfo.Accepted ⟨0, 0, entriesFound items, entriesFound items, (centralDir 0 items).length,
      (localParts items).length⟩ ((localParts items).length + (centralDir 0 items).length) := by
    refine ⟨rfl, rfl, rfl, ?_⟩
    show ¬ _ < ((localParts items).length + (centralDir 0 items).length) % 2 ^ 64
    rw [hmod]
    exact Nat.lt_irrefl _
  unfold unzOpen64
  rw [hfind]
  simp only [if_pos haccept, hmod, Nat.sub_self]
  rfl

/-- The end record of an archive without entries stands at the beginning of the file. -/
theorem unzOpen64_nil (ι : Type) : unzOpen64 (archive []) = (none : Option (Unz ι)) := by
  have hlen : (archive []).length = 22 := by decide
  have hlocator : ∀ q < 19, ¬ StandsAt locatorSignature (archive []) q := by decide
  have hend : ∀ q < 19, 0 < q → ¬ StandsAt endSignature (archive []) q := by decide
  have h64 : searchCentralDir64 (archive []) = 0 := by
    apply searchCentralDir64_eq_zero
    intro p hp
    have hle := hp.1.le_length (by decide)
    rw [hlen] at hle
    exact hlocator p (Nat.lt_succ_of_le (Nat.le_of_add_le_add_right hle)) hp.1
  have hsearch : searchCentralDir (archive []) = 0 := by
    by_contra hne
    obtain ⟨hstands, -, -⟩ := (searched_endSignature (archive [])).found hne
    have hle := hstands.le_length (by decide)
    rw [hlen] at hle
    exact hend _ (Nat.lt_succ_of_le (Nat.le_of_add_le_add_right hle)) (Nat.pos_of_ne_zero hne) hstands
  unfold unzOpen64 findEnd
  rw [h64, hsearch]
  rfl

end AppUtil.MiniZip
