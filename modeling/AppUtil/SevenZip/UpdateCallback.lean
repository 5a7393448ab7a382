import Mathlib.Data.UInt
import Mathlib.Logic.Function.Defs
import Mathlib.Tactic.IntervalCases
import AppUtil.SevenZip.Packing

/-! # `CArchiveUpdateCallback`

Through it 7z.dll asks for the properties and the stream of each item of `dirItems`, in an order of its own.
A file that cannot be opened is noted, and left out of the archive. -/
namespace AppUtil.SevenZip
open AppUtil.Zip (Path)
set_option autoImplicit false

def fileAttributeDirectory : UInt32 := 0x10

/-- `CDirItem::isDir`. -/
def DirItem.isDir (item : DirItem) : Bool := item.attrib &&& fileAttributeDirectory ≠ 0

/-- The `kpid`s that are told apart; `of` are those that the other side asks for as well. -/
inductive UpdatePropId where
  | isAnti
  | of (propID : PropId)
  | cTime
  | aTime
  | other
  deriving DecidableEq, Repr

/-- The files as they are read, and `m_pfnZipCB`, `none` for NULL. -/
structure UpdateApi (σ : Type) where
  openRead : σ → Path → Bool × σ
  create : σ → Path → Bool × σ
  getLastError : σ → UInt32
  progress : Option (σ → UInt64 → UInt64 → ℤ × σ)

/-- `CArchiveUpdateCallback`; `failedCodes` are those of `failedFiles`. -/
structure UpdateCallback where
  volumesSizes : List UInt64
  volName : Path
  volExt : Path
  dirPrefix : Path
  dirItems : List DirItem
  passwordIsDefined : Bool
  password : Path
  askPassword : Bool
  needBeClosed : Bool
  uiTotal : UInt64
  failedFiles : List Path
  failedCodes : List UInt32
  deriving DecidableEq, Repr

/-- A call of 7z.dll. -/
inductive UpdateCall where
  | setTotal (size : UInt64)
  | setCompleted (completeValue : UInt64)
  | enumProperties
  | getUpdateItemInfo (index : UInt32)
  | getProperty (index : UInt32) (propID : UpdatePropId)
  | getStream (index : UInt32)
  | setOperationResult (operationResult : ℤ)
  | getVolumeSize (index : UInt32)
  | getVolumeStream (index : UInt32)
  | cryptoGetTextPassword2
  deriving DecidableEq, Repr

/-- What it gets: the `HRESULT`, and what is written to the out parameters; streams are told by the paths
of their files. -/
inductive Answer where
  | plain (hr : ℤ)
  | itemInfo (newData newProperties : Bool) (indexInArchive : UInt32)
  | property (value : PropVariant)
  | inStream (hr : ℤ) (path : Option Path)
  | volumeSize (hr : ℤ) (size : Option UInt64)
  | volumeStream (hr : ℤ) (path : Option Path)
  | password (passwordIsDefined : Bool) (password : Path)
  deriving DecidableEq, Repr

def eNotImpl : ℤ := -2147467263

/-! ## The numbers of the volumes -/

/-- `temp`: the digits, the last one first. -/
def digitsOf (value : ℕ) : List Char :=
  if value < 10 then [Char.ofNat (48 + value % 10)]
  else Char.ofNat (48 + value % 10) :: digitsOf (value / 10)
  termination_by value

/-- `ConvertUInt32ToString`. -/
def convertUInt32ToString (value : UInt32) : List Char := (digitsOf value.toNat).reverse

/-- `while (res.Length() < 2)`. -/
def padTwo (res : List Char) : List Char := List.replicate (2 - res.length) '0' ++ res

/-! ## The callback -/

namespace UpdateCallback

/-- A new callback after `Init`. -/
def init (dirItems : List DirItem) : UpdateCallback where
  volumesSizes := []
  volName := []
  volExt := []
  dirPrefix := []
  dirItems := dirItems
  passwordIsDefined := false
  password := []
  askPassword := false
  needBeClosed := false
  uiTotal := 0
  failedFiles := []
  failedCodes := []

/-- `Finilize`. -/
def finilize (cb : UpdateCallback) : UpdateCallback :=
  if cb.needBeClosed then { cb with needBeClosed := false } else cb

/-- `GetProperty` of an item. -/
def propertyOf (dirItem : DirItem) : UpdatePropId → PropVariant
  | .isAnti => .bool false
  | .of .path => .bstr dirItem.name
  | .of .isDir => .bool dirItem.isDir
  | .of .size => .ui8 dirItem.size
  | .of .attrib => .ui4 dirItem.attrib
  | .of .mTime => .filetime dirItem.mTime
  | .cTime => .filetime dirItem.cTime
  | .aTime => .filetime dirItem.aTime
  | .other => .empty

/-- `GetProperty`; `none` where the index is beyond the items. -/
def getProperty (cb : UpdateCallback) (index : UInt32) (propID : UpdatePropId) : Option PropVariant :=
  if propID = .isAnti then some (.bool false)
  else cb.dirItems[index.toNat]?.map (propertyOf · propID)

section Calls
variable {σ : Type} (api : UpdateApi σ)

/-- `GetStream`; `none` where the index is beyond the items. -/
def getStream (index : UInt32) (cb : UpdateCallback) (s : σ) : Option (Answer × UpdateCallback × σ) :=
  let cb := cb.finilize
  cb.dirItems[index.toNat]?.map fun dirItem =>
    if dirItem.isDir then (.inStream sOk none, cb, s)
    else
      let path := cb.dirPrefix ++ dirItem.fullPath
      let (opened, s) := api.openRead s path
      if opened then (.inStream sOk (some path), cb, s)
      else
        (.inStream sFalse none,
          { cb with
              failedCodes := cb.failedCodes ++ [api.getLastError s]
              failedFiles := cb.failedFiles ++ [path] }, s)

/-- `GetVolumeSize`. -/
def getVolumeSize (cb : UpdateCallback) (index : UInt32) : Answer :=
  if cb.volumesSizes = [] then .volumeSize sFalse none
  else
    let index := if cb.volumesSizes.length ≤ index.toNat then cb.volumesSizes.length - 1 else index.toNat
    .volumeSize sOk cb.volumesSizes[index]?

/-- `fileName` of `GetVolumeStream`. -/
def volumeFileName (cb : UpdateCallback) (index : UInt32) : Path :=
  cb.volName ++ '.' :: padTwo (convertUInt32ToString (index + 1)) ++ cb.volExt

/-- `GetVolumeStream`. The error code is returned as it is. -/
def getVolumeStream (cb : UpdateCallback) (index : UInt32) (s : σ) : Answer × σ :=
  let fileName := cb.volumeFileName index
  let (created, s) := api.create s fileName
  if created then (.volumeStream sOk (some fileName), s)
  else (.volumeStream (api.getLastError s).toInt32.toInt none, s)

/-- `CryptoGetTextPassword2`. -/
def cryptoGetTextPassword2 (cb : UpdateCallback) : Answer :=
  if cb.passwordIsDefined = false ∧ cb.askPassword then .plain eAbort
  else .password cb.passwordIsDefined cb.password

/-- `SetCompleted`. What the progress callback returns does not matter. -/
def setCompleted (cb : UpdateCallback) (completeValue : UInt64) (s : σ) : σ :=
  match api.progress with
  | none => s
  | some pfnZipCB => (pfnZipCB s cb.uiTotal completeValue).2

/-- One call; `none` where it reads beyond the items. -/
def call (cb : UpdateCallback) (s : σ) : UpdateCall → Option (Answer × UpdateCallback × σ)
  | .setTotal size => some (.plain sOk, { cb with uiTotal := size }, s)
  | .setCompleted completeValue => some (.plain sOk, cb, cb.setCompleted api completeValue s)
  | .enumProperties => some (.plain eNotImpl, cb, s)
  | .getUpdateItemInfo _ => some (.itemInfo true true (0 - 1), cb, s)
  | .getProperty index propID => (cb.getProperty index propID).map fun value => (.property value, cb, s)
  | .getStream index => cb.getStream api index s
  | .setOperationResult _ => some (.plain sOk, { cb with needBeClosed := true }, s)
  | .getVolumeSize index => some (cb.getVolumeSize index, cb, s)
  | .getVolumeStream index =>
    let (answer, s) := cb.getVolumeStream api index s
    some (answer, cb, s)
  | .cryptoGetTextPassword2 => some (cb.cryptoGetTextPassword2, cb, s)

/-- The calls, each with what it gets. -/
def calls (cb : UpdateCallback) (s : σ) :
    List UpdateCall → Option (List (UpdateCall × Answer) × UpdateCallback × σ)
  | [] => some ([], cb, s)
  | c :: cs => do
    let (answer, cb, s) ← cb.call api s c
    let (answers, cb, s) ← cb.calls s cs
    pure ((c, answer) :: answers, cb, s)

end Calls

end UpdateCallback

/-! ## The volumes have names of their own -/

/-- The number whose digits these are, the last one first. -/
def numberOf : List Char → ℕ
  | [] => 0
  | c :: cs => (c.toNat - 48) + 10 * numberOf cs

theorem digitChar_toNat (d : ℕ) : (Char.ofNat (48 + d % 10)).toNat - 48 = d % 10 := by
  have hd : d % 10 < 10 := Nat.mod_lt d (by decide)
  generalize d % 10 = r at hd
  interval_cases r <;> rfl

theorem numberOf_digitsOf (value : ℕ) : numberOf (digitsOf value) = value := by
  induction value using digitsOf.induct with
  | case1 value h =>
    rw [digitsOf, if_pos h, numberOf, digitChar_toNat, numberOf]
    omega
  | case2 value h ih =>
    rw [digitsOf, if_neg h, numberOf, digitChar_toNat, ih]
    omega

theorem numberOf_append_zeros (cs : List Char) (n : ℕ) :
    numberOf (cs ++ List.replicate n '0') = numberOf cs := by
  induction cs with
  | nil =>
    rw [List.nil_append, numberOf]
    induction n with
    | zero => rfl
    | succ n ih =>
      rw [List.replicate_succ, numberOf, ih]
      rfl
  | cons c cs ih => rw [List.cons_append, numberOf, ih, numberOf]

theorem padTwo_injective {i j : UInt32}
    (h : padTwo (convertUInt32ToString i) = padTwo (convertUInt32ToString j)) : i = j := by
  have hnumber : ∀ k : UInt32, numberOf (padTwo (convertUInt32ToString k)).reverse = k.toNat := by
    intro k
    unfold padTwo convertUInt32ToString
    rw [List.reverse_append, List.reverse_reverse, List.reverse_replicate, numberOf_append_zeros,
      numberOf_digitsOf]
  have hnat := hnumber i
  rw [h, hnumber j] at hnat
  exact UInt32.toNat_inj.mp hnat.symm

theorem digitsOf_length_le {value n : ℕ} (h : value < 10 ^ (n + 1)) : (digitsOf value).length ≤ n + 1 := by
  induction n generalizing value with
  | zero => rw [digitsOf, if_pos (by omega), List.length_singleton]
  | succ n ih =>
    rw [digitsOf]
    split
    · rw [List.length_singleton]
      omega
    · have hdiv : value / 10 < 10 ^ (n + 1) := by
        apply Nat.div_lt_of_lt_mul
        rw [← pow_succ']
        exact h
      have hlen := ih hdiv
      rw [List.length_cons]
      omega

/-- **The files of the volumes**: no two volumes have the same, whatever the number; and the number, with its
NUL, fits into `temp`. -/
theorem volumeFileName_injective (cb : UpdateCallback) :
    Function.Injective cb.volumeFileName ∧
      ∀ index : UInt32, (convertUInt32ToString (index + 1)).length + 1 ≤ 16 := by
  refine ⟨fun i j h => ?_, fun index => ?_⟩
  · unfold UpdateCallback.volumeFileName at h
    rw [List.append_assoc, List.append_assoc] at h
    have hrest := (List.cons.inj (List.append_cancel_left h)).2
    exact add_right_cancel (padTwo_injective (List.append_cancel_right hrest))
  · have hlt := (index + 1).toNat_lt
    have hlen : (digitsOf (index + 1).toNat).length ≤ 9 + 1 := digitsOf_length_le (by omega)
    rw [convertUInt32ToString, List.length_reverse]
    omega

/-! ## What could not be opened -/

/-- The path of a stream that could not be opened. -/
def failedPath (cb : UpdateCallback) : UpdateCall × Answer → Option Path
  | (.getStream index, .inStream hr none) =>
    if hr = sFalse then cb.dirItems[index.toNat]?.map fun dirItem => cb.dirPrefix ++ dirItem.fullPath else none
  | _ => none

section Failed
variable {σ : Type} {api : UpdateApi σ}

/-- What a call leaves of the members that `GetStream` reads, and what it notes. -/
structure Notes (cb cb' : UpdateCallback) (failed : List Path) : Prop where
  dirItems : cb'.dirItems = cb.dirItems
  dirPrefix : cb'.dirPrefix = cb.dirPrefix
  files : cb'.failedFiles = cb.failedFiles ++ failed
  codes : cb'.failedCodes.length = cb.failedCodes.length + failed.length

theorem Notes.refl (cb : UpdateCallback) : Notes cb cb [] :=
  ⟨rfl, rfl, (List.append_nil _).symm, rfl⟩

theorem Notes.trans {cb cb' cb'' : UpdateCallback} {failed failed' : List Path} (h : Notes cb cb' failed)
    (h' : Notes cb' cb'' failed') : Notes cb cb'' (failed ++ failed') := by
  refine ⟨h'.dirItems.trans h.dirItems, h'.dirPrefix.trans h.dirPrefix, ?_, ?_⟩
  · rw [h'.files, h.files, List.append_assoc]
  · rw [h'.codes, h.codes, List.length_append, Nat.add_assoc]

theorem Notes.failedPath {cb cb' : UpdateCallback} {failed : List Path} (h : Notes cb cb' failed) :
    failedPath cb' = failedPath cb := by
  funext ca
  unfold SevenZip.failedPath
  rw [h.dirItems, h.dirPrefix]

theorem finilize_notes (cb : UpdateCallback) : Notes cb cb.finilize [] := by
  unfold UpdateCallback.finilize
  split
  · exact ⟨rfl, rfl, (List.append_nil _).symm, rfl⟩
  · exact .refl cb

theorem getStream_notes {cb cb' : UpdateCallback} {s s' : σ} {index : UInt32} {answer : Answer}
    (h : cb.getStream api index s = some (answer, cb', s')) :
    Notes cb cb' (failedPath cb (.getStream index, answer)).toList := by
  have hclosed := finilize_notes cb
  unfold UpdateCallback.getStream at h
  obtain ⟨dirItem, hitem, h⟩ := Option.map_eq_some_iff.mp h
  rw [← hclosed.failedPath]
  dsimp only at h
  split at h
  · cases h
    exact hclosed
  · split at h
    · cases h
      exact hclosed
    · cases h
      have hfailed : failedPath cb.finilize (.getStream index, .inStream sFalse none) =
          some (cb.finilize.dirPrefix ++ dirItem.fullPath) := by
        simp only [failedPath, if_true, hitem]
        rfl
      rw [hfailed]
      exact hclosed.trans ⟨rfl, rfl, rfl, List.length_append⟩

theorem call_notes {cb cb' : UpdateCallback} {s s' : σ} {c : UpdateCall} {answer : Answer}
    (h : cb.call api s c = some (answer, cb', s')) : Notes cb cb' (failedPath cb (c, answer)).toList := by
  cases c with
  | getStream index => exact getStream_notes h
  | getProperty index propID =>
    obtain ⟨value, -, heq⟩ := Option.map_eq_some_iff.mp h
    cases heq
    exact .refl cb
  | setTotal size =>
    cases h
    exact ⟨rfl, rfl, (List.append_nil _).symm, rfl⟩
  | setOperationResult operationResult =>
    cases h
    exact ⟨rfl, rfl, (List.append_nil _).symm, rfl⟩
  | _ =>
    cases h
    exact .refl _

/-- What was noted are the streams that could not be opened, in the order in which they were asked for. -/
theorem calls_notes {cb cb' : UpdateCallback} {s s' : σ} {cs : List UpdateCall}
    {answers : List (UpdateCall × Answer)} (h : cb.calls api s cs = some (answers, cb', s')) :
    Notes cb cb' (answers.filterMap (failedPath cb)) := by
  induction cs generalizing cb s answers with
  | nil =>
    cases h
    exact .refl _
  | cons c cs ih =>
    obtain ⟨⟨answer, cb₁, s₁⟩, hcall, h⟩ := Option.bind_eq_some_iff.mp h
    obtain ⟨⟨rest, cb₂, s₂⟩, hrest, h⟩ := Option.bind_eq_some_iff.mp h
    cases h
    have hnotes := call_notes hcall
    have hall := hnotes.trans (ih hrest)
    rw [hnotes.failedPath] at hall
    rw [List.filterMap_cons]
    cases hfailed : failedPath cb (c, answer) <;> rw [hfailed] at hall <;> exact hall

theorem getStream_inRange {cb : UpdateCallback} {s : σ} {index : UInt32} {r : Answer × UpdateCallback × σ}
    (h : cb.getStream api index s = some r) : ∃ dirItem, cb.dirItems[index.toNat]? = some dirItem := by
  unfold UpdateCallback.getStream at h
  obtain ⟨dirItem, hitem, -⟩ := Option.map_eq_some_iff.mp h
  rw [(finilize_notes cb).dirItems] at hitem
  exact ⟨dirItem, hitem⟩

theorem calls_inRange {cb cb' : UpdateCallback} {s s' : σ} {cs : List UpdateCall}
    {answers : List (UpdateCall × Answer)} (h : cb.calls api s cs = some (answers, cb', s')) :
    ∀ index answer, (.getStream index, answer) ∈ answers →
      ∃ dirItem, cb.dirItems[index.toNat]? = some dirItem := by
  induction cs generalizing cb s answers with
  | nil =>
    cases h
    exact fun index answer hmem => absurd hmem List.not_mem_nil
  | cons c cs ih =>
    obtain ⟨⟨answer₁, cb₁, s₁⟩, hcall, h⟩ := Option.bind_eq_some_iff.mp h
    obtain ⟨⟨rest, cb₂, s₂⟩, hrest, h⟩ := Option.bind_eq_some_iff.mp h
    cases h
    intro index answer hmem
    rcases List.mem_cons.mp hmem with heq | hmem
    · obtain ⟨rfl, rfl⟩ := Prod.mk.inj heq
      exact getStream_inRange hcall
    · rw [← (call_notes hcall).dirItems]
      exact ih hrest index answer hmem

/-- Something was noted exactly when a stream could not be opened. -/
theorem calls_failed_iff {cb cb' : UpdateCallback} {s s' : σ} {cs : List UpdateCall}
    {answers : List (UpdateCall × Answer)} (h : cb.calls api s cs = some (answers, cb', s')) :
    answers.filterMap (failedPath cb) ≠ [] ↔
      ∃ index, (UpdateCall.getStream index, Answer.inStream sFalse none) ∈ answers := by
  rw [Ne, List.filterMap_eq_nil_iff, not_forall]
  constructor
  · rintro ⟨⟨c, answer⟩, hnot⟩
    obtain ⟨hmem, hsome⟩ := Classical.not_imp.mp hnot
    unfold failedPath at hsome
    split at hsome
    next index hr heq =>
      obtain ⟨rfl, rfl⟩ := Prod.mk.inj heq
      split at hsome
      next hfalse =>
        subst hfalse
        exact ⟨index, hmem⟩
      next => exact absurd rfl hsome
    next => exact absurd rfl hsome
  · rintro ⟨index, hmem⟩
    obtain ⟨dirItem, hitem⟩ := calls_inRange h index _ hmem
    refine ⟨(.getStream index, .inStream sFalse none), fun hnone => ?_⟩
    have hsome := hnone hmem
    simp only [failedPath, if_true, hitem] at hsome
    cases hsome

end Failed

end AppUtil.SevenZip
