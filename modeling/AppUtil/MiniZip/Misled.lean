import AppUtil.MiniZip.Opening
import Mathlib.Tactic.IntervalCases

/-! # Archives whose end misleads

The signature of an end record can stand once more among the numbers of the end record. The search then
ends there, and what is read as the rest of the record runs past the end of the file. -/
namespace AppUtil.MiniZip
open AppUtil.Lib
open AppUtil.Zip (Bytes)
set_option autoImplicit false

/-! ## The end record that is found -/

/-- Behind its own signature that of an end record can stand in the ten bytes of its numbers only. -/
theorem standsAt_endRecord {a b c₀ c₁ c₂ c₃ d₀ d₁ d₂ d₃ : UInt8} {p : ℕ} (hpos : 0 < p)
    (h : StandsAt endSignature
      (endSignature ++ ([0, 0, 0, 0, a, b] ++ ([a, b, c₀, c₁, c₂, c₃, d₀, d₁, d₂, d₃] ++ [0, 0]))) p) :
    ∃ before after, p = 10 + before.length ∧
      [a, b, c₀, c₁, c₂, c₃, d₀, d₁, d₂, d₃] = before ++ (endSignature ++ after) := by
  have hle := h.le_length (by decide)
  have hlt : p < 19 := by
    simp only [endSignature, List.length_append, List.length_cons, List.length_nil] at hle
    omega
  rw [StandsAt, endSignature] at h
  refine ⟨[a, b, c₀, c₁, c₂, c₃, d₀, d₁, d₂, d₃].take (p - 10),
    [a, b, c₀, c₁, c₂, c₃, d₀, d₁, d₂, d₃].drop (p - 6), ?_⟩
  interval_cases p <;> simp [endSignature] at h ⊢ <;> grind

/-- What is read behind the signature when it stands within the numbers. -/
theorem run_readEndRecord_misled {after : Bytes} (h : after.length ≤ 6) :
    ∃ info rest, readEndRecord.run (endSignature ++ (after ++ [0, 0])) = some (info, rest) ∧
      ∀ centralPos, (info.Accepted centralPos ↔ ∀ x ∈ after, x = 0) ∧
        (info.Accepted centralPos → info.numberEntry = 0) := by
  have hzero : ∀ {x : UInt8}, x = 0 ↔ x.toNat = 0 := fun {x} => UInt8.toNat_inj.symm
  match after, h with
  | [], _ =>
    refine ⟨_, _, rfl, fun centralPos => ?_⟩
    simp [EndInfo.Accepted, ofBytes, Nat.ofDigits_cons]
  | [x₁], _ =>
    refine ⟨_, _, rfl, fun centralPos => ?_⟩
    simp [EndInfo.Accepted, ofBytes, Nat.ofDigits_cons, hzero]
  | [x₁, x₂], _ =>
    refine ⟨_, _, rfl, fun centralPos => ?_⟩
    simp [EndInfo.Accepted, ofBytes, Nat.ofDigits_cons, hzero]
  | [x₁, x₂, x₃], _ =>
    refine ⟨_, _, rfl, fun centralPos => ?_⟩
    simp [EndInfo.Accepted, ofBytes, Nat.ofDigits_cons, hzero]
    omega
  | [x₁, x₂, x₃, x₄], _ =>
    refine ⟨_, _, rfl, fun centralPos => ?_⟩
    simp [EndInfo.Accepted, ofBytes, Nat.ofDigits_cons, hzero]
    omega
  | [x₁, x₂, x₃, x₄, x₅], _ =>
    refine ⟨_, _, rfl, fun centralPos => ?_⟩
    simp [EndInfo.Accepted, ofBytes, Nat.ofDigits_cons, hzero]
    omega
  | [x₁, x₂, x₃, x₄, x₅, x₆], _ =>
    refine ⟨_, _, rfl, fun centralPos => ?_⟩
    simp [EndInfo.Accepted, ofBytes, Nat.ofDigits_cons, hzero]
    omega

/-- Only the offset of the directory can be such a signature with nothing but zeros behind it, and something. -/
theorem misled_after_zero {n₀ n₁ s₀ s₁ s₂ s₃ o₀ o₁ o₂ o₃ : UInt8} {before after : Bytes}
    (h : [n₀, n₁, s₀, s₁, s₂, s₃, o₀, o₁, o₂, o₃] = before ++ (endSignature ++ after))
    (hzero : ∀ x ∈ after, x = 0) (hne : after ≠ []) :
    ofBytes [o₀, o₁, o₂, o₃] < 50 ∨
      (ofBytes [o₀, o₁, o₂, o₃] < 2 ^ 24 ∧ 2 ^ 30 ≤ ofBytes [s₀, s₁, s₂, s₃]) := by
  have hlen := congrArg List.length h
  simp only [List.length_append, List.length_cons, List.length_nil, endSignature] at hlen
  have hpos := List.length_pos_iff.mpr hne
  match before, h with
  | [], h =>
    simp [endSignature] at h
    obtain ⟨-, -, -, -, rfl⟩ := h
    simp at hzero
    simp [ofBytes, Nat.ofDigits_cons, hzero]
  | [b₀], h =>
    simp [endSignature] at h
    obtain ⟨-, -, -, -, -, rfl⟩ := h
    simp at hzero
    simp [ofBytes, Nat.ofDigits_cons, hzero]
  | [b₀, b₁], h =>
    simp [endSignature] at h
    obtain ⟨-, -, -, -, -, -, rfl⟩ := h
    simp at hzero
    simp [ofBytes, Nat.ofDigits_cons, hzero]
  | [b₀, b₁, b₂], h =>
    simp [endSignature] at h
    obtain ⟨-, -, -, -, -, -, rfl, rfl⟩ := h
    simp at hzero
    simp [ofBytes, Nat.ofDigits_cons, hzero]
  | [b₀, b₁, b₂, b₃], h =>
    simp [endSignature] at h
    obtain ⟨-, -, -, -, -, rfl, rfl, rfl, rfl⟩ := h
    simp at hzero
    simp [ofBytes, Nat.ofDigits_cons, hzero]
    omega
  | [b₀, b₁, b₂, b₃, b₄], h =>
    simp [endSignature] at h
    obtain ⟨-, -, -, -, -, rfl, rfl, rfl, rfl, rfl⟩ := h
    simp at hzero
    simp [ofBytes, Nat.ofDigits_cons, hzero]
    omega
  | b₀ :: b₁ :: b₂ :: b₃ :: b₄ :: b₅ :: rest, h =>
    simp only [List.length_cons] at hlen
    omega

/-! ## Archives -/

variable {items : List Item}

theorem length_centralDir_le (offset : ℕ) (items : List Item) :
    (centralDir offset items).length ≤ 2 * (localParts items).length := by
  induction items generalizing offset with
  | nil => exact Nat.zero_le _
  | cons it rest ih =>
    have hlocal := it.length_localPart
    have hextra := it.length_zip64Extra_le offset
    have hcentral : (it.centralExtra offset).length ≤ 28 := by
      rw [length_centralExtra]
      split <;> omega
    have hheader : (it.centralHeader offset).bytes.length =
        46 + it.filename.length + (it.centralExtra offset).length := CentralHeader.length_bytes _
    have hrest := ih (offset + it.localPart.length)
    have hcons : localParts (it :: rest) = it.localPart ++ localParts rest := List.flatMap_cons
    rw [centralDir, hcons, List.length_append, List.length_append]
    omega

/-- The numbers at the end of an archive, without the zip64 records. -/
def endNumbers (items : List Item) : Bytes :=
  lowBytes 2 (min items.length 0xffff) ++ (lowBytes 4 (centralDir 0 items).length ++
    lowBytes 4 (localParts items).length)

theorem archive_endNumbers (h : Ordinary items) (hsmall : (localParts items).length < invalidValue) :
    archive items = localParts items ++ centralDir 0 items ++
      (endSignature ++ ([0, 0, 0, 0] ++ lowBytes 2 (min items.length 0xffff) ++ (endNumbers items ++ [0, 0]))) := by
  have hn : (min items.length 0xffff) / 256 ^ 2 = 0 := by omega
  have hsize : (centralDir 0 items).length / 256 ^ 4 = 0 := by
    have hdir := h.directory
    omega
  have hoffset : (localParts items).length / 256 ^ 4 = 0 := by
    unfold invalidValue at hsmall
    omega
  have hmin : min (localParts items).length invalidValue = (localParts items).length := by omega
  rw [archive_small hsmall, endRecord, Nat.mod_eq_of_lt h.directory, hmin]
  simp only [putValue, hn, hsize, hoffset, ne_eq, not_true_eq_false, if_false, endNumbers, List.append_assoc]
  rfl

/-- Where the signature stands behind the end record's own. -/
theorem standsAt_archive_iff (h : Ordinary items) (hsmall : (localParts items).length < invalidValue) (q : ℕ) :
    (archive items).length < q + 22 ∧ StandsAt endSignature (archive items) q ↔
      ∃ before after, q = (localParts items ++ centralDir 0 items).length + (10 + before.length) ∧
        endNumbers items = before ++ (endSignature ++ after) := by
  have hlength : (archive items).length = (localParts items ++ centralDir 0 items).length + 22 := by
    rw [archive_small hsmall, List.length_append, length_endRecord]
  rw [hlength, archive_endNumbers h hsmall]
  constructor
  · intro hq
    obtain ⟨hlow, hstands⟩ := hq
    obtain ⟨p, rfl⟩ := Nat.exists_eq_add_of_le (show (localParts items ++ centralDir 0 items).length ≤ q by omega)
    rw [standsAt_append_left] at hstands
    obtain ⟨before, after, hp, hsplit⟩ := standsAt_endRecord (show 0 < p by omega) hstands
    exact ⟨before, after, by rw [hp], hsplit⟩
  · intro hsplit
    obtain ⟨before, after, rfl, hsplit⟩ := hsplit
    refine ⟨by omega, ?_⟩
    rw [hsplit, standsAt_append_left, List.append_assoc before, List.append_assoc endSignature, ← List.append_assoc]
    show StandsAt endSignature (_ ++ _)
      ((endSignature ++ ([0, 0, 0, 0] ++ lowBytes 2 (min items.length 0xffff))).length + before.length)
    rw [standsAt_append_left]
    exact standsAt_append before endSignature (after ++ [0, 0])

theorem misleading_iff (h : Ordinary items) (hsmall : (localParts items).length < invalidValue) :
    Misleading items ↔ endSignature <:+: endNumbers items := by
  rw [Misleading, if_neg (Nat.not_le.mpr hsmall)]
  constructor
  · intro hq
    obtain ⟨q, hq⟩ := hq
    obtain ⟨before, after, -, hsplit⟩ := (standsAt_archive_iff h hsmall q).mp hq
    exact ⟨before, after, by rw [hsplit, List.append_assoc]⟩
  · intro hsplit
    obtain ⟨before, after, hsplit⟩ := hsplit
    exact ⟨_, (standsAt_archive_iff h hsmall _).mpr ⟨before, after, rfl, by rw [← hsplit, List.append_assoc]⟩⟩

/-- The last of them is found, and the end record read from there. -/
theorem findEnd_misled (h : Ordinary items) (hsmall : (localParts items).length < invalidValue) (hne : items ≠ [])
    (hend : Misleading items) :
    ∃ before after centralPos info, endNumbers items = before ++ (endSignature ++ after) ∧
      (∀ before' after', endNumbers items = before' ++ (endSignature ++ after') → before'.length ≤ before.length) ∧
      findEnd (archive items) = some (centralPos, info) ∧
      (info.Accepted centralPos ↔ ∀ x ∈ after, x = 0) ∧ (info.Accepted centralPos → info.numberEntry = 0) := by
  have h64 := searchCentralDir64_eq_zero (h.locator hsmall)
  have hsearched := searched_endSignature (archive items)
  have hlength : (archive items).length = (localParts items ++ centralDir 0 items).length + 22 := by
    rw [archive_small hsmall, List.length_append, length_endRecord]
  have hpos : 0 < (localParts items ++ centralDir 0 items).length := by
    have hitems := List.length_pos_iff.mpr hne
    have hlen := length_localParts_ge items
    rw [List.length_append]
    omega
  rw [Misleading, if_neg (Nat.not_le.mpr hsmall)] at hend
  obtain ⟨q, hq⟩ := hend
  have hfound : searchCentralDir (archive items) ≠ 0 := by
    intro hzero
    exact hsearched.nowhere hzero q (by omega) (by omega) hq.2
  obtain ⟨hstands, -, hlast⟩ := hsearched.found hfound
  have hle : q ≤ searchCentralDir (archive items) := by
    by_contra hlt
    exact hlast q (Nat.lt_of_not_le hlt) hq.2
  obtain ⟨before, after, hbefore, hsplit⟩ :=
    (standsAt_archive_iff h hsmall (searchCentralDir (archive items))).mp ⟨by omega, hstands⟩
  have hafter : after.length ≤ 6 := by
    have hlen := congrArg List.length hsplit
    simp only [endNumbers, endSignature, List.length_append, List.length_cons, List.length_nil, length_lowBytes] at hlen
    omega
  have hdrop : (archive items).drop (searchCentralDir (archive items)) = endSignature ++ (after ++ [0, 0]) := by
    rw [hbefore, archive_endNumbers h hsmall, hsplit, ← List.drop_drop, List.drop_left, List.append_assoc before,
      List.append_assoc endSignature, ← List.append_assoc endSignature]
    show List.drop
      ((endSignature ++ ([0, 0, 0, 0] ++ lowBytes 2 (min items.length 0xffff))).length + before.length) _ = _
    rw [← List.drop_drop, List.drop_left, List.drop_left]
  obtain ⟨info, rest, hread, hinfo⟩ := run_readEndRecord_misled hafter
  refine ⟨before, after, searchCentralDir (archive items), info, hsplit, ?_, ?_, hinfo _⟩
  · intro before' after' hsplit'
    obtain ⟨-, hstands'⟩ := (standsAt_archive_iff h hsmall _).mpr ⟨before', after', rfl, hsplit'⟩
    by_contra hlt
    exact hlast _ (by omega) hstands'
  · rw [← hdrop] at hread
    unfold findEnd
    simp only [h64, ne_eq, not_true_eq_false, if_false, hfound, hread, Option.map_some]

/-- The offset of a directory that begins at this byte is the signature. -/
def endSignatureOffset : ℕ := 0x06054b50

theorem lowBytes_eq_endSignature_iff {x : ℕ} (h : x < 2 ^ 32) :
    lowBytes 4 x = endSignature ↔ x = endSignatureOffset := by
  constructor
  · intro hbytes
    rw [← ofBytes_lowBytes (n := 4) h, hbytes]
    decide
  · intro hx
    rw [hx]
    decide

theorem endSignature_of_offset (h : (localParts items).length = endSignatureOffset) :
    endSignature <:+: endNumbers items := by
  refine ⟨lowBytes 2 (min items.length 0xffff) ++ lowBytes 4 (centralDir 0 items).length, [], ?_⟩
  have hbytes : lowBytes 4 (localParts items).length = endSignature :=
    (lowBytes_eq_endSignature_iff (by rw [h]; decide)).mpr h
  rw [endNumbers, hbytes, List.append_nil, List.append_assoc]

/-- Only an offset that is the signature leaves nothing but zeros behind it. -/
theorem misled_zero_iff (h : Ordinary items) (hsmall : (localParts items).length < invalidValue) (hne : items ≠ [])
    {before after : Bytes} (hsplit : endNumbers items = before ++ (endSignature ++ after))
    (hlast : ∀ before' after',
      endNumbers items = before' ++ (endSignature ++ after') → before'.length ≤ before.length) :
    (∀ x ∈ after, x = 0) ↔ (localParts items).length = endSignatureOffset := by
  have hoffset : (localParts items).length < 2 ^ 32 := by
    unfold invalidValue at hsmall
    omega
  have hlen := congrArg List.length hsplit
  simp only [endNumbers, endSignature, List.length_append, List.length_cons, List.length_nil, length_lowBytes] at hlen
  rw [← lowBytes_eq_endSignature_iff hoffset]
  constructor
  · intro hzero
    have hnil : after = [] := by
      by_contra hafter
      have hcase := misled_after_zero hsplit hzero hafter
      have hsize : ofBytes (lowBytes 4 (centralDir 0 items).length) = (centralDir 0 items).length :=
        ofBytes_lowBytes h.directory
      have hvalue : ofBytes (lowBytes 4 (localParts items).length) = (localParts items).length :=
        ofBytes_lowBytes hoffset
      have hitems := List.length_pos_iff.mpr hne
      have hparts := length_localParts_ge items
      have hdir := length_centralDir_le 0 items
      cases hcase with
      | inl hsmallest =>
        have h50 : (localParts items).length < 50 := hvalue ▸ hsmallest
        omega
      | inr hbig =>
        have h24 : (localParts items).length < 2 ^ 24 := hvalue ▸ hbig.1
        have h30 : 2 ^ 30 ≤ (centralDir 0 items).length := hsize ▸ hbig.2
        omega
    rw [hnil, List.append_nil, endNumbers, ← List.append_assoc] at hsplit
    exact (List.append_inj' hsplit (by rw [length_lowBytes]; rfl)).2
  · intro hbytes x hx
    have hle := hlast (lowBytes 2 (min items.length 0xffff) ++ lowBytes 4 (centralDir 0 items).length) [] (by
      rw [endNumbers, hbytes, List.append_nil, List.append_assoc])
    rw [List.length_append, length_lowBytes, length_lowBytes] at hle
    have hnil : after = [] := List.length_eq_zero_iff.mp (by omega)
    rw [hnil] at hx
    cases hx

theorem numberEntry_unzGoToFirstFile {ι : Type} (s : Unz ι) : s.unzGoToFirstFile.2.numberEntry = s.numberEntry := by
  unfold Unz.unzGoToFirstFile Unz.loadCurrentFile
  split <;> rfl

/-- Such an archive is refused, unless its directory begins at the byte of which the number is the signature:
it is opened then, with no entries. -/
theorem unzOpen64_misled (ι : Type) (h : Ordinary items) (hsmall : (localParts items).length < invalidValue)
    (hne : items ≠ []) (hend : Misleading items) :
    ((localParts items).length ≠ endSignatureOffset → unzOpen64 (archive items) = (none : Option (Unz ι))) ∧
      ((localParts items).length = endSignatureOffset →
        ∃ s : Unz ι, unzOpen64 (archive items) = some s ∧ s.numberEntry = 0) := by
  obtain ⟨before, after, centralPos, info, hsplit, hlast, hfind, haccepted, hnone⟩ := findEnd_misled h hsmall hne hend
  rw [misled_zero_iff h hsmall hne hsplit hlast] at haccepted
  unfold unzOpen64
  rw [hfind]
  constructor
  · intro hother
    exact if_neg (mt haccepted.mp hother)
  · intro hsignature
    have hacc := haccepted.mpr hsignature
    exact ⟨_, if_pos hacc, (numberEntry_unzGoToFirstFile _).trans (hnone hacc)⟩

end AppUtil.MiniZip
