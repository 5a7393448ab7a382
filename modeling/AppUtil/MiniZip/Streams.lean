import AppUtil.MiniZip.Entries

/-! # The loops around `deflate`

The buffer of 65536 bytes is written whenever it is full. What was written and what is in the buffer are
together what the stream has put out; `total_in` is counted into the size of the entry at each write. -/
namespace AppUtil.MiniZip
open AppUtil.Lib
open AppUtil.Zip (Bytes zipOk)
set_option autoImplicit false
variable {δ ι : Type} {Z : Zlib δ ι}

/-- What the loops keep of an entry that is open. -/
structure CurFile.Same (ci₀ ci : CurFile δ) : Prop where
  posLocalHeader : ci.posLocalHeader = ci₀.posLocalHeader
  centralHeader : ci.centralHeader = ci₀.centralHeader
  sizeCentralExtra : ci.sizeCentralExtra = ci₀.sizeCentralExtra
  sizeCentralExtraFree : ci.sizeCentralExtraFree = ci₀.sizeCentralExtraFree
  crc32 : ci.crc32 = ci₀.crc32
  posZip64ExtraInfo : ci.posZip64ExtraInfo = ci₀.posZip64ExtraInfo

/-- An entry that was fed `fed`, in a file that ends with `written` of its data. `R` says where its stream
is. -/
structure Feeding (R : δ → Bytes → Bytes → Prop) (ci₀ : CurFile δ) (head : Bytes) (ci : CurFile δ) (f : OutFile)
    (fed written : Bytes) : Prop where
  same : ci₀.Same ci
  file : f = .ended (head ++ written)
  stream : R ci.stream fed (written ++ ci.buffered)
  room : ci.buffered.length ≤ zBufSize
  compressed : ci.totalCompressedData = written.length
  uncompressed : ci.totalUncompressedData + ci.totalIn = fed.length

namespace Feeding
variable {R R' : δ → Bytes → Bytes → Prop} {ci₀ ci : CurFile δ} {head : Bytes} {f : OutFile}
  {fed written : Bytes}

theorem flush (h : Feeding R ci₀ head ci f fed written) :
    Feeding R ci₀ head (ci.flushWriteBuffer f).1 (ci.flushWriteBuffer f).2 fed (written ++ ci.buffered) where
  same := ⟨h.same.1, h.same.2, h.same.3, h.same.4, h.same.5, h.same.6⟩
  file := by
    show f.write ci.buffered = _
    rw [h.file, OutFile.write_ended, List.append_assoc]
  stream := by
    show R ci.stream fed (written ++ ci.buffered ++ [])
    rw [List.append_nil]
    exact h.stream
  room := Nat.zero_le _
  compressed := by
    show ci.totalCompressedData + ci.buffered.length = _
    rw [h.compressed, List.length_append]
  uncompressed := h.uncompressed

/-- Before a call there is room, and nothing is lost. -/
theorem makeRoom (h : Feeding R ci₀ head ci f fed written) :
    ∃ ci' f' written', ci.makeRoom f = (ci', f') ∧ Feeding R ci₀ head ci' f' fed written' ∧
      written' ++ ci'.buffered = written ++ ci.buffered ∧ ci'.stream = ci.stream ∧ 0 < ci'.availOut ∧
      ((ci.buffered = [] → ci.totalIn = 0) → ci'.buffered = [] → ci'.totalIn = 0) := by
  unfold CurFile.makeRoom
  by_cases hfull : ci.availOut = 0
  · rw [if_pos hfull]
    exact ⟨_, _, _, rfl, h.flush, List.append_nil _, rfl, Nat.zero_lt_of_lt (Nat.lt_succ_self 65535),
      fun _ _ => rfl⟩
  · rw [if_neg hfull]
    exact ⟨ci, f, written, rfl, h, rfl, rfl, Nat.pos_of_ne_zero hfull, id⟩

/-- After a call the stream is one call on, and what it put out is in the buffer. -/
theorem deflated (h : Feeding R ci₀ head ci f fed written) {r : ZCall δ} {fed' : Bytes}
    (hR : R' r.stream fed' (written ++ ci.buffered ++ r.out)) (hout : r.out.length ≤ ci.availOut)
    (hfed : fed'.length = fed.length + r.taken) (hlen : fed'.length < 2 ^ 32) :
    Feeding R' ci₀ head (ci.deflated r) f fed' written where
  same := ⟨h.same.1, h.same.2, h.same.3, h.same.4, h.same.5, h.same.6⟩
  file := h.file
  stream := by
    show R' r.stream fed' (written ++ (ci.buffered ++ r.out))
    rw [← List.append_assoc]
    exact hR
  room := by
    have hroom := h.room
    unfold CurFile.availOut at hout
    show (ci.buffered ++ r.out).length ≤ zBufSize
    rw [List.length_append]
    omega
  compressed := h.compressed
  uncompressed := by
    have hsum := h.uncompressed
    have hmod : (ci.totalIn + r.taken) % 2 ^ 32 = ci.totalIn + r.taken := Nat.mod_eq_of_lt (by omega)
    show ci.totalUncompressedData + (ci.totalIn + r.taken) % 2 ^ 32 = fed'.length
    rw [hmod]
    omega

end Feeding

variable {ci₀ : CurFile δ} {head : Bytes}

theorem Feeding.length_deflated {ci : CurFile δ} (written : Bytes) (r : ZCall δ) :
    (written ++ (ci.deflated r).buffered).length = (written ++ ci.buffered).length + r.out.length := by
  show (written ++ (ci.buffered ++ r.out)).length = _
  rw [← List.append_assoc]
  exact List.length_append

/-- The loop of `zipWriteInFileInZip`: a round takes all of the input, or fills the buffer. -/
theorem writeLoop_spec (hZ : Z.Documented) (fuel : ℕ) (nextIn : Bytes) {ci : CurFile δ} {f : OutFile}
    {fed written : Bytes} (h : Feeding Z.Deflating ci₀ head ci f fed written)
    (hlen : (fed ++ nextIn).length < 2 ^ 32) (hpos : 0 < fuel)
    (hfuel : nextIn = [] ∨ Z.deflateBound (fed ++ nextIn).length + 2 ≤ fuel + (written ++ ci.buffered).length) :
    ∃ ci' f' written', writeLoop Z fuel ci f nextIn = some (zipOk, ci', f') ∧
      Feeding Z.Deflating ci₀ head ci' f' (fed ++ nextIn) written' := by
  induction fuel generalizing nextIn ci f fed written with
  | zero => omega
  | succ fuel ih =>
    unfold writeLoop
    by_cases hnil : nextIn = []
    · rw [if_pos hnil, hnil, List.append_nil]
      exact ⟨ci, f, written, rfl, h⟩
    · replace hfuel := hfuel.resolve_left hnil
      obtain ⟨ci₁, f₁, written₁, hroom, h₁, hout₁, -, havail, -⟩ := h.makeRoom
      obtain ⟨hret, htaken, hroom', hstop⟩ := hZ.noFlush h₁.stream hnil havail
      have hcall := Zlib.Deflating.call h₁.stream hnil havail
      rw [if_neg hnil, hroom]
      show ∃ ci' f' written', (if (Z.deflate ci₁.stream .noFlush nextIn ci₁.availOut).ret ≠ zOk then _
        else _) = _ ∧ _
      rw [if_neg (fun hne => hne hret)]
      generalize Z.deflate ci₁.stream .noFlush nextIn ci₁.availOut = r at htaken hroom' hstop hcall ⊢
      have hsplit : fed ++ nextIn = fed ++ nextIn.take r.taken ++ nextIn.drop r.taken := by
        rw [List.append_assoc, List.take_append_drop]
      have htake : (nextIn.take r.taken).length = r.taken := List.length_take_of_le htaken
      have hbound := hZ.bound (.start h.stream)
      have hmono := hZ.bound_mono (show fed.length ≤ (fed ++ nextIn).length by simp)
      rw [hsplit] at hlen hfuel hmono ⊢
      refine ih (nextIn.drop r.taken) (h₁.deflated hcall hroom' ?_ ?_) hlen (by omega) ?_
      · rw [List.length_append, htake]
      · rw [List.length_append] at hlen
        omega
      · cases hstop with
        | inl hall => exact .inl (List.drop_eq_nil_of_le (Nat.le_of_eq hall.symm))
        | inr hfull =>
          right
          rw [Feeding.length_deflated, hout₁, hfull]
          omega

/-- The loop of `zipCloseFileInZipRaw64`. What is still in the buffer then has not been counted, so that
there must be something when something is not counted: the last block of the stream is. -/
theorem finishLoop_spec (hZ : Z.Documented) (fuel : ℕ) {ci : CurFile δ} {f : OutFile} {fed written : Bytes}
    (h : Feeding Z.Finishing ci₀ head ci f fed written) (hlen : fed.length < 2 ^ 32)
    (hfuel : Z.deflateBound fed.length + 1 ≤ fuel + (written ++ ci.buffered).length)
    (hcounted : (∀ room, 0 < room → (Z.deflate ci.stream .finish [] room).out ≠ []) ∨
      (ci.buffered = [] → ci.totalIn = 0)) :
    ∃ ci' f' written', finishLoop Z fuel ci f = some (zStreamEnd, ci', f') ∧
      Feeding (fun d x c => Z.Deflated x c ∧ Z.deflateEnd d = zOk) ci₀ head ci' f' fed written' ∧
      (ci'.buffered = [] → ci'.totalIn = 0) := by
  induction fuel generalizing ci f written with
  | zero =>
    have hbound := hZ.bound h.stream
    omega
  | succ fuel ih =>
    obtain ⟨ci₁, f₁, written₁, hroom, h₁, hout₁, hstream, havail, hcounted₁⟩ := h.makeRoom
    obtain ⟨htaken, hroom', hend⟩ := hZ.finish h₁.stream havail
    -- the call leaves nothing uncounted with nothing in the buffer
    have hcounted' : (ci₁.deflated (Z.deflate ci₁.stream .finish [] ci₁.availOut)).buffered = [] →
        (ci₁.deflated (Z.deflate ci₁.stream .finish [] ci₁.availOut)).totalIn = 0 := by
      intro hnil
      obtain ⟨hbuf, hout⟩ := List.append_eq_nil_iff.mp hnil
      cases hcounted with
      | inl hne =>
        rw [← hstream] at hne
        exact absurd hout (hne ci₁.availOut havail)
      | inr hc =>
        show (ci₁.totalIn + _) % 2 ^ 32 = 0
        rw [hcounted₁ hc hbuf, htaken]
        rfl
    have hfed : fed.length = fed.length + (Z.deflate ci₁.stream .finish [] ci₁.availOut).taken := by
      rw [htaken, Nat.add_zero]
    unfold finishLoop
    rw [hroom]
    show ∃ ci' f' written', (if (Z.deflate ci₁.stream .finish [] ci₁.availOut).ret ≠ zOk then _ else _) = _ ∧ _
    cases hend with
    | inl hok =>
      have hcall := Zlib.Finishing.call h₁.stream havail hok.1
      rw [if_neg (fun hne => hne hok.1)]
      refine ih (h₁.deflated hcall hroom' hfed hlen) ?_ (.inr hcounted')
      rw [Feeding.length_deflated, hout₁, hok.2]
      omega
    | inr hend =>
      have hne : (Z.deflate ci₁.stream .finish [] ci₁.availOut).ret ≠ zOk := by
        rw [hend]
        decide
      rw [if_pos hne, hend]
      refine ⟨_, _, written₁, rfl, h₁.deflated ⟨⟨_, _, _, h₁.stream, havail, hend, rfl⟩, ?_⟩ hroom' hfed hlen,
        hcounted'⟩
      exact hZ.deflateEnd h₁.stream havail hend

end AppUtil.MiniZip
