import Mathlib.Tactic.Common
import AppUtil.Zip.ZipTools

/-! # The read loop of `UnCompress`

The result of `unzReadCurrentFile` is an `int` and `iReadLen` is unsigned: the test `iReadLen < 0`
never succeeds, and a negative result is a length beyond the buffer. -/
namespace AppUtil.Zip
set_option autoImplicit false

/-- A call of `unzReadCurrentFile`: what it returns, and what it has put into the buffer. -/
structure ReadResult where
  ret : Int32
  data : Bytes

/-- A call of `fwrite`: how many bytes it takes from `szBuf`, and those of them that are in it. -/
structure WriteCall where
  size : ℕ
  bytes : Bytes
  deriving DecidableEq, Repr

/-- The results of a whole entry: its chunks, and the result that ends them. -/
def resultsOf (chunks : List Bytes) (last : ReadResult) : List ReadResult :=
  chunks.map (fun c => ⟨.ofNat c.length, c⟩) ++ [last]

section Loop
variable {σ : Type} (ops : FileOps σ) (path : Path)

/-- The `while (1)` over the results of `unzReadCurrentFile`; `none` where it asks for one more. -/
def readLoop : List ReadResult → Bytes → σ → List WriteCall × Option (Except Fault (ℤ × σ))
  | [], _, _ => ([], none)
  | result :: rest, szBuf, s =>
    let szBuf := result.data ++ szBuf.drop result.data.length
    let iReadLen : UInt32 := result.ret.toUInt32
    if iReadLen < 0 then ([], some (.ok (zipStateIoError, s)))
    else if iReadLen = 0 then ([], some (.ok (zipOk, s)))
    else
      let call : WriteCall := ⟨iReadLen.toNat, szBuf.take iReadLen.toNat⟩
      if bufLen < call.size then ([call], some (.error .overrun))
      else
        let (good, s) := ops.fwrite s path call.bytes
        if good then
          let (calls, r) := readLoop rest szBuf s
          (call :: calls, r)
        else ([call], some (.ok (zipStateIoError, s)))

/-- `ferror` stays clear while these are written. -/
def AllWritten : List Bytes → σ → Prop
  | [], _ => True
  | chunk :: rest, s => (ops.fwrite s path chunk).1 = true ∧ AllWritten rest (ops.fwrite s path chunk).2

end Loop

/-! ## The arithmetic of `iReadLen` -/

theorem iReadLen_of_neg {ret : Int32} (h : ret < 0) : bufLen < ret.toUInt32.toNat := by
  have hneg : ret.toInt < 0 := Int32.lt_iff_toInt_lt.mp h
  have hlow := ret.le_toInt
  -- two's complement
  have hcases : ret.toInt = if 2 * ret.toUInt32.toNat < 2 ^ 32 then (ret.toUInt32.toNat : ℤ)
      else ret.toUInt32.toNat - (2 ^ 32 : ℕ) := BitVec.toInt_eq_toNat_cond ret.toBitVec
  unfold bufLen
  split at hcases <;> omega

theorem iReadLen_of_chunk {n : ℕ} (h : n ≤ bufLen) : (Int32.ofNat n).toUInt32.toNat = n := by
  unfold bufLen at h
  show (BitVec.ofNat 32 n).toNat = n
  rw [BitVec.toNat_ofNat]
  omega

theorem iReadLen_not_neg (iReadLen : UInt32) : ¬ iReadLen < 0 := by
  intro h
  exact absurd (UInt32.lt_iff_toNat_lt.mp h) (Nat.not_lt_zero _)

/-! ## What the loop does -/

section Spec
variable {σ : Type} {ops : FileOps σ} {path : Path} {chunks : List Bytes} {last : ReadResult}

theorem readLoop_chunk (ops : FileOps σ) (path : Path) {c : Bytes} (hpos : 0 < c.length) (hlen : c.length ≤ bufLen)
    (rest : List ReadResult) (szBuf : Bytes) (s : σ) :
    readLoop ops path (⟨.ofNat c.length, c⟩ :: rest) szBuf s =
      if (ops.fwrite s path c).1 = true then
        (⟨c.length, c⟩ :: (readLoop ops path rest (c ++ szBuf.drop c.length) (ops.fwrite s path c).2).1,
          (readLoop ops path rest (c ++ szBuf.drop c.length) (ops.fwrite s path c).2).2)
      else ([⟨c.length, c⟩], some (.ok (zipStateIoError, (ops.fwrite s path c).2))) := by
  have hnat := iReadLen_of_chunk hlen
  have hne : (Int32.ofNat c.length).toUInt32 ≠ 0 := by
    intro h
    rw [h] at hnat
    exact absurd hnat (Nat.ne_of_lt hpos)
  have htake : (c ++ szBuf.drop c.length).take c.length = c := List.take_left
  rw [readLoop]
  simp only [if_neg (iReadLen_not_neg _), if_neg hne, hnat, if_neg (Nat.not_lt.mpr hlen), htake]

theorem readLoop_end (hlast : last.ret = 0) (szBuf : Bytes) (s : σ) :
    readLoop ops path [last] szBuf s = ([], some (.ok (zipOk, s))) := by
  have hzero : last.ret.toUInt32 = 0 := by
    rw [hlast]
    rfl
  rw [readLoop]
  simp only [if_neg (iReadLen_not_neg _), if_pos hzero]

theorem readLoop_neg (ops : FileOps σ) (path : Path) (hlast : last.ret < 0) (szBuf : Bytes) (s : σ) :
    ∃ call, bufLen < call.size ∧ readLoop ops path [last] szBuf s = ([call], some (.error .overrun)) := by
  have hbig := iReadLen_of_neg hlast
  have hne : last.ret.toUInt32 ≠ 0 := by
    intro h
    rw [h] at hbig
    exact absurd hbig (Nat.not_lt_zero _)
  refine ⟨⟨last.ret.toUInt32.toNat,
    (last.data ++ szBuf.drop last.data.length).take last.ret.toUInt32.toNat⟩, hbig, ?_⟩
  rw [readLoop]
  simp only [if_neg (iReadLen_not_neg _), if_neg hne, if_pos hbig]

/-- The call that writes a chunk. -/
def writeOf (chunk : Bytes) : WriteCall := ⟨chunk.length, chunk⟩

/-- The loop up to the last result, or to the write that fails. -/
theorem readLoop_chunks (ops : FileOps σ) (path : Path) (last : ReadResult)
    (hchunks : ∀ c ∈ chunks, 0 < c.length ∧ c.length ≤ bufLen) (szBuf : Bytes)
    (s : σ) :
    (AllWritten ops path chunks s ∧ ∃ szBuf' s', readLoop ops path (resultsOf chunks last) szBuf s =
        (chunks.map writeOf ++ (readLoop ops path [last] szBuf' s').1,
          (readLoop ops path [last] szBuf' s').2)) ∨
      ¬ AllWritten ops path chunks s ∧ ∃ written s', written <+: chunks ∧
        readLoop ops path (resultsOf chunks last) szBuf s =
          (written.map writeOf, some (.ok (zipStateIoError, s'))) := by
  induction chunks generalizing szBuf s with
  | nil => exact .inl ⟨trivial, szBuf, s, rfl⟩
  | cons c rest ih =>
    obtain ⟨hpos, hlen⟩ := hchunks c (List.mem_cons_self ..)
    have hstep := readLoop_chunk ops path hpos hlen (resultsOf rest last) szBuf s
    have hcons : resultsOf (c :: rest) last = ⟨.ofNat c.length, c⟩ :: resultsOf rest last := rfl
    rw [hcons, hstep]
    by_cases hgood : (ops.fwrite s path c).1 = true
    · rw [if_pos hgood]
      rcases ih (fun b hb => hchunks b (List.mem_cons_of_mem c hb)) (c ++ szBuf.drop c.length)
        (ops.fwrite s path c).2 with ⟨hall, szBuf', s', hrun⟩ | ⟨hall, written, s', hpre, hrun⟩
      · exact .inl ⟨⟨hgood, hall⟩, szBuf', s', by rw [hrun]; rfl⟩
      · refine .inr ⟨fun h => hall h.2, c :: written, s', (List.prefix_cons_inj c).mpr hpre, ?_⟩
        rw [hrun]
        rfl
    · rw [if_neg hgood]
      exact .inr ⟨fun h => hgood h.1, [c], _, List.prefix_append [c] rest, rfl⟩

/-- The copy of an entry in `unCompressLoop` is this loop. -/
theorem readLoop_eq_writeLoop (hchunks : ∀ c ∈ chunks, 0 < c.length ∧ c.length ≤ bufLen)
    (hlast : last.ret ≤ 0) (szBuf : Bytes) (s : σ) :
    (readLoop ops path (resultsOf chunks last) szBuf s).2 =
      some (writeLoop ops path (last.ret ≠ 0) chunks s) := by
  induction chunks generalizing szBuf s with
  | nil =>
    show (readLoop ops path [last] szBuf s).2 = _
    unfold writeLoop
    rcases Int32.lt_or_eq_of_le hlast with hneg | hzero
    · obtain ⟨call, -, hrun⟩ := readLoop_neg ops path hneg szBuf s
      have hne : last.ret ≠ 0 := by
        intro h
        rw [h] at hneg
        exact absurd hneg (by decide)
      rw [hrun, if_pos (decide_eq_true hne)]
    · rw [readLoop_end hzero, if_neg (by simp [hzero])]
  | cons c rest ih =>
    obtain ⟨hpos, hlen⟩ := hchunks c (List.mem_cons_self ..)
    have hcons : resultsOf (c :: rest) last = ⟨.ofNat c.length, c⟩ :: resultsOf rest last := rfl
    rw [hcons, readLoop_chunk ops path hpos hlen]
    unfold writeLoop
    by_cases hgood : (ops.fwrite s path c).1 = true
    · rw [if_pos hgood]
      simp only [hgood, if_true]
      exact ih (fun b hb => hchunks b (List.mem_cons_of_mem c hb)) _ _
    · rw [if_neg hgood]
      simp only [hgood]
      rfl

end Spec

/-! ## When the loop reads right -/

section Reading
variable {σ : Type} {ops : FileOps σ} {path : Path} {chunks : List Bytes} {last : ReadResult}

/-- The loop ends; no call takes more than the buffer has; what is written are the chunks that were
read, all of them unless a write fails; and a negative result is reported. -/
def ReadsRight (ops : FileOps σ) (path : Path) (chunks : List Bytes) (last : ReadResult) (szBuf : Bytes)
    (s : σ) : Prop :=
  ∃ calls iRet s', readLoop ops path (resultsOf chunks last) szBuf s = (calls, some (.ok (iRet, s'))) ∧
    (∀ call ∈ calls, call.size ≤ bufLen) ∧ calls.map WriteCall.bytes <+: chunks ∧
    (AllWritten ops path chunks s → calls.map WriteCall.bytes = chunks ∧
      iRet = if last.ret < 0 then zipStateIoError else zipOk) ∧
    (¬ AllWritten ops path chunks s → iRet = zipStateIoError)

theorem map_bytes_writeOf (written : List Bytes) : (written.map writeOf).map WriteCall.bytes = written := by
  rw [List.map_map]
  exact List.map_id written

/-- **When the loop reads right**: unless it comes to a negative result. -/
theorem readsRight_iff (hchunks : ∀ c ∈ chunks, 0 < c.length ∧ c.length ≤ bufLen) (hlast : last.ret ≤ 0)
    (szBuf : Bytes) (s : σ) :
    ReadsRight ops path chunks last szBuf s ↔ last.ret = 0 ∨ ¬ AllWritten ops path chunks s := by
  have hsize : ∀ written : List Bytes, written <+: chunks →
      ∀ call ∈ written.map writeOf, call.size ≤ bufLen := by
    intro written hpre call hcall
    obtain ⟨c, hc, rfl⟩ := List.mem_map.mp hcall
    exact (hchunks c (hpre.subset hc)).2
  rcases readLoop_chunks ops path last hchunks szBuf s with
    ⟨hall, szBuf', s₁, hloop⟩ | ⟨hall, written, s₁, hpre, hloop⟩
  · rcases Int32.lt_or_eq_of_le hlast with hneg | hzero
    · -- the negative result is a length, and the buffer is overrun
      obtain ⟨call, -, hlastrun⟩ := readLoop_neg ops path hneg szBuf' s₁
      rw [hlastrun] at hloop
      refine iff_of_false ?_ ?_
      · rintro ⟨calls, iRet, s', hrun, -⟩
        rw [hloop] at hrun
        cases hrun
      · rintro (hzero | hnot)
        · rw [hzero] at hneg
          exact absurd hneg (by decide)
        · exact hnot hall
    · refine iff_of_true ?_ (.inl hzero)
      rw [readLoop_end hzero, List.append_nil] at hloop
      have hnonneg : ¬ last.ret < 0 := by
        rw [hzero]
        decide
      have hbytes := map_bytes_writeOf chunks
      refine ⟨chunks.map writeOf, zipOk, s₁, hloop, hsize chunks List.prefix_rfl, ?_,
        fun _ => ⟨hbytes, (if_neg hnonneg).symm⟩, fun hnot => absurd hall hnot⟩
      exact ⟨[], by rw [List.append_nil, hbytes]⟩
  · refine iff_of_true ?_ (.inr hall)
    refine ⟨written.map writeOf, zipStateIoError, s₁, hloop, hsize written hpre, ?_,
      fun h => absurd h hall, fun _ => rfl⟩
    rw [map_bytes_writeOf]
    exact hpre

end Reading

/-- A file that takes everything that is written to it. -/
def sink : FileOps Bytes where
  accessFile _ _ := false
  deleteFile s _ := s
  makeDir _ _ := none
  create _ _ := some []
  fwrite s _ bytes := (true, s ++ bytes)

theorem readsRight_iff_sample : ReadsRight sink ['f'] [[1, 2], [3]] ⟨0, []⟩ [] [] :=
  (readsRight_iff (by decide) (by decide) [] []).mpr (.inl rfl)

/-- A damaged entry: two bytes, then `Z_DATA_ERROR`. -/
theorem damaged_overruns :
    ∃ calls, readLoop sink ['f'] (resultsOf [[1, 2]] ⟨-3, []⟩) [] [] = (calls, some (.error .overrun)) ∧
      calls.map WriteCall.size = [2, 4294967293] ∧
      ¬ ReadsRight sink ['f'] [[1, 2]] ⟨-3, []⟩ [] [] := by
  refine ⟨_, rfl, by decide, ?_⟩
  rintro ⟨calls, iRet, s', hrun, -⟩
  cases hrun

end AppUtil.Zip
