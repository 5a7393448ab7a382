import AppUtil.Zip.Writing

/-! # The copy loop of `CompressFile`

`ZipTools` walks over the buffers of a file. Here the loop is the `do .. while (!feof(fp))` of the source:
the end of the file is found by the read that comes up short, so that there is a pass more for a file
that is a whole number of buffers. -/
namespace AppUtil.Zip
open AppUtil.Lib
set_option autoImplicit false

/-- A `FILE` for reading: what is still to come, `feof` and `ferror`. -/
structure Stream where
  rest : Bytes
  eof : Bool
  error : Bool
  deriving DecidableEq, Repr

def Stream.opened (contents : Bytes) : Stream := ⟨contents, false, false⟩

/-- The calls of the loop, by the number of its pass: whether `fread` succeeds and, if it does not, how
many bytes it has read until then; and what `zipWriteInFileInZip` returns. -/
structure CopyCalls where
  fread : ℕ → Bool
  delivered : ℕ → ℕ
  zipWriteInFileInZip : ℕ → ℤ

/-- What the loop leaves: its result, and for each call of `zipWriteInFileInZip` the buffer it was given
and what it returned. -/
structure CopyResult where
  iRet : ℤ
  writes : List (Bytes × ℤ)
  deriving DecidableEq, Repr

namespace CopyResult

/-- The buffers that were given to `zipWriteInFileInZip`. -/
def given (r : CopyResult) : List Bytes := r.writes.map Prod.fst

/-- Those of them that were written completely. -/
def written (r : CopyResult) : List Bytes := (r.writes.filter fun w => w.2 = zipOk).map Prod.fst

/-- With one call before. -/
def after (w : Bytes × ℤ) (r : CopyResult) : CopyResult := ⟨r.iRet, w :: r.writes⟩

end CopyResult

namespace CopyCalls

/-- `fread` of a full buffer. Only a read that comes up short sees the end of the file. -/
def read (calls : CopyCalls) (k : ℕ) (fp : Stream) : Bytes × Stream :=
  if calls.fread k then
    (fp.rest.take bufLen, ⟨fp.rest.drop bufLen, decide (fp.rest.length < bufLen), false⟩)
  else
    let n := min (calls.delivered k) bufLen
    (fp.rest.take n, ⟨fp.rest.drop n, fp.eof, true⟩)

/-- The loop from its `k`-th pass on; `none` if it is not left within `fuel` passes. -/
def copyLoop (calls : CopyCalls) : ℕ → ℕ → Stream → Option CopyResult
  | 0, _, _ => none
  | fuel + 1, k, fp =>
    let (szbuf, fp) := calls.read k fp
    if fp.error then some ⟨zipStateIoError, []⟩
    else
      let iRet := calls.zipWriteInFileInZip k
      if iRet ≠ zipOk then some ⟨zipStateIoError, [(szbuf, iRet)]⟩
      else if fp.eof then some ⟨iRet, [(szbuf, iRet)]⟩
      else (copyLoop calls fuel (k + 1) fp).map (.after (szbuf, iRet))

/-- The same over a list of buffers. -/
def copyBuffers (calls : CopyCalls) : ℕ → List Bytes → CopyResult
  | _, [] => ⟨zipOk, []⟩
  | k, szbuf :: rest =>
    if calls.fread k = false then ⟨zipStateIoError, []⟩
    else if calls.zipWriteInFileInZip k ≠ zipOk then
      ⟨zipStateIoError, [(szbuf, calls.zipWriteInFileInZip k)]⟩
    else (copyBuffers calls (k + 1) rest).after (szbuf, calls.zipWriteInFileInZip k)

/-- Pass `k` reads and writes its buffer. -/
def Succeeds (calls : CopyCalls) (k : ℕ) : Prop :=
  calls.fread k = true ∧ calls.zipWriteInFileInZip k = zipOk

end CopyCalls

/-! ## The buffers of a file -/

theorem buffers_length (contents : Bytes) : (buffers contents).length = contents.length / bufLen + 1 := by
  rw [buffers, List.length_map, List.length_range]

theorem buffers_of_short {contents : Bytes} (h : contents.length < bufLen) : buffers contents = [contents] := by
  have hdiv : contents.length / bufLen = 0 := Nat.div_eq_of_lt h
  rw [buffers, hdiv, Nat.zero_add, List.range_one, List.map_singleton, Nat.zero_mul, List.drop_zero,
    List.take_of_length_le (Nat.le_of_lt h)]

theorem buffers_of_long {contents : Bytes} (h : bufLen ≤ contents.length) :
    buffers contents = contents.take bufLen :: buffers (contents.drop bufLen) := by
  have hdiv : contents.length / bufLen = (contents.drop bufLen).length / bufLen + 1 := by
    rw [List.length_drop, Nat.div_eq_sub_div (by decide) h]
  rw [buffers, hdiv, List.range_succ_eq_map, List.map_cons, Nat.zero_mul, List.drop_zero, List.map_map, buffers]
  refine congrArg (contents.take bufLen :: ·) (List.map_congr_left fun k _ => ?_)
  rw [Function.comp_apply, List.drop_drop, Nat.succ_mul, Nat.add_comm]

/-! ## One pass -/

section Loop
variable {calls : CopyCalls} {k fuel : ℕ} {contents szbuf : Bytes} {rest : List Bytes}

theorem copyLoop_read_fails (hread : calls.fread k = false) :
    calls.copyLoop (fuel + 1) k (.opened contents) = some ⟨zipStateIoError, []⟩ := by
  simp [CopyCalls.copyLoop, CopyCalls.read, hread]

theorem copyLoop_write_fails (hread : calls.fread k = true) (hwrite : calls.zipWriteInFileInZip k ≠ zipOk) :
    calls.copyLoop (fuel + 1) k (.opened contents) =
      some ⟨zipStateIoError, [(contents.take bufLen, calls.zipWriteInFileInZip k)]⟩ := by
  simp [CopyCalls.copyLoop, CopyCalls.read, hread, hwrite, Stream.opened]

theorem copyLoop_last (h : calls.Succeeds k) (hshort : contents.length < bufLen) :
    calls.copyLoop (fuel + 1) k (.opened contents) = some ⟨zipOk, [(contents, zipOk)]⟩ := by
  have htake : contents.take bufLen = contents := List.take_of_length_le (Nat.le_of_lt hshort)
  simp [CopyCalls.copyLoop, CopyCalls.read, h.1, h.2, Stream.opened, hshort, htake]

theorem copyLoop_next (h : calls.Succeeds k) (hlong : bufLen ≤ contents.length) :
    calls.copyLoop (fuel + 1) k (.opened contents) =
      (calls.copyLoop fuel (k + 1) (.opened (contents.drop bufLen))).map
        (.after (contents.take bufLen, zipOk)) := by
  simp [CopyCalls.copyLoop, CopyCalls.read, h.1, h.2, Stream.opened, Nat.not_lt.mpr hlong]

theorem copyBuffers_read_fails (hread : calls.fread k = false) :
    calls.copyBuffers k (szbuf :: rest) = ⟨zipStateIoError, []⟩ := by
  rw [CopyCalls.copyBuffers, if_pos hread]

theorem copyBuffers_write_fails (hread : calls.fread k = true)
    (hwrite : calls.zipWriteInFileInZip k ≠ zipOk) :
    calls.copyBuffers k (szbuf :: rest) =
      ⟨zipStateIoError, [(szbuf, calls.zipWriteInFileInZip k)]⟩ := by
  rw [CopyCalls.copyBuffers, hread, if_neg (by decide), if_pos hwrite]

theorem copyBuffers_next (h : calls.Succeeds k) :
    calls.copyBuffers k (szbuf :: rest) = (calls.copyBuffers (k + 1) rest).after (szbuf, zipOk) := by
  rw [CopyCalls.copyBuffers, h.1, h.2, if_neg (by decide), if_neg (by decide)]

/-! ## The whole loop -/

/-- By induction on the number of passes: each takes one buffer off the file. -/
theorem copyLoop_eq (h : (buffers contents).length ≤ fuel) :
    calls.copyLoop fuel k (.opened contents) = some (calls.copyBuffers k (buffers contents)) := by
  induction fuel generalizing k contents with
  | zero =>
    rw [buffers_length] at h
    exact absurd h (Nat.not_succ_le_zero _)
  | succ fuel ih =>
    obtain ⟨rest, hrest⟩ : ∃ rest, buffers contents = contents.take bufLen :: rest := by
      by_cases hshort : contents.length < bufLen
      · exact ⟨[], by rw [buffers_of_short hshort, List.take_of_length_le (Nat.le_of_lt hshort)]⟩
      · exact ⟨_, buffers_of_long (Nat.not_lt.mp hshort)⟩
    cases hread : calls.fread k with
    | false => rw [copyLoop_read_fails hread, hrest, copyBuffers_read_fails hread]
    | true =>
      by_cases hwrite : calls.zipWriteInFileInZip k = zipOk
      · by_cases hshort : contents.length < bufLen
        · rw [copyLoop_last ⟨hread, hwrite⟩ hshort, buffers_of_short hshort, copyBuffers_next ⟨hread, hwrite⟩]
          rfl
        · have hlong := Nat.not_lt.mp hshort
          rw [buffers_of_long hlong, List.length_cons] at h
          rw [copyLoop_next ⟨hread, hwrite⟩ hlong, ih (Nat.le_of_succ_le_succ h), buffers_of_long hlong,
            copyBuffers_next ⟨hread, hwrite⟩]
          rfl
      · rw [copyLoop_write_fails hread hwrite, hrest, copyBuffers_write_fails hread hwrite]

/-- What is given is a beginning of the file. -/
theorem copyBuffers_given (bufs : List Bytes) : ∃ n, (calls.copyBuffers k bufs).given = bufs.take n := by
  induction bufs generalizing k with
  | nil => exact ⟨0, rfl⟩
  | cons szbuf rest ih =>
    cases hread : calls.fread k with
    | false =>
      rw [copyBuffers_read_fails hread]
      exact ⟨0, rfl⟩
    | true =>
      by_cases hwrite : calls.zipWriteInFileInZip k = zipOk
      · obtain ⟨n, hn⟩ := ih (k := k + 1)
        rw [copyBuffers_next ⟨hread, hwrite⟩]
        exact ⟨n + 1, congrArg (szbuf :: ·) hn⟩
      · rw [copyBuffers_write_fails hread hwrite]
        exact ⟨1, rfl⟩

theorem copyBuffers_ok {bufs : List Bytes} (h : ∀ i < bufs.length, calls.Succeeds (k + i)) :
    (calls.copyBuffers k bufs).iRet = zipOk ∧ (calls.copyBuffers k bufs).given = bufs := by
  induction bufs generalizing k with
  | nil => exact ⟨rfl, rfl⟩
  | cons szbuf rest ih =>
    have hrest : ∀ i < rest.length, calls.Succeeds (k + 1 + i) := by
      intro i hi
      rw [Nat.add_assoc, Nat.add_comm 1 i]
      exact h (i + 1) (Nat.succ_lt_succ hi)
    obtain ⟨hret, hgiven⟩ := ih hrest
    have hhead : calls.Succeeds k := h 0 (Nat.succ_pos _)
    rw [copyBuffers_next hhead]
    exact ⟨hret, congrArg (szbuf :: ·) hgiven⟩

/-- The first pass that fails ends the loop. -/
theorem copyBuffers_fails {bufs : List Bytes} {n : ℕ} (hn : n < bufs.length)
    (hbefore : ∀ i < n, calls.Succeeds (k + i)) (hfail : ¬ calls.Succeeds (k + n)) :
    (calls.copyBuffers k bufs).iRet = zipStateIoError ∧ (calls.copyBuffers k bufs).written = bufs.take n := by
  induction bufs generalizing k n with
  | nil => cases hn
  | cons szbuf rest ih =>
    cases n with
    | zero =>
      cases hread : calls.fread k with
      | false =>
        rw [copyBuffers_read_fails hread]
        exact ⟨rfl, rfl⟩
      | true =>
        have hwrite : calls.zipWriteInFileInZip k ≠ zipOk := fun hwrite => hfail ⟨hread, hwrite⟩
        rw [copyBuffers_write_fails hread hwrite]
        refine ⟨rfl, ?_⟩
        rw [CopyResult.written, List.filter_cons_of_neg (by rw [decide_eq_false hwrite]; decide)]
        rfl
    | succ n =>
      have hrest : ∀ i < n, calls.Succeeds (k + 1 + i) := by
        intro i hi
        rw [Nat.add_assoc, Nat.add_comm 1 i]
        exact hbefore (i + 1) (Nat.succ_lt_succ hi)
      have hfail' : ¬ calls.Succeeds (k + 1 + n) := by rwa [Nat.add_assoc, Nat.add_comm 1 n]
      obtain ⟨hret, hwritten⟩ := ih (Nat.lt_of_succ_lt_succ hn) hrest hfail'
      have hhead : calls.Succeeds k := hbefore 0 (Nat.succ_pos _)
      rw [copyBuffers_next hhead]
      exact ⟨hret, congrArg (szbuf :: ·) hwritten⟩

end Loop

theorem exists_first_failure {calls : CopyCalls} {n : ℕ} (h : ¬ ∀ k < n, calls.Succeeds k) :
    ∃ k < n, (∀ i < k, calls.Succeeds i) ∧ ¬ calls.Succeeds k := by
  induction n with
  | zero => exact absurd (fun k hk => absurd hk (Nat.not_lt_zero k)) h
  | succ n ih =>
    by_cases hn : ∀ k < n, calls.Succeeds k
    · refine ⟨n, Nat.lt_succ_self n, hn, fun hlast => h fun k hk => ?_⟩
      rcases Nat.lt_succ_iff_lt_or_eq.mp hk with hlt | rfl
      · exact hn k hlt
      · exact hlast
    · obtain ⟨k, hk, hbefore, hno⟩ := ih hn
      exact ⟨k, Nat.lt_succ_of_lt hk, hbefore, hno⟩

/-! ## The loop over the buffers -/

section Connection
variable {κ : Type} {sys : System κ} {name path : Path} {d : Disk κ} {contents : Bytes}

/-- The calls of the loop for an entry of an archive. Without the entry there is nothing to write to. -/
def System.copyCalls (sys : System κ) (name path : Path) : CopyCalls where
  fread := sys.fread path
  delivered := fun _ => 0
  zipWriteInFileInZip := fun k =>
    if sys.zipOpenNewFileInZip64 name = false then zipParamError
    else if sys.zipWriteInFileInZip name k then zipOk else zipErrno

theorem succeeds_copyCalls_iff {k : ℕ} : (sys.copyCalls name path).Succeeds k ↔
    sys.zipOpenNewFileInZip64 name = true ∧ sys.fread path k = true ∧ sys.zipWriteInFileInZip name k = true := by
  have hparam : zipParamError ≠ zipOk := by decide
  have herrno : zipErrno ≠ zipOk := by decide
  unfold CopyCalls.Succeeds System.copyCalls
  dsimp only
  cases hnew : sys.zipOpenNewFileInZip64 name <;> cases hwrite : sys.zipWriteInFileInZip name k <;>
    simp [hparam, herrno]

theorem copies_iff : Copies sys name path contents ↔
    ∀ k < (buffers contents).length, (sys.copyCalls name path).Succeeds k := by
  simp only [succeeds_copyCalls_iff, Copies, LoopCopies, Nat.zero_add]
  constructor
  · exact fun h k hk => ⟨h.1, h.2 k hk⟩
  · intro h
    have hpos : 0 < (buffers contents).length := List.length_pos_of_ne_nil (buffers_ne_nil contents)
    exact ⟨(h 0 hpos).1, fun k hk => (h k hk).2⟩

/-- `compressFile` returns what the loop does. -/
theorem compressFile_copyLoop [DecidableEq κ] (es : List Entry) (hopen : sys.openRead d path = some contents) :
    ∃ r zFp, (sys.copyCalls name path).copyLoop (buffers contents).length 0 (.opened contents) = some r ∧
      compressFile sys d (.live ⟨es, none⟩) name path = .ok (r.iRet, zFp) := by
  by_cases h : Copies sys name path contents
  · have hall := copies_iff.mp h
    obtain ⟨hret, -⟩ := copyBuffers_ok (k := 0) fun i hi => (Nat.zero_add i).symm ▸ hall i hi
    refine ⟨_, .live ⟨es ++ packed sys name contents, none⟩, copyLoop_eq (Nat.le_refl _), ?_⟩
    rw [hret]
    exact compressFile_ok hopen h
  · obtain ⟨es', hcompress⟩ := compressFile_fails es hopen h
    obtain ⟨k, hk, hbefore, hno⟩ := exists_first_failure fun hall => h (copies_iff.mpr hall)
    obtain ⟨hret, -⟩ := copyBuffers_fails (k := 0) hk (fun i hi => (Nat.zero_add i).symm ▸ hbefore i hi)
      ((Nat.zero_add k).symm ▸ hno)
    refine ⟨_, .live ⟨es', none⟩, copyLoop_eq (Nat.le_refl _), ?_⟩
    rw [hret]
    exact hcompress

end Connection

/-- **`CompressFile` passes on the file.** The loop is left, for every file and whatever fails, after at
most one pass for each buffer. What it gives to `zipWriteInFileInZip` is a beginning of the file; all of
it, with `ZIP_OK`, if no call fails; and where pass `k` is the first one whose read or write fails, the
result is `ZIP_STATE_IO_ERROR` and the buffers before the `k`-th are those that are written. -/
theorem copyLoop_copies (calls : CopyCalls) (contents : Bytes) : ∃ r : CopyResult,
    (∀ fuel, (buffers contents).length ≤ fuel → calls.copyLoop fuel 0 (.opened contents) = some r) ∧
    r.given.flatten <+: contents ∧
    ((∀ k < (buffers contents).length, calls.Succeeds k) → r.iRet = zipOk ∧ r.given.flatten = contents) ∧
    ∀ k < (buffers contents).length, (∀ i < k, calls.Succeeds i) → ¬ calls.Succeeds k →
      r.iRet = zipStateIoError ∧ r.written = (buffers contents).take k := by
  refine ⟨calls.copyBuffers 0 (buffers contents), fun fuel => copyLoop_eq, ?_, fun h => ?_, ?_⟩
  · obtain ⟨n, hn⟩ : ∃ n, (calls.copyBuffers 0 (buffers contents)).given = (buffers contents).take n :=
      copyBuffers_given _
    have hsplit : ((buffers contents).take n).flatten ++ ((buffers contents).drop n).flatten = contents := by
      rw [← List.flatten_append, List.take_append_drop, buffers_flatten]
    exact ⟨_, hn ▸ hsplit⟩
  · obtain ⟨hret, hgiven⟩ := copyBuffers_ok (k := 0) fun i hi => (Nat.zero_add i).symm ▸ h i hi
    rw [hgiven]
    exact ⟨hret, buffers_flatten contents⟩
  · intro k hk hbefore hfail
    exact copyBuffers_fails hk (fun i hi => (Nat.zero_add i).symm ▸ hbefore i hi)
      ((Nat.zero_add k).symm ▸ hfail)

end AppUtil.Zip
