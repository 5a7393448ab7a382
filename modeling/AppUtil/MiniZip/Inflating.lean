import AppUtil.MiniZip.Walking
import AppUtil.Zip.CopyLoop

/-! # The loops around `inflate`

`unzReadCurrentFile` fills its buffer of 16384 bytes from the archive whenever it is empty, and never asks
for more output than the directory says there is. -/
namespace AppUtil.MiniZip
open AppUtil.Lib
open AppUtil.Zip (Bytes buffers bufLen)
set_option autoImplicit false
variable {δ ι : Type} {Z : Zlib δ ι} {s : Unz ι}

/-- A file that is read: of `x`, which was deflated to `c`, it has given `given`. -/
structure Delivering (Z : Zlib δ ι) (s : Unz ι) (x c : Bytes) (p : ReadInfo ι) (taken given : Bytes) : Prop where
  stream : Z.Inflating c p.stream taken given
  below : given <+: x
  deflated : p.compressionMethod = zDeflated
  raw : p.raw = false
  crc32 : p.crc32 = Z.crc32 0 given
  totalOut : p.totalOut = given.length
  restUncompressed : p.restReadUncompressed = x.length - given.length
  rest : ∃ pre unread tail, s.file = pre ++ (unread ++ tail) ∧ pre.length = p.posInZipfile ∧
    unread.length = p.restReadCompressed ∧ c = taken ++ (p.nextIn ++ unread)

/-- How much of the compressed data was not given to `inflate`. -/
def ReadInfo.pending (p : ReadInfo ι) : ℕ := p.nextIn.length + p.restReadCompressed

namespace Delivering
variable {x c taken given : Bytes} {p : ReadInfo ι}

theorem taken_prefix (h : Delivering Z s x c p taken given) : taken ++ p.nextIn <+: c := by
  obtain ⟨pre, unread, tail, -, -, -, hc⟩ := h.rest
  exact ⟨unread, by rw [hc, List.append_assoc]⟩

/-- Before a call there is input, unless all of it was taken. -/
theorem refill (h : Delivering Z s x c p taken given) (hbefore : s.byteBeforeTheZipfile = 0)
    (hfile : s.file.length < 2 ^ 63) :
    ∃ p', MiniZip.refill s p = some p' ∧ Delivering Z s x c p' taken given ∧ p'.crc32Wait = p.crc32Wait ∧
      p'.pending = p.pending ∧ (p'.nextIn = [] → taken = c) := by
  obtain ⟨pre, unread, tail, hsplit, hpre, hunread, hc⟩ := h.rest
  unfold MiniZip.refill
  by_cases hempty : p.nextIn = [] ∧ 0 < p.restReadCompressed
  · rw [if_pos hempty]
    generalize hn : min unzBufSize p.restReadCompressed = n
    have hle : n ≤ unread.length := by omega
    have hpos : 0 < n := by
      have hbuf : 0 < unzBufSize := by decide
      omega
    have hseek : s.seekSet p.posInZipfile = unread.take n ++ (unread.drop n ++ tail) := by
      have hlt : p.posInZipfile < 2 ^ 64 := by
        rw [hsplit, List.length_append] at hfile
        omega
      rw [Unz.seekSet, hbefore, Nat.add_zero, Nat.mod_eq_of_lt hlt, hsplit, ← hpre, List.drop_left, ← List.append_assoc,
        List.take_append_drop]
    have hlen : (unread.take n).length = n := List.length_take_of_le hle
    simp only [hseek, Reader.run_bytes hlen, Option.map_some]
    refine ⟨_, rfl, ⟨h.stream, h.below, h.deflated, h.raw, h.crc32, h.totalOut, h.restUncompressed,
      pre ++ unread.take n, unread.drop n, tail, ?_, ?_, ?_, ?_⟩, rfl, ?_, fun hnil => ?_⟩
    · rw [hsplit, List.append_assoc, ← List.append_assoc (unread.take n), List.take_append_drop]
    · rw [List.length_append, hpre, hlen]
    · rw [List.length_drop, hunread]
    · rw [hc, hempty.1, List.nil_append, List.take_append_drop]
    · show (unread.take n).length + (p.restReadCompressed - n) = p.nextIn.length + p.restReadCompressed
      rw [hlen, hempty.1, List.length_nil]
      omega
    · have hnil' : unread.take n = [] := hnil
      rw [hnil'] at hlen
      exact absurd hlen (Nat.ne_of_lt hpos)
  · rw [if_neg hempty]
    refine ⟨p, rfl, h, rfl, rfl, fun hnil => ?_⟩
    have hzero : unread = [] := List.length_eq_zero_iff.mp (by
      rw [hunread]
      by_contra hne
      exact hempty ⟨hnil, Nat.pos_of_ne_zero hne⟩)
    rw [hc, hnil, hzero, List.append_nil, List.append_nil]

/-- A call of `inflate`: it gives the next piece, and all that there is room for when it has no more input. -/
theorem inflate (hZ : Z.Documented) (hx : Z.Deflated x c) (hlen : x.length < 2 ^ 32)
    (h : Delivering Z s x c p taken given) (hall : p.nextIn = [] → taken = c) {availOut : ℕ} (hpos : 0 < availOut)
    (havail : availOut ≤ x.length - given.length) {r : ZCall ι} (hr : r = Z.inflate p.stream p.nextIn availOut) :
    Delivering Z s x c { p.delivered Z r.taken r.out with stream := r.stream } (taken ++ p.nextIn.take r.taken)
        (given ++ r.out) ∧
      r.out.length ≤ availOut ∧ (r.ret = zOk ∨ r.ret = zStreamEnd ∧ r.out.length = availOut) ∧
      Z.msg r.stream = false ∧
      (r.out.length = availOut ∨
        { p.delivered Z r.taken r.out with stream := r.stream : ReadInfo ι }.pending < p.pending) := by
  have hgiven : given.length ≤ x.length := h.below.length_le
  have hprogress : p.nextIn ≠ [] ∨ taken = c ∧ given ≠ x := by
    by_cases hnil : p.nextIn = []
    · refine .inr ⟨hall hnil, fun heq => ?_⟩
      rw [heq] at havail
      omega
    · exact .inl hnil
  have hlaw := hZ.inflate hx h.stream h.taken_prefix hpos hprogress
  have hcall := Zlib.Inflating.call h.stream h.taken_prefix hpos
  rw [← hr] at hlaw hcall
  have hout := hlaw.out.length_le
  rw [List.length_append] at hout
  have htotal : (p.totalOut + r.out.length) % 2 ^ 32 = given.length + r.out.length := by
    rw [h.totalOut]
    exact Nat.mod_eq_of_lt (by omega)
  have hthis : (given.length + r.out.length + 2 ^ 64 - given.length) % 2 ^ 64 = r.out.length := by omega
  have hfull : given ++ r.out = x → r.out.length = availOut := by
    intro heq
    have hlen' := congrArg List.length heq
    have hle := hlaw.out_le
    rw [List.length_append] at hlen'
    omega
  refine ⟨⟨hcall, hlaw.out, h.deflated, h.raw, ?_, ?_, ?_, ?_⟩, hlaw.out_le, ?_, hlaw.msg, ?_⟩
  · show Z.crc32 p.crc32 r.out = _
    rw [h.crc32, hZ.crc32_append]
  · show (p.totalOut + r.out.length) % 2 ^ 32 = _
    rw [htotal, List.length_append]
  · show (p.restReadUncompressed + 2 ^ 64 - ((p.totalOut + r.out.length) % 2 ^ 32 + 2 ^ 64 - p.totalOut) % 2 ^ 64) %
      2 ^ 64 = _
    rw [htotal, h.totalOut, hthis, h.restUncompressed, List.length_append]
    omega
  · obtain ⟨pre, unread, tail, hsplit, hpre, hunread, hc⟩ := h.rest
    refine ⟨pre, unread, tail, hsplit, hpre, hunread, ?_⟩
    show c = taken ++ p.nextIn.take r.taken ++ (p.nextIn.drop r.taken ++ unread)
    rw [hc, List.append_assoc, ← List.append_assoc (p.nextIn.take r.taken), List.take_append_drop]
  · cases hlaw.ret with
    | inl hok => exact .inl hok
    | inr hend => exact .inr ⟨hend.1, hfull hend.2⟩
  · cases hlaw.stops with
    | inr hroom => exact .inl hroom
    | inl htaken =>
      by_cases hnil : p.nextIn = []
      · left
        apply Nat.le_antisymm hlaw.out_le
        by_contra hlt
        have hall' := hall hnil
        have hgive := hlaw.rest (by rw [hnil, List.take_nil, List.append_nil]; exact hall') (by omega)
        exact hlt (Nat.le_of_eq (hfull hgive).symm)
      · right
        have hpos' : 0 < p.nextIn.length := List.length_pos_iff.mpr hnil
        show (p.nextIn.drop r.taken).length + p.restReadCompressed < p.nextIn.length + p.restReadCompressed
        rw [List.length_drop, htaken]
        omega

/-- Nothing but the file matters of what is around it. -/
theorem of_file {s' : Unz ι} (h : Delivering Z s x c p taken given) (hfile : s'.file = s.file) :
    Delivering Z s' x c p taken given := by
  obtain ⟨pre, unread, tail, hsplit, hrest⟩ := h.rest
  exact ⟨h.stream, h.below, h.deflated, h.raw, h.crc32, h.totalOut, h.restUncompressed,
    pre, unread, tail, hfile.trans hsplit, hrest⟩

end Delivering

theorem pending_delivered (p : ReadInfo ι) (taken : ℕ) (out : Bytes) (stream : ι) :
    ReadInfo.pending { p.delivered Z taken out with stream := stream } ≤ p.pending := by
  show (p.nextIn.drop taken).length + p.restReadCompressed ≤ p.nextIn.length + p.restReadCompressed
  rw [List.length_drop]
  omega

/-- A piece of a list, and the rest of what is wanted. -/
theorem take_split {y : Bytes} {k n : ℕ} (h : k ≤ n) : y.take k ++ (y.drop k).take (n - k) = y.take n := by
  conv_rhs => rw [show n = k + (n - k) by omega, List.take_add]

section Reads
variable {x c : Bytes} (hZ : Z.Documented) (hx : Z.Deflated x c) (hlen : x.length < 2 ^ 32)
  (hbefore : s.byteBeforeTheZipfile = 0) (hfile : s.file.length < 2 ^ 63)

include hZ hx hlen hbefore hfile

/-- The loop of `unzReadCurrentFile` gives all that it is asked for. -/
theorem readLoop_spec (fuel : ℕ) {p : ReadInfo ι} {taken given : Bytes} (availOut : ℕ) (out : Bytes)
    (h : Delivering Z s x c p taken given) (havail : availOut ≤ x.length - given.length) (hpos : 0 < fuel)
    (hfuel : availOut = 0 ∨ p.pending + 2 ≤ fuel) :
    ∃ p' taken', readLoop Z s fuel p availOut out =
        some (((out ++ (x.drop given.length).take availOut).length : ℤ),
          out ++ (x.drop given.length).take availOut, p') ∧
      Delivering Z s x c p' taken' (given ++ (x.drop given.length).take availOut) ∧ p'.crc32Wait = p.crc32Wait ∧
      p'.pending ≤ p.pending := by
  induction fuel generalizing p taken given availOut out with
  | zero => omega
  | succ fuel ih =>
    unfold readLoop
    by_cases hzero : availOut = 0
    · rw [if_pos hzero, hzero, List.take_zero, List.append_nil, List.append_nil]
      exact ⟨p, taken, rfl, h, rfl, Nat.le_refl _⟩
    · replace hfuel := hfuel.resolve_left hzero
      obtain ⟨p₁, hrefill, h₁, hwait₁, hpending₁, hall⟩ := h.refill hbefore hfile
      have hmethod : ¬ (p₁.compressionMethod = 0 ∨ p₁.raw = true) := by
        rw [h₁.deflated, h₁.raw]
        decide
      rw [if_neg hzero, hrefill]
      simp only [if_neg hmethod]
      obtain ⟨h₂, hroom, hret, hmsg, hpending⟩ := h₁.inflate hZ hx hlen hall (Nat.pos_of_ne_zero hzero) havail rfl
      generalize Z.inflate p₁.stream p₁.nextIn availOut = r at h₂ hroom hret hmsg hpending ⊢
      have hpiece : r.out = (x.drop given.length).take r.out.length := by
        obtain ⟨more, hmore⟩ := h₂.below
        rw [← hmore, List.append_assoc, List.drop_left, List.take_left]
      have herr : (if 0 ≤ r.ret ∧ Z.msg r.stream = true then zDataError else r.ret) = r.ret := by
        rw [hmsg]
        exact if_neg (fun hand => Bool.false_ne_true hand.2)
      rw [herr]
      cases hret with
      | inr hend =>
        have hlast : r.out = (x.drop given.length).take availOut := by
          rw [← hend.2]
          exact hpiece
        rw [if_pos hend.1, ← hlast]
        refine ⟨_, _, ?_, h₂, hwait₁, ?_⟩
        · by_cases hnil : out ++ r.out = []
          · rw [if_pos hnil, hnil]
            rfl
          · rw [if_neg hnil]
        · rw [← hpending₁]
          exact pending_delivered p₁ r.taken r.out r.stream
      | inl hok =>
        have hne : ¬ r.ret = zStreamEnd := by
          rw [hok]
          decide
        have hgiven : (given ++ r.out).length = given.length + r.out.length := List.length_append
        have hle := pending_delivered (Z := Z) p₁ r.taken r.out r.stream
        obtain ⟨p', taken', hloop, h₃, hwait, hpending'⟩ := ih (availOut - r.out.length) (out ++ r.out) h₂ (by omega)
          (by omega) (by omega)
        have hrest : r.out ++ (x.drop (given ++ r.out).length).take (availOut - r.out.length) =
            (x.drop given.length).take availOut := by
          rw [hgiven, ← List.drop_drop]
          calc r.out ++ ((x.drop given.length).drop r.out.length).take (availOut - r.out.length)
              = (x.drop given.length).take r.out.length ++
                  ((x.drop given.length).drop r.out.length).take (availOut - r.out.length) := by rw [← hpiece]
            _ = (x.drop given.length).take availOut := take_split hroom
        rw [if_neg hne, if_neg (fun hne => hne hok), hloop]
        rw [List.append_assoc, hrest]
        rw [List.append_assoc, hrest] at h₃
        exact ⟨p', taken', rfl, h₃, hwait.trans hwait₁, by omega⟩

/-- A call of `unzReadCurrentFile` gives as much of the rest as goes into the buffer. -/
theorem unzReadCurrentFile_spec (fuel len : ℕ) {p : ReadInfo ι} {taken given : Bytes}
    (hopen : s.pfileInZipRead = some p)
    (h : Delivering Z s x c p taken given) (hpos : 0 < len) (hfuel : p.pending + 2 ≤ fuel) :
    ∃ p' taken', unzReadCurrentFile Z fuel s len = some ((((x.drop given.length).take len).length : ℤ),
        (x.drop given.length).take len, { s with pfileInZipRead := some p' }) ∧
      Delivering Z s x c p' taken' (given ++ (x.drop given.length).take len) ∧ p'.crc32Wait = p.crc32Wait ∧
      p'.pending ≤ p.pending := by
  have havail : p.availOut len = min len (x.length - given.length) := by
    rw [ReadInfo.availOut, h.raw, h.restUncompressed]
    rfl
  have htake : (x.drop given.length).take (p.availOut len) = (x.drop given.length).take len := by
    rw [havail, ← List.length_drop]
    exact List.take_eq_take_min.symm
  obtain ⟨p', taken', hloop, h', hwait, hpending⟩ :=
    readLoop_spec hZ hx hlen hbefore hfile fuel (p.availOut len) [] h (by omega) (by omega) (.inr hfuel)
  rw [htake, List.nil_append] at hloop
  rw [htake] at h'
  refine ⟨p', taken', ?_, h', hwait, hpending⟩
  unfold unzReadCurrentFile
  rw [hopen]
  show (if len = 0 then _ else (readLoop Z s fuel p (p.availOut len) []).map _) = _
  rw [if_neg (Nat.pos_iff_ne_zero.mp hpos), hloop]
  rfl

end Reads

/-- The buffers that are not empty, one after the other. -/
theorem filter_buffers (r : Bytes) : (buffers r).filter (· ≠ []) =
    if r = [] then [] else r.take bufLen :: (buffers (r.drop bufLen)).filter (· ≠ []) := by
  have hpos : 0 < bufLen := by decide
  have hempty : (buffers []).filter (· ≠ []) = [] := by
    rw [Zip.buffers_of_short (show ([] : Bytes).length < bufLen from hpos)]
    rfl
  by_cases hnil : r = []
  · rw [if_pos hnil, hnil, hempty]
  · rw [if_neg hnil]
    by_cases hshort : r.length < bufLen
    · rw [Zip.buffers_of_short hshort, List.take_of_length_le (Nat.le_of_lt hshort),
        List.drop_of_length_le (Nat.le_of_lt hshort), hempty]
      exact List.filter_cons_of_pos (decide_eq_true hnil)
    · rw [Zip.buffers_of_long (Nat.not_lt.mp hshort)]
      apply List.filter_cons_of_pos
      apply decide_eq_true
      apply List.ne_nil_of_length_pos
      rw [List.length_take_of_le (Nat.not_lt.mp hshort)]
      exact hpos

/-- The loop of `UnCompress` gets the rest of the file, and then the end of it. -/
theorem readBuffers_spec {x c : Bytes} (hZ : Z.Documented) (hx : Z.Deflated x c) (hlen : x.length < 2 ^ 32)
    (fuel rounds : ℕ) {s : Unz ι} {p : ReadInfo ι} {taken given : Bytes} (hbefore : s.byteBeforeTheZipfile = 0)
    (hfile : s.file.length < 2 ^ 63) (hopen : s.pfileInZipRead = some p) (h : Delivering Z s x c p taken given)
    (hfuel : p.pending + 2 ≤ fuel) (hrounds : (x.drop given.length).length < rounds) :
    ∃ p' taken', readBuffers Z fuel rounds s =
        some ((buffers (x.drop given.length)).filter (· ≠ []), false, { s with pfileInZipRead := some p' }) ∧
      Delivering Z s x c p' taken' x ∧ p'.crc32Wait = p.crc32Wait := by
  induction rounds generalizing s p taken given with
  | zero => exact absurd hrounds (Nat.not_lt_zero _)
  | succ rounds ih =>
    obtain ⟨p₁, taken₁, hcall, h₁, hwait₁, hpending₁⟩ :=
      unzReadCurrentFile_spec hZ hx hlen hbefore hfile fuel bufLen hopen h (by decide) hfuel
    obtain ⟨more, hmore⟩ := h.below
    have hrest : x.drop given.length = more := by rw [← hmore, List.drop_left]
    rw [hrest] at hcall h₁ hrounds ⊢
    rw [readBuffers, hcall, filter_buffers]
    by_cases hnil : more = []
    · rw [hnil, List.append_nil] at hmore
      rw [hnil, List.take_nil, List.append_nil, hmore] at h₁
      rw [hnil, if_pos rfl]
      exact ⟨p₁, taken₁, rfl, h₁, hwait₁⟩
    · have hpos : 0 < more.length := List.length_pos_iff.mpr hnil
      have hbuf : 0 < bufLen := by decide
      have hcut : (more.take bufLen).length = min bufLen more.length := List.length_take
      have hdrop : x.drop (given ++ more.take bufLen).length = more.drop bufLen := by
        rw [List.length_append, ← List.drop_drop, hrest, hcut]
        by_cases hle : bufLen ≤ more.length
        · rw [Nat.min_eq_left hle]
        · rw [Nat.min_eq_right (by omega), List.drop_of_length_le (Nat.le_refl _), List.drop_of_length_le (by omega)]
      obtain ⟨p₂, taken₂, hloop, h₂, hwait₂⟩ := ih (s := { s with pfileInZipRead := some p₁ }) hbefore hfile rfl
        (h₁.of_file rfl) (by omega) (by rw [hdrop, List.length_drop]; omega)
      rw [hdrop] at hloop
      refine ⟨p₂, taken₂, ?_, h₂.of_file rfl, hwait₂.trans hwait₁⟩
      have hneg : ¬ (((more.take bufLen).length : ℤ) < 0) := by omega
      have hzero : ¬ (((more.take bufLen).length : ℤ) = 0) := by omega
      rw [if_neg hnil]
      simp only [Option.bind_eq_bind, Option.bind_some, if_neg hneg, if_neg hzero, hloop]
      rfl

end AppUtil.MiniZip
