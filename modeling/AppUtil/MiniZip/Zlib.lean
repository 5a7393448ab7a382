import AppUtil.Zip.MiniZip
import Mathlib.Algebra.Ring.Nat

/-! # The calls of zlib

`deflate`, `inflate` and `crc32` are not among the sources: here is what minizip uses of them, and what
`zlib.h` promises of the calls that it makes. -/
namespace AppUtil.MiniZip
open AppUtil.Zip (Bytes)
set_option autoImplicit false

def zOk : ℤ := 0
def zStreamEnd : ℤ := 1
def zDataError : ℤ := -3

/-- `Z_NO_FLUSH` and `Z_FINISH`. -/
inductive Flush where
  | noFlush
  | finish
  deriving DecidableEq, Repr

/-- What a call does: how much of `next_in` it takes, what it puts out, and the stream that it leaves. -/
structure ZCall (ζ : Type) where
  ret : ℤ
  taken : ℕ
  out : Bytes
  stream : ζ

/-- A call is given `next_in` and `avail_out`. `isText` is whether `data_type` is `Z_ASCII`, and `msg`
whether there is one. -/
structure Zlib (δ ι : Type) where
  deflateInit2 : ℤ → δ
  deflate : δ → Flush → Bytes → ℕ → ZCall δ
  deflateEnd : δ → ℤ
  deflateBound : ℕ → ℕ
  isText : δ → Bool
  inflateInit2 : ι
  inflate : ι → Bytes → ℕ → ZCall ι
  msg : ι → Bool
  crc32 : ℕ → Bytes → ℕ

namespace Zlib
variable {δ ι : Type} (Z : Zlib δ ι)

/-- A stream that was fed `fed` and has put out `out`. -/
inductive Deflating : δ → Bytes → Bytes → Prop where
  | init (level : ℤ) : Deflating (Z.deflateInit2 level) [] []
  | call {d : δ} {fed out nextIn : Bytes} {room : ℕ} (h : Deflating d fed out) (hin : nextIn ≠ [])
      (hroom : 0 < room) :
      Deflating (Z.deflate d .noFlush nextIn room).stream
        (fed ++ nextIn.take (Z.deflate d .noFlush nextIn room).taken)
        (out ++ (Z.deflate d .noFlush nextIn room).out)

/-- The same, when no more is fed. -/
inductive Finishing : δ → Bytes → Bytes → Prop where
  | start {d : δ} {fed out : Bytes} (h : Z.Deflating d fed out) : Finishing d fed out
  | call {d : δ} {fed out : Bytes} {room : ℕ} (h : Finishing d fed out) (hroom : 0 < room)
      (hret : (Z.deflate d .finish [] room).ret = zOk) :
      Finishing (Z.deflate d .finish [] room).stream fed (out ++ (Z.deflate d .finish [] room).out)

/-- `c` is what `x` was deflated to. -/
def Deflated (x c : Bytes) : Prop :=
  ∃ d out room, Z.Finishing d x out ∧ 0 < room ∧ (Z.deflate d .finish [] room).ret = zStreamEnd ∧
    c = out ++ (Z.deflate d .finish [] room).out

/-- A stream that has taken `taken` of `c` and has put out `given`. -/
inductive Inflating (c : Bytes) : ι → Bytes → Bytes → Prop where
  | init : Inflating c Z.inflateInit2 [] []
  | call {s : ι} {taken given nextIn : Bytes} {room : ℕ} (h : Inflating c s taken given)
      (hin : taken ++ nextIn <+: c) (hroom : 0 < room) :
      Inflating c (Z.inflate s nextIn room).stream
        (taken ++ nextIn.take (Z.inflate s nextIn room).taken)
        (given ++ (Z.inflate s nextIn room).out)

/-- What a call of `inflate` does that is given more of `c`, which `x` was deflated to. -/
structure Inflates (x c taken given nextIn : Bytes) (room : ℕ) (r : ZCall ι) : Prop where
  ret : r.ret = zOk ∨ r.ret = zStreamEnd ∧ given ++ r.out = x
  taken_le : r.taken ≤ nextIn.length
  out_le : r.out.length ≤ room
  out : given ++ r.out <+: x
  stops : r.taken = nextIn.length ∨ r.out.length = room
  rest : taken ++ nextIn.take r.taken = c → r.out.length < room → given ++ r.out = x
  msg : Z.msg r.stream = false

/-- What `zlib.h` says. A call stops when the input is used up or the output is full; the end of a stream is
not put out before `Z_FINISH`; and `inflate` gives back what was deflated, as far as it was given it, when it
can make progress at all. -/
structure Documented : Prop where
  noFlush : ∀ {d : δ} {fed out nextIn : Bytes} {room : ℕ}, Z.Deflating d fed out → nextIn ≠ [] → 0 < room →
    (Z.deflate d .noFlush nextIn room).ret = zOk ∧
    (Z.deflate d .noFlush nextIn room).taken ≤ nextIn.length ∧
    (Z.deflate d .noFlush nextIn room).out.length ≤ room ∧
    ((Z.deflate d .noFlush nextIn room).taken = nextIn.length ∨
      (Z.deflate d .noFlush nextIn room).out.length = room)
  finish : ∀ {d : δ} {fed out : Bytes} {room : ℕ}, Z.Finishing d fed out → 0 < room →
    (Z.deflate d .finish [] room).taken = 0 ∧
    (Z.deflate d .finish [] room).out.length ≤ room ∧
    ((Z.deflate d .finish [] room).ret = zOk ∧ (Z.deflate d .finish [] room).out.length = room ∨
      (Z.deflate d .finish [] room).ret = zStreamEnd)
  finish_out : ∀ {d : δ} {fed out : Bytes} {room : ℕ}, Z.Deflating d fed out → 0 < room →
    (Z.deflate d .finish [] room).out ≠ []
  bound : ∀ {d : δ} {fed out : Bytes}, Z.Finishing d fed out → out.length ≤ Z.deflateBound fed.length
  bound_mono : ∀ {m n : ℕ}, m ≤ n → Z.deflateBound m ≤ Z.deflateBound n
  deflateEnd : ∀ {d : δ} {fed out : Bytes} {room : ℕ}, Z.Finishing d fed out → 0 < room →
    (Z.deflate d .finish [] room).ret = zStreamEnd → Z.deflateEnd (Z.deflate d .finish [] room).stream = zOk
  inflate : ∀ {x c taken given nextIn : Bytes} {s : ι} {room : ℕ}, Z.Deflated x c →
    Z.Inflating c s taken given → taken ++ nextIn <+: c → 0 < room → (nextIn ≠ [] ∨ taken = c ∧ given ≠ x) →
    Z.Inflates x c taken given nextIn room (Z.inflate s nextIn room)
  crc32_nil : ∀ crc, Z.crc32 crc [] = crc
  crc32_append : ∀ crc a b, Z.crc32 crc (a ++ b) = Z.crc32 (Z.crc32 crc a) b
  crc32_lt : ∀ crc b, crc < 2 ^ 32 → Z.crc32 crc b < 2 ^ 32

end Zlib

end AppUtil.MiniZip
