import AppUtil.MiniZip.Zlib
import Mathlib.Logic.Function.Iterate

/-! # A codec

What `zlib.h` promises can be kept: the checksum is that of zlib, and the data is one block of literals in the
fixed codes of the deflate format, which is what zlib makes of a few bytes in which nothing repeats. -/
namespace AppUtil.MiniZip
open AppUtil.Zip (Bytes)
set_option autoImplicit false

def zBufError : ℤ := -5

/-! ## Bits -/

/-- The bits of a byte, the lowest first. -/
def bitsOf (b : UInt8) : List Bool := (List.range 8).map b.toNat.testBit

def byteOf (bits : List Bool) : UInt8 := UInt8.ofNat (bits.foldr (fun b n => b.toNat + 2 * n) 0)

/-- Eight bits to the byte. -/
def packBits : List Bool → Bytes
  | b₀ :: b₁ :: b₂ :: b₃ :: b₄ :: b₅ :: b₆ :: b₇ :: rest => byteOf [b₀, b₁, b₂, b₃, b₄, b₅, b₆, b₇] :: packBits rest
  | _ => []

theorem bitsOf_byteOf (b₀ b₁ b₂ b₃ b₄ b₅ b₆ b₇ : Bool) :
    bitsOf (byteOf [b₀, b₁, b₂, b₃, b₄, b₅, b₆, b₇]) = [b₀, b₁, b₂, b₃, b₄, b₅, b₆, b₇] := by
  revert b₀ b₁ b₂ b₃ b₄ b₅ b₆ b₇
  decide +kernel

theorem length_lt_eight {bits : List Bool}
    (h : ∀ b₀ b₁ b₂ b₃ b₄ b₅ b₆ b₇ rest, bits ≠ b₀ :: b₁ :: b₂ :: b₃ :: b₄ :: b₅ :: b₆ :: b₇ :: rest) :
    bits.length < 8 := by
  by_contra hlong
  match bits, Nat.not_lt.mp hlong with
  | b₀ :: b₁ :: b₂ :: b₃ :: b₄ :: b₅ :: b₆ :: b₇ :: rest, _ => exact h b₀ b₁ b₂ b₃ b₄ b₅ b₆ b₇ rest rfl

theorem flatMap_bitsOf_packBits {bits : List Bool} (h : 8 ∣ bits.length) : (packBits bits).flatMap bitsOf = bits := by
  induction bits using packBits.induct with
  | case1 b₀ b₁ b₂ b₃ b₄ b₅ b₆ b₇ rest ih =>
    have hrest : 8 ∣ rest.length := (Nat.dvd_add_left (Nat.dvd_refl 8)).mp h
    rw [packBits, List.flatMap_cons, bitsOf_byteOf, ih hrest]
    rfl
  | case2 bits hshort =>
    have hlen := length_lt_eight hshort
    have hnil : bits = [] := List.length_eq_zero_iff.mp (by omega)
    rw [hnil]
    rfl

theorem length_packBits (bits : List Bool) : (packBits bits).length = bits.length / 8 := by
  induction bits using packBits.induct with
  | case1 b₀ b₁ b₂ b₃ b₄ b₅ b₆ b₇ rest ih =>
    rw [packBits, List.length_cons, ih]
    simp only [List.length_cons]
    omega
  | case2 bits hshort =>
    rw [packBits.eq_2 bits hshort, Nat.div_eq_of_lt (length_lt_eight hshort)]
    rfl

/-- Zeros up to a whole number of bytes. -/
def padded (bits : List Bool) : List Bool := bits ++ List.replicate ((8 - bits.length % 8) % 8) false

theorem length_padded (bits : List Bool) : (padded bits).length = (bits.length + 7) / 8 * 8 := by
  rw [padded, List.length_append, List.length_replicate]
  omega

/-! ## The fixed codes -/

/-- A number of `n` bits, the highest first. -/
def highFirst : ℕ → ℕ → List Bool
  | 0, _ => []
  | n + 1, v => v.testBit n :: highFirst n v

/-- The code of a literal. -/
def literal (b : UInt8) : List Bool := if b < 144 then highFirst 8 (48 + b.toNat) else highFirst 9 (256 + b.toNat)

def endOfBlock : List Bool := List.replicate 7 false

inductive Symbol where
  | byte (b : UInt8)
  | endOfBlock
  deriving DecidableEq

/-- What `len` bits with the value `code` stand for. There are no lengths and distances. -/
def symbolOf (len code : ℕ) : Option Symbol :=
  if len = 7 ∧ code = 0 then some .endOfBlock
  else if len = 8 ∧ 48 ≤ code ∧ code < 192 then some (.byte (UInt8.ofNat (code - 48)))
  else if len = 9 ∧ 400 ≤ code then some (.byte (UInt8.ofNat (code - 256)))
  else none

/-- What is read, with what stands behind the symbol. -/
def Symbol.before (symbol : Symbol) (rest : Option Bytes) : Option Bytes :=
  match symbol with
  | .byte b => rest.map (b :: ·)
  | .endOfBlock => some []

/-- The symbols up to the end of the block, of which the first `len` bits were read already. -/
def readSymbols : ℕ → ℕ → List Bool → Option Bytes
  | _, _, [] => none
  | len, code, bit :: bits =>
    match symbolOf (len + 1) (2 * code + bit.toNat) with
    | some symbol => symbol.before (readSymbols 0 0 bits)
    | none => readSymbols (len + 1) (2 * code + bit.toNat) bits

/-- The symbol that stands at the end of these bits, and not before. -/
def codeOf : ℕ → ℕ → List Bool → Option Symbol
  | _, _, [] => none
  | len, code, bit :: bits =>
    match symbolOf (len + 1) (2 * code + bit.toNat) with
    | some symbol => if bits = [] then some symbol else none
    | none => codeOf (len + 1) (2 * code + bit.toNat) bits

theorem readSymbols_of_codeOf {len code : ℕ} {bits : List Bool} {symbol : Symbol}
    (h : codeOf len code bits = some symbol) (rest : List Bool) :
    readSymbols len code (bits ++ rest) = symbol.before (readSymbols 0 0 rest) := by
  induction bits generalizing len code with
  | nil => cases h
  | cons bit bits ih =>
    rw [codeOf] at h
    rw [List.cons_append, readSymbols]
    cases hsymbol : symbolOf (len + 1) (2 * code + bit.toNat) with
    | none =>
      rw [hsymbol] at h
      exact ih h
    | some symbol' =>
      rw [hsymbol] at h
      obtain ⟨rfl, heq⟩ := Option.ite_none_right_eq_some.mp h
      obtain rfl := Option.some.inj heq
      rfl

theorem codeOf_literal (b : UInt8) : codeOf 0 0 (literal b) = some (.byte b) := by
  have hall : ∀ n < 256, codeOf 0 0 (literal (UInt8.ofNat n)) = some (.byte (UInt8.ofNat n)) := by decide +kernel
  have h := hall b.toNat b.toNat_lt
  rwa [UInt8.ofNat_toNat] at h

/-- More bits do not change what was read. -/
theorem readSymbols_append {len code : ℕ} {bits : List Bool} {x : Bytes} (h : readSymbols len code bits = some x)
    (more : List Bool) : readSymbols len code (bits ++ more) = some x := by
  induction bits generalizing len code x with
  | nil => cases h
  | cons bit bits ih =>
    rw [readSymbols] at h
    rw [List.cons_append, readSymbols]
    cases hsymbol : symbolOf (len + 1) (2 * code + bit.toNat) with
    | none =>
      rw [hsymbol] at h
      exact ih h
    | some symbol =>
      rw [hsymbol] at h
      cases symbol with
      | endOfBlock => exact h
      | byte b =>
        obtain ⟨x', hx', rfl⟩ := Option.map_eq_some_iff.mp h
        exact congrArg (Option.map (b :: ·)) (ih hx')

theorem readSymbols_flatMap_literal (x : Bytes) (rest : List Bool) :
    readSymbols 0 0 (x.flatMap literal ++ (endOfBlock ++ rest)) = some x := by
  induction x with
  | nil =>
    have hend : codeOf 0 0 endOfBlock = some .endOfBlock := by decide
    exact readSymbols_of_codeOf hend rest
  | cons b x ih =>
    rw [List.flatMap_cons, List.append_assoc, readSymbols_of_codeOf (codeOf_literal b)]
    exact congrArg (Option.map (b :: ·)) ih

/-! ## Blocks -/

/-- The last block, with fixed codes. -/
def block (x : Bytes) : List Bool := true :: true :: false :: (x.flatMap literal ++ endOfBlock)

def encode (x : Bytes) : Bytes := packBits (padded (block x))

def readBlock : List Bool → Option Bytes
  | true :: true :: false :: bits => readSymbols 0 0 bits
  | _ => none

def decode (c : Bytes) : Option Bytes := readBlock (c.flatMap bitsOf)

theorem length_flatMap_literal_le (x : Bytes) : (x.flatMap literal).length ≤ 9 * x.length := by
  have hliteral : ∀ b : UInt8, (literal b).length ≤ 9 := by
    intro b
    unfold literal
    split
    · exact Nat.le_succ 8
    · exact Nat.le_refl 9
  induction x with
  | nil => exact Nat.le_refl _
  | cons b x ih =>
    have hb := hliteral b
    rw [List.flatMap_cons, List.length_append, List.length_cons]
    omega

theorem length_block (x : Bytes) : (block x).length = 10 + (x.flatMap literal).length := by
  simp only [block, endOfBlock, List.length_cons, List.length_append, List.length_replicate]
  omega

theorem length_encode_le (x : Bytes) : (encode x).length ≤ 2 * x.length + 2 := by
  have hlen := length_flatMap_literal_le x
  rw [encode, length_packBits, length_padded, length_block]
  omega

theorem encode_ne_nil (x : Bytes) : encode x ≠ [] := by
  apply List.ne_nil_of_length_pos
  rw [encode, length_packBits, length_padded, length_block]
  omega

theorem decode_encode (x : Bytes) : decode (encode x) = some x := by
  have hdvd : 8 ∣ (padded (block x)).length := by
    rw [length_padded]
    exact Nat.dvd_mul_left 8 _
  rw [decode, encode, flatMap_bitsOf_packBits hdvd, padded, block]
  show readSymbols 0 0 (x.flatMap literal ++ endOfBlock ++ _) = _
  rw [List.append_assoc]
  exact readSymbols_flatMap_literal x _

theorem readBlock_append {bits : List Bool} {x : Bytes} (h : readBlock bits = some x) (more : List Bool) :
    readBlock (bits ++ more) = some x := by
  match bits, h with
  | true :: true :: false :: bits, h => exact readSymbols_append h more

/-- Nothing is made of less than all of it. -/
theorem decode_of_prefix {c x : Bytes} (h : c <+: encode x) : decode c = none ∨ decode c = some x := by
  cases hdecode : decode c with
  | none => exact .inl rfl
  | some y =>
    obtain ⟨more, hmore⟩ := h
    have hall : decode (encode x) = some y := by
      rw [← hmore, decode, List.flatMap_append]
      exact readBlock_append hdecode _
    exact .inr (hall.symm.trans (decode_encode x))

/-! ## The streams -/

/-- What was fed, and once it is finished what is still to be put out. -/
structure Deflater where
  fed : Bytes
  queue : Option Bytes

def Deflater.left (d : Deflater) : Bytes := d.queue.getD (encode d.fed)

/-- All input is kept until the end. -/
def deflater (d : Deflater) (flush : Flush) (nextIn : Bytes) (availOut : ℕ) : ZCall Deflater :=
  match flush with
  | .noFlush => ⟨zOk, nextIn.length, [], ⟨d.fed ++ nextIn, none⟩⟩
  | .finish =>
    ⟨if d.left.length ≤ availOut then zStreamEnd else zOk, 0, d.left.take availOut,
      ⟨d.fed, some (d.left.drop availOut)⟩⟩

/-- What was taken, and how much was put out. -/
structure Inflater where
  taken : Bytes
  given : ℕ

/-- All input is kept until there is enough. -/
def inflater (s : Inflater) (nextIn : Bytes) (availOut : ℕ) : ZCall Inflater :=
  let x := (decode (s.taken ++ nextIn)).getD []
  let out := (x.drop s.given).take availOut
  ⟨if decode (s.taken ++ nextIn) = some x ∧ x.length ≤ s.given + out.length then zStreamEnd
    else if nextIn = [] ∧ out = [] then zBufError else zOk,
    nextIn.length, out, ⟨s.taken ++ nextIn, s.given + out.length⟩⟩

/-! ## The checksum -/

/-- A bit of the division by the polynomial of CRC-32. -/
def crcBit (c : UInt32) : UInt32 := if c &&& 1 = 1 then (c >>> 1) ^^^ 0xedb88320 else c >>> 1

/-- A byte more. The complement before and after cancels from byte to byte. -/
def crcByte (crc : ℕ) (b : UInt8) : ℕ :=
  (Nat.iterate crcBit 8 ((UInt32.ofNat crc ^^^ 0xffffffff) ^^^ b.toUInt32) ^^^ 0xffffffff).toNat

/-- Whether zlib takes data for text. -/
def textual (x : Bytes) : Bool :=
  x.all (fun b => !(b ≤ 6 || (14 ≤ b && b ≤ 25) || (28 ≤ b && b ≤ 31))) &&
    x.any (fun b => b == 9 || b == 10 || b == 13 || 32 ≤ b)

def codec : Zlib Deflater Inflater where
  deflateInit2 _ := ⟨[], none⟩
  deflate := deflater
  deflateEnd _ := 0
  deflateBound n := 2 * n + 2
  isText d := textual d.fed
  inflateInit2 := ⟨[], 0⟩
  inflate := inflater
  msg _ := false
  crc32 crc buf := buf.foldl crcByte crc

-- the check value of the polynomial
example : codec.crc32 0 [0x31, 0x32, 0x33, 0x34, 0x35, 0x36, 0x37, 0x38, 0x39] = 0xcbf43926 := by decide +kernel

/-! ## The promises -/

theorem codec_deflating {d : Deflater} {fed out : Bytes} (h : codec.Deflating d fed out) :
    d = ⟨fed, none⟩ ∧ out = [] := by
  induction h with
  | init level => exact ⟨rfl, rfl⟩
  | @call d fed out nextIn room h hin hroom ih =>
    obtain ⟨rfl, rfl⟩ := ih
    refine ⟨?_, rfl⟩
    show (⟨fed ++ nextIn, none⟩ : Deflater) = ⟨fed ++ nextIn.take nextIn.length, none⟩
    rw [List.take_length]

theorem codec_finishing {d : Deflater} {fed out : Bytes} (h : codec.Finishing d fed out) :
    out ++ d.left = encode fed ∧ d.left ≠ [] := by
  induction h with
  | start h =>
    obtain ⟨rfl, rfl⟩ := codec_deflating h
    exact ⟨rfl, encode_ne_nil _⟩
  | @call d fed out room h hroom hret ih =>
    have hmore : ¬ d.left.length ≤ room := by
      intro hle
      have hend : (if d.left.length ≤ room then zStreamEnd else zOk) = zOk := hret
      rw [if_pos hle] at hend
      exact absurd hend (by decide)
    constructor
    · show out ++ d.left.take room ++ d.left.drop room = _
      rw [List.append_assoc, List.take_append_drop]
      exact ih.1
    · show d.left.drop room ≠ []
      apply List.ne_nil_of_length_pos
      rw [List.length_drop]
      omega

theorem codec_deflated {x c : Bytes} (h : codec.Deflated x c) : c = encode x := by
  obtain ⟨d, out, room, hfinishing, -, hret, rfl⟩ := h
  have hend : (if d.left.length ≤ room then zStreamEnd else zOk) = zStreamEnd := hret
  have hle : d.left.length ≤ room := by
    by_contra hmore
    rw [if_neg hmore] at hend
    exact absurd hend (by decide)
  show out ++ d.left.take room = _
  rw [List.take_of_length_le hle]
  exact (codec_finishing hfinishing).1

/-- What is put out on the way. -/
theorem inflater_out {x taken given nextIn : Bytes} (room : ℕ) (hgiven : given <+: x)
    (hin : taken ++ nextIn <+: encode x) :
    given ++ (inflater ⟨taken, given.length⟩ nextIn room).out <+: x := by
  obtain ⟨more, rfl⟩ := hgiven
  cases decode_of_prefix hin with
  | inl hnone =>
    have hout : (inflater ⟨taken, given.length⟩ nextIn room).out = [] := by
      simp [inflater, hnone]
    rw [hout, List.append_nil]
    exact List.prefix_append given more
  | inr hsome =>
    have hout : (inflater ⟨taken, given.length⟩ nextIn room).out = more.take room := by
      simp [inflater, hsome]
    rw [hout]
    exact (List.prefix_append_right_inj given).mpr (List.take_prefix room more)

/-- A call of `inflate` that can make progress. -/
theorem inflater_spec {x taken given nextIn : Bytes} {room : ℕ} (hgiven : given <+: x)
    (hin : taken ++ nextIn <+: encode x) (hroom : 0 < room) (hprogress : nextIn ≠ [] ∨ taken = encode x ∧ given ≠ x) :
    codec.Inflates x (encode x) taken given nextIn room (inflater ⟨taken, given.length⟩ nextIn room) := by
  have hprefix := inflater_out room hgiven hin
  obtain ⟨more, rfl⟩ := hgiven
  cases decode_of_prefix hin with
  | inl hnone =>
    have hout : (inflater ⟨taken, given.length⟩ nextIn room).out = [] := by
      simp [inflater, hnone]
    have hnil : nextIn ≠ [] := by
      rcases hprogress with hnil | ⟨hall, -⟩
      · exact hnil
      · rintro rfl
        rw [List.append_nil, hall, decode_encode] at hnone
        cases hnone
    have hret : (inflater ⟨taken, given.length⟩ nextIn room).ret = zOk := by
      simp [inflater, hnone, hnil]
    refine ⟨.inl hret, Nat.le_refl _, ?_, hprefix, .inl rfl, ?_, rfl⟩
    · rw [hout]
      exact Nat.zero_le _
    · intro hall
      have htake : nextIn.take (inflater ⟨taken, given.length⟩ nextIn room).taken = nextIn := List.take_length
      rw [htake] at hall
      rw [hall, decode_encode] at hnone
      cases hnone
  | inr hsome =>
    have hout : (inflater ⟨taken, given.length⟩ nextIn room).out = more.take room := by
      simp [inflater, hsome]
    have hret : (inflater ⟨taken, given.length⟩ nextIn room).ret =
        if (given ++ more).length ≤ given.length + (more.take room).length then zStreamEnd
        else if nextIn = [] ∧ more.take room = [] then zBufError else zOk := by
      simp [inflater, hsome]
    have hall : more.length ≤ (more.take room).length → given ++ more.take room = given ++ more := by
      intro hle
      rw [List.length_take] at hle
      rw [List.take_of_length_le (by omega)]
    have hlen : (more.take room).length = min room more.length := List.length_take
    refine ⟨?_, Nat.le_refl _, ?_, hprefix, .inl rfl, ?_, rfl⟩
    · rw [hret, hout, List.length_append]
      by_cases hle : given.length + more.length ≤ given.length + (more.take room).length
      · rw [if_pos hle]
        exact .inr ⟨rfl, hall (by omega)⟩
      · have hsome : ¬ (nextIn = [] ∧ more.take room = []) := by
          rintro ⟨-, hnil⟩
          rw [hnil, List.length_nil] at hlen hle
          omega
        rw [if_neg hle, if_neg hsome]
        exact .inl rfl
    · rw [hout]
      exact List.length_take_le room more
    · intro _ hlt
      rw [hout] at hlt ⊢
      apply hall
      omega

theorem codec_inflating {x taken given : Bytes} {s : Inflater} (h : codec.Inflating (encode x) s taken given) :
    s = ⟨taken, given.length⟩ ∧ given <+: x := by
  induction h with
  | init => exact ⟨rfl, List.nil_prefix⟩
  | @call s taken given nextIn room h hin hroom ih =>
    obtain ⟨rfl, hgiven⟩ := ih
    refine ⟨?_, inflater_out room hgiven hin⟩
    show (⟨taken ++ nextIn, _⟩ : Inflater) = ⟨taken ++ nextIn.take nextIn.length, _⟩
    rw [List.take_length, List.length_append]
    rfl

theorem documented_codec : codec.Documented where
  noFlush _ _ _ := ⟨rfl, Nat.le_refl _, Nat.zero_le _, .inl rfl⟩
  finish := by
    intro d fed out room h hroom
    refine ⟨rfl, List.length_take_le room d.left, ?_⟩
    show (if d.left.length ≤ room then zStreamEnd else zOk) = zOk ∧ (d.left.take room).length = room ∨
      (if d.left.length ≤ room then zStreamEnd else zOk) = zStreamEnd
    by_cases hle : d.left.length ≤ room
    · exact .inr (if_pos hle)
    · exact .inl ⟨if_neg hle, List.length_take_of_le (by omega)⟩
  finish_out := by
    intro d fed out room h hroom
    have hleft := (codec_finishing (.start h)).2
    show d.left.take room ≠ []
    apply List.ne_nil_of_length_pos
    have hpos : 0 < d.left.length := List.length_pos_iff.mpr hleft
    rw [List.length_take]
    omega
  bound := by
    intro d fed out h
    have hlen := congrArg List.length (codec_finishing h).1
    rw [List.length_append] at hlen
    have hle := length_encode_le fed
    show out.length ≤ 2 * fed.length + 2
    omega
  bound_mono h := Nat.add_le_add_right (Nat.mul_le_mul_left 2 h) 2
  deflateEnd _ _ _ := rfl
  inflate := by
    intro x c taken given nextIn s room hdeflated h hin hroom hprogress
    obtain rfl := codec_deflated hdeflated
    obtain ⟨rfl, hgiven⟩ := codec_inflating h
    exact inflater_spec hgiven hin hroom hprogress
  crc32_nil _ := rfl
  crc32_append _ _ _ := List.foldl_append
  crc32_lt crc b h := by
    show b.foldl crcByte crc < 2 ^ 32
    induction b generalizing crc with
    | nil => exact h
    | cons a b ih => exact ih (crcByte crc a) (UInt32.toNat_lt _)

end AppUtil.MiniZip
