import Mathlib.Tactic.Common
import Mathlib.Data.List.TakeWhile
import Mathlib.Data.Nat.Notation
import Mathlib.Data.Int.Notation

/-! # Texts in buffers of a fixed size

A text in memory ends at its first NUL. `_snprintf` writes at most as many characters as it is told the
buffer has, and a NUL behind them only if there is room left; what is read from a buffer without a NUL
goes on with whatever stands behind the buffer. -/
namespace AppUtil.Lib.Formatting
set_option autoImplicit false

def nul : Char := Char.ofNat 0

/-- What stands before the first NUL. -/
def cstr (s : List Char) : List Char := s.takeWhile (· ≠ nul)

theorem nul_notMem_cstr (s : List Char) : nul ∉ cstr s := by
  intro h
  have hne := List.mem_takeWhile_imp h
  simp at hne

theorem ne_nul_of_notMem {s : List Char} (h : nul ∉ s) : ∀ c ∈ s, decide (c ≠ nul) = true := by
  intro c hc
  refine decide_eq_true ?_
  rintro rfl
  exact h hc

theorem cstr_of_notMem {s : List Char} (h : nul ∉ s) : cstr s = s :=
  List.takeWhile_eq_self_iff.mpr (ne_nul_of_notMem h)

theorem cstr_append_nul {s : List Char} (h : nul ∉ s) (rest : List Char) :
    cstr (s ++ nul :: rest) = s := by
  unfold cstr
  rw [List.takeWhile_append_of_pos (ne_nul_of_notMem h), List.takeWhile_cons_of_neg (by simp),
    List.append_nil]

/-- An array of `n` characters. -/
structure Buffer (n : ℕ) where
  chars : List Char
  size : chars.length = n
  deriving DecidableEq

namespace Buffer
variable {n : ℕ}

/-- Filled with zeros. -/
def zero (n : ℕ) : Buffer n := ⟨List.replicate n nul, List.length_replicate⟩

/-- `_snprintf` into the buffer, with its size as the count. -/
def snprintf (b : Buffer n) (text : List Char) : Buffer n where
  chars := (text ++ nul :: b.chars.drop (text.length + 1)).take n
  size := by
    have hsize := b.size
    rw [List.length_take, List.length_append, List.length_cons, List.length_drop]
    omega

def Terminated (b : Buffer n) : Prop := nul ∈ b.chars

/-- The text that is read from the buffer when `beyond` stands behind it. -/
def read (b : Buffer n) (beyond : List Char) : List Char := cstr (b.chars ++ beyond)

/-- The buffer holds the text, whatever stands behind it. -/
def Reads (b : Buffer n) (text : List Char) : Prop := b.Terminated ∧ ∀ beyond, b.read beyond = text

variable {b : Buffer n} {text : List Char}

theorem snprintf_fits (h : text.length < n) :
    (b.snprintf text).chars = text ++ nul :: b.chars.drop (text.length + 1) := by
  have hsize := b.size
  show List.take n _ = _
  rw [List.take_of_length_le]
  rw [List.length_append, List.length_cons, List.length_drop]
  omega

/-- There is no room for the NUL. -/
theorem snprintf_full (h : n ≤ text.length) : (b.snprintf text).chars = text.take n := by
  show List.take n _ = _
  rw [List.take_append_of_le_length h]

theorem terminated_snprintf_iff (htext : nul ∉ text) :
    (b.snprintf text).Terminated ↔ text.length < n := by
  unfold Terminated
  constructor
  · intro hterm
    by_contra hfull
    rw [snprintf_full (Nat.not_lt.mp hfull)] at hterm
    exact htext (List.mem_of_mem_take hterm)
  · intro h
    rw [snprintf_fits h]
    exact List.mem_append_right _ (List.mem_cons_self ..)

theorem read_snprintf (htext : nul ∉ text) (h : text.length < n) (beyond : List Char) :
    (b.snprintf text).read beyond = text := by
  unfold read
  rw [snprintf_fits h, List.append_assoc, List.cons_append, cstr_append_nul htext]

theorem reads_snprintf_iff (htext : nul ∉ text) : (b.snprintf text).Reads text ↔ text.length < n := by
  constructor
  · exact fun h => (terminated_snprintf_iff htext).mp h.1
  · exact fun h => ⟨(terminated_snprintf_iff htext).mpr h, read_snprintf htext h⟩

/-- What is read from it is the whole text. -/
theorem terminated_and_read_iff (htext : nul ∉ text) (beyond : List Char) :
    (b.snprintf text).Terminated ∧ (b.snprintf text).read beyond = text ↔ text.length < n := by
  rw [terminated_snprintf_iff htext]
  exact ⟨And.left, fun h => ⟨h, read_snprintf htext h beyond⟩⟩

/-- Of two texts that agree as far as the buffer goes the same is left. -/
theorem snprintf_eq_of_take {text' : List Char} (h : n ≤ text.length) (h' : n ≤ text'.length)
    (htake : text.take n = text'.take n) : b.snprintf text = b.snprintf text' := by
  have hchars : (b.snprintf text).chars = (b.snprintf text').chars := by
    rw [snprintf_full h, snprintf_full h', htake]
  cases hx : b.snprintf text
  cases hy : b.snprintf text'
  rw [hx, hy] at hchars
  simp only [mk.injEq]
  exact hchars

theorem reads_zero (h : 0 < n) : (zero n).Reads [] := by
  obtain ⟨m, rfl⟩ : ∃ m, n = m + 1 := ⟨n - 1, by omega⟩
  exact ⟨List.mem_cons_self .., fun _ => rfl⟩

end Buffer

/-! ## Numbers -/

/-- `%d`. -/
def decimal (i : ℤ) : List Char :=
  (if i < 0 then ['-'] else []) ++ Nat.toDigits 10 i.natAbs

theorem nul_notMem_decimal (i : ℤ) : nul ∉ decimal i := by
  intro h
  rcases List.mem_append.mp h with h | h
  · split at h
    · exact absurd (List.mem_singleton.mp h) (by decide)
    · cases h
  · have hdigit := Nat.isDigit_of_mem_toDigits (by decide) (by decide) h
    exact absurd hdigit (by decide)

end AppUtil.Lib.Formatting
