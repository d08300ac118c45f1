import Mathlib.Data.List.Basic
import Mathlib.Data.List.TakeWhile
import Mathlib.Tactic

/-!
# Source text, byte offsets, and spans

A buffer is the list of its bytes. Offsets are natural numbers; the source keeps them in 32 bits
and lexes buffers below that size.
-/

namespace Eter

abbrev Bytes := List UInt8

/-- The byte of an ASCII character. -/
def ch (c : Char) : UInt8 := UInt8.ofNat c.toNat

/-- The bytes of an ASCII string. -/
def ascii (s : String) : Bytes := s.toList.map ch

structure Span where
  start : ℕ
  «end» : ℕ
  deriving DecidableEq, Repr

/-- `StringRef::substr`: both the start and the length are clamped to the text. -/
def substr (text : Bytes) (start length : ℕ) : Bytes := (text.drop start).take length

theorem substr_zero_length (text : Bytes) (start : ℕ) : substr text start 0 = [] := by
  simp [substr]

/-- The length passed to `substr` is an unsigned 32-bit difference. -/
def Span.length (s : Span) : ℕ := (s.end + 2 ^ 32 - s.start) % 2 ^ 32

def textOf (source : Bytes) (s : Span) : Bytes := substr source s.start s.length

@[simp] theorem textOf_empty (source : Bytes) (p : ℕ) : textOf source ⟨p, p⟩ = [] := by
  have h : (Span.mk p p).length = 0 := by simp [Span.length]
  rw [textOf, h, substr_zero_length]

end Eter
