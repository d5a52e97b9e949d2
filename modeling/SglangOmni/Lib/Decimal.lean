import Mathlib.Algebra.GroupWithZero.Nat
import Mathlib.Data.Int.Init
import Mathlib.Tactic.Common

/-! Decimal numbers of a least width. -/
namespace SglangOmni.Lib

/-- The format `0{width}d`: the sign counts for the width. -/
def zeroPadded (width : Nat) : Int → List Char
  | .ofNat n => List.replicate (width - (Nat.toDigits 10 n).length) '0' ++ Nat.toDigits 10 n
  | .negSucc n => '-' :: (List.replicate (width - 1 - (Nat.toDigits 10 (n + 1)).length) '0' ++ Nat.toDigits 10 (n + 1))

def readDecimal (s : List Char) : Option Nat :=
  if s ≠ [] ∧ s.all Char.isDigit then some (Nat.ofDigitChars 10 s 0) else none

variable {width n : Nat}

theorem isDigit_of_mem_zeroPadded {c : Char} (h : c ∈ zeroPadded width n) : c.isDigit = true := by
  cases List.mem_append.mp h with
  | inl hzero => rw [List.eq_of_mem_replicate hzero]; rfl
  | inr hdigit => exact Nat.isDigit_of_mem_toDigits (by decide) (by decide) hdigit

theorem le_length_zeroPadded (width n : Nat) : width ≤ (zeroPadded width n).length := by
  show width ≤ (List.replicate _ '0' ++ Nat.toDigits 10 n).length
  rw [List.length_append, List.length_replicate]
  omega

theorem length_zeroPadded (hpos : 0 < width) (h : n < 10 ^ width) : (zeroPadded width n).length = width := by
  have hle : (Nat.toDigits 10 n).length ≤ width := (Nat.length_toDigits_le_iff (by decide) hpos).mpr h
  show (List.replicate _ '0' ++ Nat.toDigits 10 n).length = width
  rw [List.length_append, List.length_replicate]
  omega

theorem readDecimal_zeroPadded : readDecimal (zeroPadded width n) = some n := by
  have hne : zeroPadded width n ≠ [] := List.append_ne_nil_of_right_ne_nil _ Nat.toDigits_ne_nil
  unfold readDecimal
  rw [if_pos ⟨hne, List.all_eq_true.mpr fun c hc => isDigit_of_mem_zeroPadded hc⟩]
  show some (Nat.ofDigitChars 10 (List.replicate _ '0' ++ Nat.toDigits 10 n) 0) = some n
  rw [Nat.ofDigitChars_append, Nat.ofDigitChars_replicate_zero, Nat.mul_zero, Nat.ofDigitChars_ten_toDigits]

end SglangOmni.Lib
