/-
# Decimal numbers

The decimal digits of a number as ASCII characters: as many as it has
(`decimal`), filled up with zeros to a width (`padded`), and exactly as many
as the width (`fixed`). A number that fits a width is printed alike by the
last two (`padded_eq_fixed`). `value` reads digits back.
-/
import Mathlib.Data.Nat.Digits.Defs

namespace Decimal

def digit (d : ℕ) : UInt8 := UInt8.ofNat (48 + d)

def decimal (n : ℕ) : List UInt8 := (Nat.toDigits 10 n).map Char.toUInt8

/-- At least `w` characters. -/
def padded (w n : ℕ) : List UInt8 := List.replicate (w - (decimal n).length) (digit 0) ++ decimal n

/-- Exactly `w` characters. -/
def fixed : ℕ → ℕ → List UInt8
  | 0, _ => []
  | w + 1, n => fixed w (n / 10) ++ [digit (n % 10)]

/-- The number that digits stand for. -/
def value (cs : List UInt8) : ℕ := cs.foldl (fun v c => 10 * v + (c.toNat - 48)) 0

theorem toUInt8_digitChar : ∀ d < 10, (Nat.digitChar d).toUInt8 = digit d := by decide

theorem decimal_of_lt {n : ℕ} (h : n < 10) : decimal n = [digit n] := by
  rw [decimal, Nat.toDigits_of_lt_base h, List.map_singleton, toUInt8_digitChar n h]

theorem decimal_of_le {n : ℕ} (h : 10 ≤ n) : decimal n = decimal (n / 10) ++ [digit (n % 10)] := by
  rw [decimal, Nat.toDigits_of_base_le (by decide) h, List.map_append, List.map_singleton,
    toUInt8_digitChar _ (Nat.mod_lt n (by decide))]
  rfl

theorem length_fixed (w n : ℕ) : (fixed w n).length = w := by
  induction w generalizing n with
  | zero => rfl
  | succ w ih => rw [fixed, List.length_append, ih, List.length_singleton]

theorem fixed_zero (w : ℕ) : fixed w 0 = List.replicate w (digit 0) := by
  induction w with
  | zero => rfl
  | succ w ih => rw [fixed, Nat.zero_div, ih, List.replicate_succ']

/-- A number that fits the width has no more characters than it. -/
theorem padded_eq_fixed {w n : ℕ} (hw : 0 < w) (h : n < 10 ^ w) : padded w n = fixed w n := by
  induction w generalizing n with
  | zero => exact absurd hw (Nat.lt_irrefl 0)
  | succ w ih =>
    by_cases hn : n < 10
    · rw [padded, decimal_of_lt hn, fixed, Nat.div_eq_of_lt hn, Nat.mod_eq_of_lt hn, fixed_zero]
      rfl
    · have hn10 : 10 ≤ n := Nat.le_of_not_lt hn
      have hw' : 0 < w := by
        rcases Nat.eq_zero_or_pos w with rfl | hpos
        · exact absurd h (by omega)
        · exact hpos
      have hdiv : n / 10 < 10 ^ w := Nat.div_lt_of_lt_mul (by rwa [Nat.pow_succ, Nat.mul_comm] at h)
      -- the last digit takes one of the characters
      have hlen : w + 1 - (decimal n).length = w - (decimal (n / 10)).length := by
        rw [decimal_of_le hn10, List.length_append, List.length_singleton, Nat.add_sub_add_right]
      calc padded (w + 1) n
        _ = List.replicate (w - (decimal (n / 10)).length) (digit 0) ++ decimal n := by rw [padded, hlen]
        _ = padded w (n / 10) ++ [digit (n % 10)] := by rw [decimal_of_le hn10, padded, List.append_assoc]
        _ = fixed (w + 1) n := by rw [ih hw' hdiv, fixed]

end Decimal
