import Mathlib.Algebra.Order.Floor.Semifield
import Mathlib.Data.Rat.Floor
import Mathlib.Data.Nat.Prime.Basic
import Mathlib.Tactic.NormNum
import Mathlib.Tactic.Positivity
import Mathlib.Tactic.Ring

/-!
# Decimal fractions in integer arithmetic

A decimal fraction comes as an integer part and the digits after the point: the number they spell
and how many they are. `floor_scaled` gives it in units of a power of ten, rounded down. Dividing
the digits by a power of ten drops those that are too many (`scaled_digits`). A shift of the point
changes what is rounded down, unless it is less than one unit before and after
(`floor_eq_floor_shift_iff`).

In machine words a power of ten wraps. `ten_pow_mod_eq_zero_iff` says when it wraps to zero.
-/

namespace Lib

/-- An integer part and `l` digits that spell `f`, in units of `10⁻ˢ`. -/
theorem floor_scaled (s i f l : ℕ) :
    ⌊(10 ^ s : ℚ) * (i + f / 10 ^ l)⌋₊ = 10 ^ s * i + 10 ^ s * f / 10 ^ l := by
  have hsplit : (10 ^ s : ℚ) * (i + f / 10 ^ l) =
      ((10 ^ s * i : ℕ) : ℚ) + ((10 ^ s * f : ℕ) : ℚ) / ((10 ^ l : ℕ) : ℚ) := by
    push_cast
    ring
  have hnonneg : (0 : ℚ) ≤ ((10 ^ s * f : ℕ) : ℚ) / ((10 ^ l : ℕ) : ℚ) := by positivity
  rw [hsplit, add_comm, Nat.floor_add_natCast hnonneg, Nat.floor_div_eq_div, add_comm]

/-- Digits in units that keep the first `s` of them. -/
theorem scaled_digits {s l : ℕ} (h : s ≤ l) (f : ℕ) : 10 ^ s * f / 10 ^ l = f / 10 ^ (l - s) := by
  obtain ⟨k, rfl⟩ := Nat.exists_eq_add_of_le h
  rw [Nat.add_sub_cancel_left, pow_add, Nat.mul_div_mul_left f _ (by positivity)]

/-- A number and a multiple of it, tenfold or more, have the same floor only below one. -/
theorem floor_eq_floor_of_tenfold {x y : ℚ} (hx : 0 ≤ x) (h : 10 * x ≤ y) :
    ⌊x⌋₊ = ⌊y⌋₊ ↔ x < 1 ∧ y < 1 := by
  have hy : 0 ≤ y := (mul_nonneg (by norm_num) hx).trans h
  constructor
  · intro heq
    have hlow : (⌊y⌋₊ : ℚ) ≤ x := by
      rw [← heq]
      exact Nat.floor_le hx
    have hhigh : y < ⌊y⌋₊ + 1 := Nat.lt_floor_add_one y
    -- ten times the floor is less than one more than the floor
    have hzero : ⌊y⌋₊ = 0 := by
      have hten : 10 * (⌊y⌋₊ : ℚ) < ⌊y⌋₊ + 1 := by linarith
      have hcast : 10 * ⌊y⌋₊ < ⌊y⌋₊ + 1 := by exact_mod_cast hten
      omega
    exact ⟨Nat.floor_eq_zero.mp (heq.trans hzero), Nat.floor_eq_zero.mp hzero⟩
  · rintro ⟨hlt, hlt'⟩
    rw [Nat.floor_eq_zero.mpr hlt, Nat.floor_eq_zero.mpr hlt']

/-- A decimal, and the same with its point shifted. -/
theorem floor_eq_floor_shift_iff {x : ℚ} {e : ℤ} (hx : 0 ≤ x) (he : e ≠ 0) :
    ⌊x⌋₊ = ⌊x * 10 ^ e⌋₊ ↔ x < 1 ∧ x * 10 ^ e < 1 := by
  have hpos : (0 : ℚ) < 10 ^ e := zpow_pos (by norm_num) e
  have hshifted : 0 ≤ x * 10 ^ e := mul_nonneg hx hpos.le
  rcases lt_or_gt_of_ne he with hneg | hgt
  · have hpow : (10 : ℚ) ^ e ≤ 10 ^ (-1 : ℤ) := zpow_le_zpow_right₀ (by norm_num) (by omega)
    have hten : (10 : ℚ) * 10 ^ e ≤ 1 := by
      rw [zpow_neg_one] at hpow
      linarith
    have hle : 10 * (x * 10 ^ e) ≤ x := by nlinarith
    rw [eq_comm, floor_eq_floor_of_tenfold hshifted hle, and_comm]
  · have hpow : (10 : ℚ) ^ (1 : ℤ) ≤ 10 ^ e := zpow_le_zpow_right₀ (by norm_num) (by omega)
    rw [zpow_one] at hpow
    have hle : 10 * x ≤ x * 10 ^ e := by nlinarith
    exact floor_eq_floor_of_tenfold hx hle

/-- A power of ten wraps to zero once it has as many factors two as the word has bits. -/
theorem ten_pow_mod_eq_zero_iff {w k : ℕ} : 10 ^ k % 2 ^ w = 0 ↔ w ≤ k := by
  have hten : 10 ^ k = 5 ^ k * 2 ^ k := by rw [← Nat.mul_pow]
  rw [← Nat.dvd_iff_mod_eq_zero, hten]
  constructor
  · intro h
    have hcoprime : Nat.Coprime (2 ^ w) (5 ^ k) := Nat.Coprime.pow w k (by decide)
    exact (Nat.pow_dvd_pow_iff_le_right (by decide)).mp (hcoprime.dvd_of_dvd_mul_left h)
  · intro h
    exact Dvd.dvd.mul_left (pow_dvd_pow 2 h) _

end Lib
