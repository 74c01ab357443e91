import Mathlib.Algebra.BigOperators.Fin
import Mathlib.Algebra.BigOperators.Group.List.Basic
import Mathlib.Algebra.Order.BigOperators.Group.Finset
import Mathlib.Algebra.Order.BigOperators.Group.List
import Mathlib.Algebra.Order.Floor.Div
import Mathlib.Algebra.Order.Ring.Nat
import Mathlib.Data.Nat.Dist
import Mathlib.Tactic.Common

/-!
# Rounded means of lists, and sums that saturate

The mean of a list of natural numbers, rounded down, lies between the bounds of the list
(`le_mean`, `mean_le`). A sum that is formed with saturating additions is the exact sum, capped
once at the end, whatever the order (`foldl_satAdd`); so the mean that is formed with it
(`cappedMean`) never exceeds the mean, and is the mean exactly when the cap makes no difference
after the division (`cappedMean_eq_mean_iff`).

One number of the list moves such a mean by at most its own change divided by the length and
rounded up (`dist_cappedMean_set_le`): neither the cap nor the division moves two numbers further
apart than they are. Several numbers with a common bound move it by at most that bound for each of
their places (`dist_cappedMean_le`).
-/

namespace Lib

/-- Addition that saturates at `cap`. -/
def satAdd (cap a b : ℕ) : ℕ := min (a + b) cap

/-- **Saturating once is enough.** -/
theorem foldl_satAdd {cap a : ℕ} (ha : a ≤ cap) (xs : List ℕ) :
    xs.foldl (satAdd cap) a = min (a + xs.sum) cap := by
  induction xs generalizing a with
  | nil => simp [ha]
  | cons x xs ih =>
      have hx : satAdd cap a x ≤ cap := min_le_right _ _
      rw [List.foldl_cons, ih hx, List.sum_cons, satAdd]
      omega

/-- The mean, rounded down; zero for no numbers. -/
def mean (xs : List ℕ) : ℕ := xs.sum / xs.length

/-- The mean that is formed with a sum that saturates. -/
def cappedMean (cap : ℕ) (xs : List ℕ) : ℕ := min xs.sum cap / xs.length

theorem mean_le {xs : List ℕ} {b : ℕ} (h : ∀ x ∈ xs, x ≤ b) : mean xs ≤ b := by
  have hsum : xs.sum ≤ xs.length * b := by
    simpa using List.sum_le_card_nsmul xs b h
  rcases Nat.eq_zero_or_pos xs.length with hlen | hlen
  · simp [mean, hlen]
  · exact Nat.div_le_of_le_mul hsum

theorem le_mean {xs : List ℕ} {a : ℕ} (hne : xs ≠ []) (h : ∀ x ∈ xs, a ≤ x) : a ≤ mean xs := by
  have hsum : xs.length * a ≤ xs.sum := by
    simpa using List.card_nsmul_le_sum xs a h
  rw [mean, Nat.le_div_iff_mul_le (List.length_pos_of_ne_nil hne), Nat.mul_comm]
  exact hsum

theorem cappedMean_le_mean (cap : ℕ) (xs : List ℕ) : cappedMean cap xs ≤ mean xs :=
  Nat.div_le_div_right (min_le_left _ _)

/-- When the cap makes no difference: as long as the sum is below the next multiple of the length
after the cap. -/
theorem cappedMean_eq_mean_iff {cap : ℕ} {xs : List ℕ} (hne : xs ≠ []) :
    cappedMean cap xs = mean xs ↔ xs.sum < xs.length * (cap / xs.length + 1) := by
  have hlength : 0 < xs.length := List.length_pos_of_ne_nil hne
  unfold cappedMean mean
  rw [Nat.mul_comm, ← Nat.div_lt_iff_lt_mul hlength]
  rcases le_total xs.sum cap with hle | hle
  · have hdiv := Nat.div_le_div_right (c := xs.length) hle
    rw [min_eq_left hle]
    omega
  · have hdiv := Nat.div_le_div_right (c := xs.length) hle
    rw [min_eq_right hle]
    omega

/-! ## The influence of one number -/

theorem dist_min_le (a b cap : ℕ) : Nat.dist (min a cap) (min b cap) ≤ Nat.dist a b := by
  unfold Nat.dist
  omega

/-- Quotients are apart by the quotient of the distance, rounded up. -/
theorem dist_div_le {a b d n : ℕ} (hn : 0 < n) (h : Nat.dist a b ≤ d) :
    Nat.dist (a / n) (b / n) ≤ d ⌈/⌉ n := by
  have hd : d ≤ n * (d ⌈/⌉ n) := le_smul_ceilDiv hn
  have hle : ∀ x y, x ≤ y + d → x / n ≤ y / n + d ⌈/⌉ n := by
    intro x y hxy
    have hxn : x ≤ y + n * (d ⌈/⌉ n) := by omega
    calc x / n ≤ (y + n * (d ⌈/⌉ n)) / n := Nat.div_le_div_right hxn
      _ = y / n + d ⌈/⌉ n := Nat.add_mul_div_left y _ hn
  unfold Nat.dist at h ⊢
  have hab := hle a b (by omega)
  have hba := hle b a (by omega)
  omega

/-- The sums of two lists that differ in one number. -/
theorem dist_sum_set {xs : List ℕ} {i : ℕ} (hi : i < xs.length) (x : ℕ) :
    Nat.dist (xs.set i x).sum xs.sum = Nat.dist x xs[i] := by
  have hnew : (xs.set i x).sum = x + (xs.eraseIdx i).sum :=
    (List.set_perm_cons_eraseIdx hi x).sum_eq
  have hold : xs[i] + (xs.eraseIdx i).sum = xs.sum := (List.getElem_cons_eraseIdx_perm hi).sum_eq
  rw [hnew, ← hold, Nat.dist_add_add_right]

/-- **The influence of one number**, whether the cap is reached or not. -/
theorem dist_cappedMean_set_le (cap : ℕ) {xs : List ℕ} {i : ℕ} (hi : i < xs.length) (x : ℕ) :
    Nat.dist (cappedMean cap (xs.set i x)) (cappedMean cap xs) ≤
      Nat.dist x xs[i] ⌈/⌉ xs.length := by
  unfold cappedMean
  rw [List.length_set]
  apply dist_div_le (Nat.zero_lt_of_lt hi)
  calc Nat.dist (min (xs.set i x).sum cap) (min xs.sum cap) ≤
      Nat.dist (xs.set i x).sum xs.sum := dist_min_le _ _ _
    _ = Nat.dist x xs[i] := dist_sum_set hi x

/-! ## The influence of several numbers -/

theorem sum_eq_sum_range (xs : List ℕ) :
    xs.sum = ∑ i ∈ Finset.range xs.length, xs[i]?.getD 0 := by
  rw [Finset.sum_range, ← Fin.sum_univ_getElem xs]
  apply Finset.sum_congr rfl
  intro i _
  rw [List.getElem?_eq_getElem i.isLt, Option.getD_some]

/-- The sum of a list is at most that of another one and the bound of its numbers wherever the two
differ. -/
theorem sum_le_of_agree {xs ys : List ℕ} {bound : ℕ} {S : Finset ℕ}
    (hlen : xs.length = ys.length) (hxs : ∀ x ∈ xs, x ≤ bound)
    (hagree : ∀ i, i ∉ S → xs[i]? = ys[i]?) : xs.sum ≤ ys.sum + S.card * bound := by
  have hterm : ∀ i ∈ Finset.range xs.length,
      xs[i]?.getD 0 ≤ ys[i]?.getD 0 + if i ∈ S then bound else 0 := by
    intro i hi
    split_ifs with hS
    · have hx : xs[i]?.getD 0 ≤ bound := by
        rw [List.getElem?_eq_getElem (Finset.mem_range.mp hi), Option.getD_some]
        exact hxs _ (List.getElem_mem _)
      omega
    · rw [hagree i hS, Nat.add_zero]
  have hplaces : ∑ i ∈ Finset.range xs.length, (if i ∈ S then bound else 0) ≤ S.card * bound := by
    rw [Finset.sum_ite_mem, Finset.sum_const, smul_eq_mul]
    apply Nat.mul_le_mul_right
    exact Finset.card_le_card Finset.inter_subset_right
  calc xs.sum = ∑ i ∈ Finset.range xs.length, xs[i]?.getD 0 := sum_eq_sum_range xs
    _ ≤ ∑ i ∈ Finset.range xs.length, (ys[i]?.getD 0 + if i ∈ S then bound else 0) :=
      Finset.sum_le_sum hterm
    _ = ys.sum + ∑ i ∈ Finset.range xs.length, (if i ∈ S then bound else 0) := by
      rw [Finset.sum_add_distrib, hlen, ← sum_eq_sum_range]
    _ ≤ ys.sum + S.card * bound := Nat.add_le_add_left hplaces _

/-- **The influence of several numbers** of a list, wherever they are, if they have a common
bound. -/
theorem dist_cappedMean_le (cap : ℕ) {xs ys : List ℕ} {bound : ℕ} {S : Finset ℕ}
    (hpos : 0 < ys.length) (hlen : xs.length = ys.length) (hxs : ∀ x ∈ xs, x ≤ bound)
    (hys : ∀ y ∈ ys, y ≤ bound) (hagree : ∀ i, i ∉ S → xs[i]? = ys[i]?) :
    Nat.dist (cappedMean cap xs) (cappedMean cap ys) ≤ (S.card * bound) ⌈/⌉ ys.length := by
  have hle := sum_le_of_agree hlen hxs hagree
  have hge := sum_le_of_agree hlen.symm hys fun i hi => (hagree i hi).symm
  unfold cappedMean
  rw [hlen]
  apply dist_div_le hpos
  apply (dist_min_le _ _ cap).trans
  unfold Nat.dist
  omega

end Lib
