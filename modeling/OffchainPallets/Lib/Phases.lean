import Mathlib.Algebra.Order.Floor.Div
import Mathlib.Data.Int.GCD
import Mathlib.Data.Nat.ModEq
import Mathlib.Tactic.Ring

/-!
# Periods and phases

Moments are natural numbers. Those with a phase `φ` are the numbers that are `φ` modulo the period
`p`, and `lastAtPhase` is the last of them that is not after a given moment.

* `lastAtPhase_mod` — a moment `c` is found again from its phase, at every moment of the period that
  begins with it.
* `due_iff_dvd` — a timer that is asked at every moment from `c` on, and fires unless it has done so
  less than a period ago, fires at one phase only.
* `cooled_iff` — a timer that is asked at the multiples of a period only, and has to cool down for
  `d` moments, has the period `roundUp p d`.
-/

namespace Lib

variable {p φ m c : ℕ}

/-- The last moment of phase `φ` that is not after `m`; `φ` itself, if there is none. -/
def lastAtPhase (p φ m : ℕ) : ℕ := (max m φ - φ) / p * p + φ

theorem lastAtPhase_modEq (p φ m : ℕ) : lastAtPhase p φ m ≡ φ [MOD p] := by
  rw [lastAtPhase, Nat.ModEq, Nat.mul_add_mod_self_right]

theorem lastAtPhase_le (h : φ ≤ m) : lastAtPhase p φ m ≤ m := by
  have hle := Nat.div_mul_le_self (m - φ) p
  rw [lastAtPhase, max_eq_left h]
  omega

theorem lt_lastAtPhase_add (hp : 0 < p) : m < lastAtPhase p φ m + p := by
  have hlt := Nat.lt_div_mul_add (a := max m φ - φ) hp
  have hmax := le_max_left m φ
  rw [lastAtPhase]
  omega

/-- **A moment is found again** from its phase, during its period. -/
theorem lastAtPhase_mod (hc : c ≤ m) (hm : m < c + p) : lastAtPhase p (c % p) m = c := by
  have hp : 0 < p := by omega
  have hphase : c % p ≤ m := (Nat.mod_le c p).trans hc
  have hle := lastAtPhase_le (p := p) hphase
  have hlt := lt_lastAtPhase_add (φ := c % p) (m := m) hp
  have hmod : lastAtPhase p (c % p) m ≡ c [MOD p] :=
    (lastAtPhase_modEq p (c % p) m).trans (Nat.mod_modEq c p)
  -- two moments of one phase that are less than a period apart
  exact hmod.eq_of_abs_lt (by rw [abs_lt]; omega)

/-- A period that has no factor in common with `m` goes through all phases modulo `m`. -/
theorem exists_add_mul_modEq {m : ℕ} (hm : 0 < m) (hp : Nat.Coprime p m) (c d : ℕ) :
    ∃ j < m, c + j * p ≡ d [MOD m] := by
  -- the way from `c` to `d`, as a number of periods
  obtain ⟨j, hj, hway⟩ := Nat.exists_mul_mod_eq_of_coprime (d + (m - 1) * c) hp hm.ne'
  have hway' : j * p ≡ d + (m - 1) * c [MOD m] := by rwa [Nat.mul_comm] at hway
  have hround : c + (d + (m - 1) * c) = d + m * c := by
    obtain ⟨n, rfl⟩ : ∃ n, m = n + 1 := ⟨m - 1, by omega⟩
    rw [Nat.add_sub_cancel]
    ring
  refine ⟨j, hj, ?_⟩
  calc c + j * p ≡ c + (d + (m - 1) * c) [MOD m] := hway'.add_left c
    _ = d + m * c := hround
    _ ≡ d [MOD m] := by rw [Nat.ModEq, Nat.add_mul_mod_self_left]

/-! ## A timer -/

/-- A timer may fire if it has not done so less than a period ago. -/
def Due (p : ℕ) (last : Option ℕ) (now : ℕ) : Prop := ∀ l ∈ last, l + p ≤ now

instance (p : ℕ) (last : Option ℕ) (now : ℕ) : Decidable (Due p last now) :=
  inferInstanceAs (Decidable (∀ l ∈ last, l + p ≤ now))

/-- When a timer has last fired before the moment `c + k`, if it is asked at every moment from `c`
on. -/
def lastFiring (p c : ℕ) : ℕ → Option ℕ
  | 0 => none
  | k + 1 => if Due p (lastFiring p c k) (c + k) then some (c + k) else lastFiring p c k

/-- The next firing after the last multiple of the period. -/
theorem due_succ_iff (hp : 0 < p) (c k : ℕ) :
    Due p (some (c + k / p * p)) (c + (k + 1)) ↔ p ∣ k + 1 := by
  have hlt : k < k / p * p + p := Nat.lt_div_mul_add hp
  have hdue : Due p (some (c + k / p * p)) (c + (k + 1)) ↔ k / p * p + p ≤ k + 1 := by
    simp only [Due, Option.mem_some_iff, forall_eq']
    omega
  rw [hdue]
  constructor
  · intro hle
    have heq : k + 1 = (k / p + 1) * p := by
      rw [Nat.add_mul, one_mul]
      omega
    exact heq ▸ Nat.dvd_mul_left p _
  · intro hdvd
    have heq : (k / p + 1) * p = k + 1 := by
      rw [← Nat.succ_div_of_dvd hdvd, Nat.div_mul_cancel hdvd]
    rw [Nat.add_mul, one_mul] at heq
    omega

/-- It has last fired at the last multiple of the period after `c`. -/
theorem lastFiring_succ (hp : 0 < p) (c k : ℕ) :
    lastFiring p c (k + 1) = some (c + k / p * p) := by
  induction k with
  | zero => simp [lastFiring, Due]
  | succ k ih =>
      rw [lastFiring, ih]
      split_ifs with hdue
      · rw [Nat.div_mul_cancel ((due_succ_iff hp c k).mp hdue)]
      · rw [Nat.succ_div_of_not_dvd ((due_succ_iff hp c k).not.mp hdue)]

theorem lastFiring_lt (hp : 0 < p) (c : ℕ) {k l : ℕ} (h : l ∈ lastFiring p c k) : l < c + k := by
  cases k with
  | zero => cases h
  | succ k =>
      rw [lastFiring_succ hp, Option.mem_some_iff] at h
      have hle := Nat.div_mul_le_self k p
      omega

/-- **A timer fires at one phase.** -/
theorem due_iff_dvd (hp : 0 < p) (c k : ℕ) : Due p (lastFiring p c k) (c + k) ↔ p ∣ k := by
  cases k with
  | zero => simp [lastFiring, Due]
  | succ k => rw [lastFiring_succ hp, due_succ_iff hp]

/-! ## A timer within a timer -/

/-- The least multiple of `p` that is not less than `d`. -/
def roundUp (p d : ℕ) : ℕ := p * (d ⌈/⌉ p)

theorem dvd_roundUp (p d : ℕ) : p ∣ roundUp p d := Nat.dvd_mul_right p _

theorem roundUp_le_iff {d : ℕ} (hp : 0 < p) (hdvd : p ∣ m) : roundUp p d ≤ m ↔ d ≤ m := by
  obtain ⟨j, rfl⟩ := hdvd
  unfold roundUp
  rw [Nat.mul_le_mul_left_iff hp, ceilDiv_le_iff_le_smul hp, smul_eq_mul]

theorem le_roundUp {d : ℕ} (hp : 0 < p) : d ≤ roundUp p d :=
  (roundUp_le_iff hp (dvd_roundUp p d)).mp le_rfl

/-- **A timer within a timer.** At a multiple of `p`, it is `d` moments since the last multiple of
`roundUp p d` exactly if this is the next one. -/
theorem cooled_iff {d k : ℕ} (hp : 0 < p) (hd : 0 < d) (c : ℕ) (hk : p ∣ k) :
    Due d (lastFiring (roundUp p d) c k) (c + k) ↔ roundUp p d ∣ k := by
  have hperiod : 0 < roundUp p d := hd.trans_le (le_roundUp hp)
  rw [← due_iff_dvd hperiod c k]
  cases k with
  | zero => simp [lastFiring, Due]
  | succ k =>
      -- the time since the last firing is a multiple of `p`
      have hle := Nat.div_mul_le_self k (roundUp p d)
      have hsince : p ∣ k + 1 - k / roundUp p d * roundUp p d :=
        Nat.dvd_sub hk ((dvd_roundUp p d).mul_left _)
      have hround := roundUp_le_iff (d := d) hp hsince
      rw [lastFiring_succ hperiod]
      simp only [Due, Option.mem_some_iff, forall_eq']
      omega

end Lib
