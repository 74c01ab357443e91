import OffchainPallets.ExampleOffchainWorker.AllAccounts
import OffchainPallets.ExampleOffchainWorker.Average
import OffchainPallets.ExampleOffchainWorker.UnsignedCalls

/-!
# The competition for the next submission

All unsigned calls that are valid in one state provide the same tag, so a pool (`Lib.TagPool`) holds
one of them. The priority is `UnsignedPriority` and the distance of the price from the average; as
long as their sum fits a `u64`, it orders the calls by this distance (`toNat_priority`).

* `pool_winner` — whatever the order in which they arrive, the call that stays has a price as far
  from the average as any.
-/

namespace OffchainPallets.ExampleOffchainWorker

open Lib OffchainPallets.Runtime

variable {T : Config} {b₀ : T.BlockNumber} {s : Storage T} {tr : List (Label T)}

/-- The distance of a price from the average as a number, zero without an average. -/
def exactDistance (avg : Option UInt32) (price : UInt32) : ℕ :=
  avg.elim 0 fun a => Nat.dist price.toNat a.toNat

/-- The subtraction in the validator does not underflow. -/
theorem toNat_distance (avg : Option UInt32) (price : UInt32) :
    (distance avg price).toNat = exactDistance avg price := by
  cases avg with
  | none => rfl
  | some a =>
      simp only [distance, exactDistance, Option.map_some, Option.getD_some, Option.elim_some]
      split_ifs with h
      · have hle : price.toNat ≤ a.toNat := (UInt32.lt_iff_toNat_lt.mp h).le
        rw [UInt32.toNat_sub_of_le _ _ (UInt32.le_iff_toNat_le.mpr hle),
          Nat.dist_eq_sub_of_le hle]
      · have hle : a.toNat ≤ price.toNat := by
          rw [UInt32.lt_iff_toNat_lt] at h
          omega
        rw [UInt32.toNat_sub_of_le _ _ (UInt32.le_iff_toNat_le.mpr hle),
          Nat.dist_eq_sub_of_le_right hle]

/-- The priority does not saturate. -/
theorem toNat_priority (hfit : T.unsignedPriority.toNat + U32_MAX < 2 ^ 64) (s : Storage T)
    (price : UInt32) :
    (validTransaction s price).priority.toNat =
      T.unsignedPriority.toNat + exactDistance (average s.prices) price := by
  have hdistance := toNat_distance (average s.prices) price
  have hlt : (distance (average s.prices) price).toNat < 2 ^ 32 := UInt32.toNat_lt _
  have hsum : T.unsignedPriority.toNat + (distance (average s.prices) price).toUInt64.toNat <
      2 ^ 64 := by
    rw [UInt32.toNat_toUInt64]
    unfold U32_MAX at hfit
    omega
  rw [← hdistance]
  show (saturatingAdd64 _ _).toNat = _
  rw [saturatingAdd64, if_pos hsum, UInt64.toNat_add, Nat.mod_eq_of_lt hsum, UInt32.toNat_toUInt64]

/-- What the pool finds of a valid call. -/
theorem validityIn_of_valid (hfit : T.unsignedPriority.toNat + U32_MAX < 2 ^ 64)
    (hbounded : s.prices.length ≤ MAX_LEN) {call : Call T}
    (hvalid : ∃ v, validateUnsigned s call = .ok (.ok v)) :
    validityIn s call =
      some (T.unsignedPriority.toNat + exactDistance (average s.prices) call.price,
        [providedTag s.nextUnsignedAt]) := by
  obtain ⟨v, hv⟩ := hvalid
  obtain ⟨-, -, -, -, rfl⟩ := (validateUnsigned_eq_valid_iff hbounded).mp hv
  rw [validityIn_eq_some hv, toNat_priority hfit]
  rfl

/-- **The winner does not depend on the order of arrival.** Let some unsigned calls be valid in a
state that a run from empty storage reaches, and let `d` be the greatest distance of their prices
from `average_price()`. In whatever order they are submitted to an empty pool, exactly one of them
remains, and its price is at distance `d`. Without an average it is the first.
Source: `validate_transaction_parameters`, `validate_unsigned` -/
theorem pool_winner (hfit : T.unsignedPriority.toNat + U32_MAX < 2 ^ 64)
    (hrun : run step (Storage.empty b₀) tr = some s) {calls : List (Call T)} (hsome : calls ≠ [])
    (hvalid : ∀ call ∈ calls, ∃ v, validateUnsigned s call = .ok (.ok v)) :
    ∃ avg d, averagePrice s = .ok avg ∧
      (∀ call ∈ calls, exactDistance avg call.price ≤ d) ∧
      ∀ order : List (Call T), order.Perm calls → ∃ winner ∈ calls,
        TagPool.submitAll (validityIn s) [] order =
          [⟨winner, T.unsignedPriority.toNat + d, [providedTag s.nextUnsignedAt]⟩] ∧
        exactDistance avg winner.price = d ∧ (avg = none → order.head? = some winner) := by
  have hbounded := length_prices_le_of_run hrun
  set avg := average s.prices with havg
  set rank : Call T → ℕ := fun call =>
    T.unsignedPriority.toNat + exactDistance avg call.price with hrank
  -- in every order, the first call of the greatest priority wins
  have hwinner : ∀ order : List (Call T), order.Perm calls → ∃ winner ∈ calls,
      TagPool.submitAll (validityIn s) [] order =
        [⟨winner, rank winner, [providedTag s.nextUnsignedAt]⟩] ∧
      (∀ call ∈ calls, rank call ≤ rank winner) ∧
      ((∀ c ∈ order, ∀ c' ∈ order, rank c = rank c') → order.head? = some winner) := by
    intro order hperm
    obtain ⟨winner, hmem, hpool, hmax, hfirst⟩ := TagPool.exists_winner
      (List.cons_ne_nil (providedTag s.nextUnsignedAt) [])
      (fun hnil => hsome (List.perm_nil.mp (hnil ▸ hperm.symm)))
      fun call hcall => validityIn_of_valid hfit hbounded (hvalid call (hperm.mem_iff.mp hcall))
    refine ⟨winner, hperm.mem_iff.mp hmem, hpool, ?_, hfirst⟩
    intro call hcall
    exact hmax call (hperm.mem_iff.mpr hcall)
  obtain ⟨best, hbest, -, hgreatest, -⟩ := hwinner calls (List.Perm.refl calls)
  refine ⟨avg, exactDistance avg best.price, averagePrice_eq_ok hbounded, ?_, ?_⟩
  · intro call hcall
    exact Nat.le_of_add_le_add_left (hgreatest call hcall)
  · intro order hperm
    obtain ⟨winner, hmem, hpool, hmax, hfirst⟩ := hwinner order hperm
    have hequal : rank winner = rank best :=
      le_antisymm (hgreatest winner hmem) (hmax best hbest)
    rw [hequal] at hpool
    refine ⟨winner, hmem, hpool, Nat.add_left_cancel hequal, ?_⟩
    intro hnone
    apply hfirst
    intro c _ c' _
    simp [hrank, hnone, exactDistance]

/-- Three calls for block 4, at the average of 100, below it and far above it. -/
def threeBids : List (Call noSignatures) :=
  [.submitPriceUnsigned 4 100, .submitPriceUnsigned 4 60, .submitPriceUnsigned 4 300]

/-- The winner of the three, when the last of them comes first. -/
theorem pool_winner_threeBids :
    ∃ d, (∀ call ∈ threeBids, exactDistance (some 100) call.price ≤ d) ∧
      ∃ winner ∈ threeBids, TagPool.submitAll (validityIn afterFirst) [] threeBids.reverse =
          [⟨winner, 3 + d, [providedTag afterFirst.nextUnsignedAt]⟩] ∧
        exactDistance (some 100) winner.price = d := by
  have hrun : run step (Storage.empty 1) firstSession = some afterFirst := rfl
  have hvalid : ∀ call ∈ threeBids, ∃ v, validateUnsigned afterFirst call = .ok (.ok v) := by
    intro call hcall
    simp only [threeBids, List.mem_cons, List.not_mem_nil, or_false] at hcall
    rcases hcall with rfl | rfl | rfl <;> exact ⟨_, rfl⟩
  obtain ⟨avg, d, havg, hmax, hwinner⟩ :=
    pool_winner (by decide) hrun (List.cons_ne_nil _ _) hvalid
  obtain rfl : some 100 = avg := Except.ok.inj havg
  obtain ⟨winner, hmem, hpool, hdistance, -⟩ := hwinner _ (List.reverse_perm threeBids)
  exact ⟨d, hmax, winner, hmem, hpool, hdistance⟩

end OffchainPallets.ExampleOffchainWorker
