import OffchainPallets.ExampleOffchainWorker.Prices
import OffchainPallets.Lib.Means

/-!
# The average of the stored prices

`average_price` in every state of a run from empty storage. The prices are added up as `u32`, with
saturation, so what is divided by their number is their exact sum, capped at `u32::MAX`
(`averagePrice_of_ne_nil`).

* `average_price_iff` — the result is the mean of the stored prices as long as the cap makes no
  difference. Two prices are enough for it to make one (`average_price_below_all`).
* `average_price_influence` — how far one submission moves it, once `MAX_LEN` prices are stored.
-/

namespace OffchainPallets.ExampleOffchainWorker

open Lib OffchainPallets.Runtime

variable {T : Config} {b₀ : T.BlockNumber} {s : Storage T} {tr : List (Label T)}

/-- `u32::MAX`. -/
def U32_MAX : ℕ := 4294967295

theorem toNat_saturatingAdd (a b : UInt32) :
    (saturatingAdd a b).toNat = satAdd U32_MAX a.toNat b.toNat := by
  unfold saturatingAdd satAdd U32_MAX
  split_ifs with h
  · rw [UInt32.toNat_add, Nat.mod_eq_of_lt h]
    omega
  · have hmax : (4294967295 : UInt32).toNat = 4294967295 := rfl
    omega

theorem toNat_foldl_saturatingAdd (ps : List UInt32) (a : UInt32) :
    (ps.foldl saturatingAdd a).toNat = (ps.map UInt32.toNat).foldl (satAdd U32_MAX) a.toNat := by
  induction ps generalizing a with
  | nil => rfl
  | cons p ps ih => rw [List.foldl_cons, ih, toNat_saturatingAdd, List.map_cons, List.foldl_cons]

/-- What `average_price` returns for some stored prices: the mean formed with the capped sum. -/
theorem averagePrice_of_ne_nil (h : s.prices.length ≤ MAX_LEN) (hne : s.prices ≠ []) :
    ∃ avg, averagePrice s = .ok (some avg) ∧
      avg.toNat = cappedMean U32_MAX (s.prices.map UInt32.toNat) := by
  have hlen : (UInt32.ofNat s.prices.length).toNat = s.prices.length :=
    UInt32.toNat_ofNat_of_lt' (h.trans_lt (by decide))
  rw [averagePrice_eq_ok h, average, if_neg (by simpa using hne)]
  refine ⟨_, rfl, ?_⟩
  rw [UInt32.toNat_div, toNat_foldl_saturatingAdd, hlen, cappedMean, List.length_map]
  congr 1
  exact (foldl_satAdd (Nat.zero_le _) _).trans (by rw [Nat.zero_add])

/-- Prices are stored once one was submitted. -/
theorem prices_eq_nil_iff (hrun : run step (Storage.empty b₀) tr = some s) :
    s.prices = [] ↔ submittedPrices tr = [] := by
  have hcap : 0 < MAX_LEN := by decide
  rw [prices_eq_slotTable_of_run hrun, ← List.length_eq_zero_iff, ← List.length_eq_zero_iff,
    length_slotTable]
  omega

theorem length_prices_le_of_run (hrun : run step (Storage.empty b₀) tr = some s) :
    s.prices.length ≤ MAX_LEN := by
  rw [prices_eq_slotTable_of_run hrun, length_slotTable]
  exact min_le_right _ _

/-- The mean lies between the bounds of the prices. -/
theorem between_of_toNat_eq_mean {ps : List UInt32} {avg : UInt32} (hne : ps ≠ [])
    (h : avg.toNat = mean (ps.map UInt32.toNat)) :
    (∀ a, (∀ p ∈ ps, a ≤ p) → a ≤ avg) ∧ (∀ b, (∀ p ∈ ps, p ≤ b) → avg ≤ b) := by
  constructor
  · intro a ha
    rw [UInt32.le_iff_toNat_le, h]
    apply le_mean (by simpa using hne)
    intro x hx
    obtain ⟨p, hp, rfl⟩ := List.mem_map.mp hx
    exact UInt32.le_iff_toNat_le.mp (ha p hp)
  · intro b hb
    rw [UInt32.le_iff_toNat_le, h]
    apply mean_le
    intro x hx
    obtain ⟨p, hp, rfl⟩ := List.mem_map.mp hx
    exact UInt32.le_iff_toNat_le.mp (hb p hp)

/-- `average_price()` is the mean of the stored prices: `None` as long as no price was submitted,
and then their exact sum divided by their number and rounded down, which lies between the bounds of
the stored prices. -/
def AverageIsMean (tr : List (Label T)) (s : Storage T) : Prop :=
  (averagePrice s = .ok none ↔ submittedPrices tr = []) ∧
  (submittedPrices tr ≠ [] → ∃ avg, averagePrice s = .ok (some avg) ∧
    avg.toNat = (s.prices.map UInt32.toNat).sum / s.prices.length ∧
    (∀ a, (∀ p ∈ s.prices, a ≤ p) → a ≤ avg) ∧ (∀ b, (∀ p ∈ s.prices, p ≤ b) → avg ≤ b))

/-- There are no prices, or their sum is below the next multiple of their number after
`u32::MAX`. -/
def SumFits (ps : List UInt32) : Prop :=
  ps = [] ∨ (ps.map UInt32.toNat).sum < ps.length * (U32_MAX / ps.length + 1)

instance (ps : List UInt32) : Decidable (SumFits ps) := inferInstanceAs (Decidable (_ ∨ _))

/-- **When `average_price` is the mean.** In every state that a run reaches: it is exactly when the
sum of the stored prices fits. In every other state too it is at most the mean.
Source: `average_price` -/
theorem average_price_iff (hrun : run step (Storage.empty b₀) tr = some s) :
    (AverageIsMean tr s ↔ SumFits s.prices) ∧
    (∀ avg, averagePrice s = .ok (some avg) →
      avg.toNat ≤ (s.prices.map UInt32.toNat).sum / s.prices.length) := by
  have hbounded := length_prices_le_of_run hrun
  by_cases hne : s.prices = []
  · -- no price is stored, and none was submitted
    have hnone : averagePrice s = .ok none := by
      rw [averagePrice_eq_ok hbounded, hne]
      rfl
    have hnil := (prices_eq_nil_iff hrun).mp hne
    constructor
    · exact ⟨fun _ => Or.inl hne, fun _ => ⟨by simp [hnone, hnil], by simp [hnil]⟩⟩
    · simp [hnone]
  · have hsub : submittedPrices tr ≠ [] := (prices_eq_nil_iff hrun).not.mp hne
    have hmean : mean (s.prices.map UInt32.toNat) =
        (s.prices.map UInt32.toNat).sum / s.prices.length := by
      rw [mean, List.length_map]
    obtain ⟨avg, havg, hcapped⟩ := averagePrice_of_ne_nil hbounded hne
    have hfits : SumFits s.prices ↔ avg.toNat = mean (s.prices.map UInt32.toNat) := by
      rw [hcapped, cappedMean_eq_mean_iff (by simpa using hne), List.length_map, SumFits]
      simp [hne]
    constructor
    · rw [hfits]
      constructor
      · rintro ⟨-, h⟩
        obtain ⟨avg', havg', hsum, -, -⟩ := h hsub
        obtain rfl : avg = avg' := by simpa [havg] using havg'
        rw [hmean, hsum]
      · intro h
        refine ⟨by simp [havg, hsub], fun _ => ⟨avg, havg, ?_, between_of_toNat_eq_mean hne h⟩⟩
        rw [h, hmean]
    · intro avg' havg'
      obtain rfl : avg = avg' := by simpa [havg] using havg'
      rw [hcapped, ← hmean]
      exact cappedMean_le_mean _ _

/-- Prices of 155.23 and 65.92 dollars. -/
theorem average_price_iff_twoPrices :
    ∃ s, run step (Storage.empty (T := noSignatures) 1)
        (submitAll 1 noSignatures.defaultAccountId [15523, 6592]) = some s ∧
      averagePrice s = .ok (some 11057) ∧
      AverageIsMean (submitAll 1 noSignatures.defaultAccountId [15523, 6592]) s := by
  obtain ⟨s, hrun⟩ : ∃ s, run step (Storage.empty (T := noSignatures) 1)
      (submitAll 1 noSignatures.defaultAccountId [15523, 6592]) = some s := ⟨_, rfl⟩
  have hprices := prices_eq_slotTable_of_run hrun
  have hfits : SumFits s.prices := by
    rw [hprices]
    decide
  refine ⟨s, hrun, ?_, (average_price_iff hrun).1.mpr hfits⟩
  rw [averagePrice_eq_ok (by rw [hprices]; decide), hprices]
  rfl

/-- The average of two prices of `u32::MAX` is half of it, below both. -/
theorem average_price_below_all :
    ∃ s, run step (Storage.empty (T := noSignatures) 1)
        (submitAll 1 noSignatures.defaultAccountId [4294967295, 4294967295]) = some s ∧
      s.prices = [4294967295, 4294967295] ∧ averagePrice s = .ok (some 2147483647) ∧
      ¬ AverageIsMean (submitAll 1 noSignatures.defaultAccountId [4294967295, 4294967295]) s := by
  refine ⟨_, rfl, rfl, rfl, ?_⟩
  rintro ⟨-, h⟩
  obtain ⟨avg, havg, hmean, -, -⟩ := h (by decide)
  obtain rfl : 2147483647 = avg := Option.some.inj (Except.ok.inj havg)
  exact absurd hmean (by decide)

/-! ## The influence of one submission -/

/-- A successful call on a full list overwrites the slot of its price. -/
theorem prices_of_dispatch {s' : Storage T} (hfull : s.prices.length = MAX_LEN)
    {origin : RawOrigin T.AccountId} {call : Call T}
    (hcall : dispatch s origin call = .ok (.ok (), s')) :
    s'.prices = s.prices.set (slot call.price) call.price := by
  rw [dispatch_eq_ok hfull.le, Except.ok.injEq] at hcall
  rcases hwho : call.recordedFor origin with _ | who
  · simp [hwho] at hcall
  · rw [hwho, Option.elim_some, Prod.mk.injEq] at hcall
    obtain ⟨-, rfl⟩ := hcall
    exact insertSlot_of_full hfull.ge call.price

/-- **The influence of one submission is bounded.** When `MAX_LEN` prices are stored, reachable or
not, and any of the three calls succeeds: it overwrites the price in the slot of its own price and
no other, and `average_price()` changes by at most the difference of these two prices divided by
`MAX_LEN`, rounded up. The sum may be at its cap before, after or both.
Source: `add_price`, `average_price` -/
theorem average_price_influence {s' : Storage T} (hfull : s.prices.length = MAX_LEN)
    {origin : RawOrigin T.AccountId} {call : Call T}
    (hcall : dispatch s origin call = .ok (.ok (), s')) :
    ∃ q avg avg', s.prices[slot call.price]? = some q ∧
      s'.prices[slot call.price]? = some call.price ∧
      (∀ i, i ≠ slot call.price → s'.prices[i]? = s.prices[i]?) ∧
      averagePrice s = .ok (some avg) ∧ averagePrice s' = .ok (some avg') ∧
      Nat.dist avg'.toNat avg.toNat ≤ Nat.dist call.price.toNat q.toNat ⌈/⌉ MAX_LEN := by
  have hprices := prices_of_dispatch hfull hcall
  have hslot : slot call.price < s.prices.length := hfull ▸ slot_lt call.price
  have hfull' : s'.prices.length = MAX_LEN := by rw [hprices, List.length_set, hfull]
  have hne {t : Storage T} (h : t.prices.length = MAX_LEN) : t.prices ≠ [] := by
    rw [← List.length_pos_iff, h]
    decide
  obtain ⟨avg, havg, hmean⟩ := averagePrice_of_ne_nil hfull.le (hne hfull)
  obtain ⟨avg', havg', hmean'⟩ := averagePrice_of_ne_nil hfull'.le (hne hfull')
  have hmap : (s.prices.map UInt32.toNat).length = MAX_LEN := by rw [List.length_map, hfull]
  have hslot' : slot call.price < (s.prices.map UInt32.toNat).length := by
    rwa [List.length_map]
  have hinfluence := dist_cappedMean_set_le U32_MAX hslot' call.price.toNat
  rw [← List.map_set, ← hprices, ← hmean, ← hmean', hmap, List.getElem_map] at hinfluence
  refine ⟨s.prices[slot call.price], avg, avg', List.getElem?_eq_getElem hslot, ?_, ?_, havg, havg',
    hinfluence⟩
  · rw [hprices, List.getElem?_set_self hslot]
  · intro i hi
    rw [hprices, List.getElem?_set_ne (Ne.symm hi)]

/-- `MAX_LEN` prices of `u32::MAX`, the sum of which is far beyond the cap. -/
def allMax : Storage noSignatures :=
  { Storage.empty 1 with prices := List.replicate MAX_LEN 4294967295 }

/-- A price of zero overwrites one of them; the sum is at its cap before and after. -/
theorem average_price_influence_allMax :
    ∃ s' avg avg', dispatch allMax (.signed noSignatures.defaultAccountId) (.submitPrice 0) =
        .ok (.ok (), s') ∧
      averagePrice allMax = .ok (some avg) ∧ averagePrice s' = .ok (some avg') ∧
      Nat.dist avg'.toNat avg.toNat ≤ 67108864 := by
  have hfull : allMax.prices.length = MAX_LEN := List.length_replicate
  have hcall := dispatch_eq_ok hfull.le (.signed noSignatures.defaultAccountId) (.submitPrice 0)
  obtain ⟨q, avg, avg', hq, -, -, havg, havg', hinfluence⟩ := average_price_influence hfull hcall
  obtain rfl : 4294967295 = q := Option.some.inj hq
  exact ⟨_, avg, avg', hcall, havg, havg', hinfluence⟩

end OffchainPallets.ExampleOffchainWorker
