import OffchainPallets.ConstructRuntime
import OffchainPallets.ExampleOffchainWorker.Average

/-!
# How far the average price drifts

Free transactions are rate limited, and `Prices` has `MAX_LEN` slots, of which a submission
overwrites the one of its price. So in a run of the runtime the average moves only with the slots
that are touched, and these are no more than the submissions that were paid for and those that the
cool-down has left time for.

* `differ_only_at_touched` — what a run leaves of a full list.
* `length_submittedPrices_le` — how many submissions a run has.
* `average_drift` — how far `average_price()` moves in a run of the runtime, whatever the calls of
  the other pallets and the prices of this one are.
-/

namespace OffchainPallets.ExampleOffchainWorker

open Lib

variable {T : Config} {s s' : Storage T} {tr : List (Label T)}

/-! ## Slots -/

/-- The slots that a run overwrites. -/
def touchedSlots (tr : List (Label T)) : Finset ℕ := ((submittedPrices tr).map slot).toFinset

theorem mem_touchedSlots {i : ℕ} : i ∈ touchedSlots tr ↔ ∃ p ∈ submittedPrices tr, slot p = i := by
  rw [touchedSlots, List.mem_toFinset, List.mem_map]

theorem card_touchedSlots_le : (touchedSlots tr).card ≤ (submittedPrices tr).length := by
  rw [← List.length_map (f := slot)]
  exact List.toFinset_card_le _

theorem touchedSlots_append_left {tr₁ tr₂ : List (Label T)} {i : ℕ}
    (h : i ∉ touchedSlots (tr₁ ++ tr₂)) : i ∉ touchedSlots tr₁ ∧ i ∉ touchedSlots tr₂ := by
  rw [mem_touchedSlots, submittedPrices_append] at h
  constructor
  · intro hi
    obtain ⟨p, hp, rfl⟩ := mem_touchedSlots.mp hi
    exact h ⟨p, List.mem_append_left _ hp, rfl⟩
  · intro hi
    obtain ⟨p, hp, rfl⟩ := mem_touchedSlots.mp hi
    exact h ⟨p, List.mem_append_right _ hp, rfl⟩

/-- What one step leaves of a full list. -/
theorem prices_of_step_full {l : Label T} (hfull : s.prices.length = MAX_LEN)
    (hstep : step s l = some s') :
    s'.prices.length = MAX_LEN ∧
      ∀ i, i ∉ touchedSlots [l] → s'.prices[i]? = s.prices[i]? := by
  cases l with
  | beginBlock n =>
      obtain ⟨-, rfl⟩ := step_beginBlock_eq_some.mp hstep
      exact ⟨hfull, fun _ _ => rfl⟩
  | dispatch block origin call result =>
      obtain ⟨-, hcall⟩ := step_dispatch_eq_some.mp hstep
      rcases (step_eq_some hfull.le).mp hstep with ⟨-, ⟨-, -, rfl⟩ | ⟨who, -, rfl, -⟩⟩
      · exact ⟨hfull, fun _ _ => rfl⟩
      · have hprices := prices_of_dispatch hfull hcall
        refine ⟨by rw [hprices, List.length_set, hfull], ?_⟩
        intro i hi
        have hne : slot call.price ≠ i := fun h =>
          hi (mem_touchedSlots.mpr ⟨call.price, List.mem_cons_self, h⟩)
        rw [hprices, List.getElem?_set_ne hne]

/-- **Whole runs**: a full list stays full, and only the slots of the submitted prices are
overwritten. -/
theorem differ_only_at_touched (hfull : s.prices.length = MAX_LEN)
    (hrun : run chainStep s tr = some s') :
    s'.prices.length = MAX_LEN ∧ ∀ i, i ∉ touchedSlots tr → s'.prices[i]? = s.prices[i]? := by
  refine run_history
    (P := fun tr t => t.prices.length = MAX_LEN ∧
      ∀ i, i ∉ touchedSlots tr → t.prices[i]? = s.prices[i]?)
    ⟨hfull, fun _ _ => rfl⟩ ?_ hrun
  rintro tr t l v ⟨hlength, hsame⟩ hstep
  obtain ⟨hlength', hsame'⟩ := prices_of_step_full hlength (step_of_chainStep hstep)
  refine ⟨hlength', fun i hi => ?_⟩
  obtain ⟨hleft, hright⟩ := touchedSlots_append_left hi
  rw [hsame' i hright, hsame i hleft]

/-- How far the average moves, by the slots that are touched. -/
theorem dist_averagePrice_le (hfull : s.prices.length = MAX_LEN)
    (hrun : run chainStep s tr = some s') :
    ∃ avg avg', averagePrice s = .ok (some avg) ∧ averagePrice s' = .ok (some avg') ∧
      Nat.dist avg'.toNat avg.toNat ≤ ((touchedSlots tr).card * U32_MAX) ⌈/⌉ MAX_LEN := by
  obtain ⟨hfull', hsame⟩ := differ_only_at_touched hfull hrun
  have hne {t : Storage T} (h : t.prices.length = MAX_LEN) : t.prices ≠ [] := by
    rw [← List.length_pos_iff, h]
    exact Nat.zero_lt_succ _
  have hbound : ∀ ps : List UInt32, ∀ x ∈ ps.map UInt32.toNat, x ≤ U32_MAX := by
    intro ps x hx
    obtain ⟨p, -, rfl⟩ := List.mem_map.mp hx
    have hlt := p.toNat_lt
    unfold U32_MAX
    omega
  have hmap {t : Storage T} (h : t.prices.length = MAX_LEN) :
      (t.prices.map UInt32.toNat).length = MAX_LEN := by rw [List.length_map, h]
  obtain ⟨avg, havg, hmean⟩ := averagePrice_of_ne_nil hfull.le (hne hfull)
  obtain ⟨avg', havg', hmean'⟩ := averagePrice_of_ne_nil hfull'.le (hne hfull')
  refine ⟨avg, avg', havg, havg', ?_⟩
  have hdist : Nat.dist (cappedMean U32_MAX (s'.prices.map UInt32.toNat))
      (cappedMean U32_MAX (s.prices.map UInt32.toNat)) ≤
      ((touchedSlots tr).card * U32_MAX) ⌈/⌉ (s.prices.map UInt32.toNat).length := by
    apply dist_cappedMean_le
    · rw [hmap hfull]
      exact Nat.zero_lt_succ _
    · rw [hmap hfull', hmap hfull]
    · exact hbound _
    · exact hbound _
    · intro i hi
      rw [List.getElem?_map, List.getElem?_map, hsame i hi]
  rwa [← hmean, ← hmean', hmap hfull] at hdist

/-! ## Submissions -/

/-- The accounts that have submitted a price in a transaction of their own, in order. -/
def appliedSigned (tr : List (Label T)) : List T.AccountId :=
  tr.filterMap fun
    | .dispatch _ (.signed who) _ (.ok ()) => some who
    | _ => none

/-- A submission is signed or unsigned. -/
theorem length_submittedPrices (hs : s.prices.length ≤ MAX_LEN)
    (hrun : run chainStep s tr = some s') :
    (submittedPrices tr).length = (appliedSigned tr).length + (appliedUnsigned tr).length := by
  suffices h : s'.prices.length ≤ MAX_LEN ∧ (submittedPrices tr).length =
      (appliedSigned tr).length + (appliedUnsigned tr).length from h.2
  refine run_history
    (P := fun tr t => t.prices.length ≤ MAX_LEN ∧ (submittedPrices tr).length =
      (appliedSigned tr).length + (appliedUnsigned tr).length) ⟨hs, rfl⟩ ?_ hrun
  rintro tr t l v ⟨hbounded, hlength⟩ hstep
  have hstep' := step_of_chainStep hstep
  refine ⟨step_bounded hbounded hstep', ?_⟩
  have hone : (submittedPrices [l]).length =
      (appliedSigned [l]).length + (appliedUnsigned [l]).length := by
    cases l with
    | beginBlock n => rfl
    | dispatch block origin call result =>
        rcases (step_eq_some hbounded).mp hstep' with ⟨-, ⟨-, rfl, -⟩ | ⟨who, hwho, rfl, -⟩⟩
        · cases origin <;> rfl
        · -- no call accepts the root origin
          cases origin with
          | root => cases call <;> cases hwho
          | signed who => rfl
          | none => rfl
  simp only [submittedPrices, appliedSigned, appliedUnsigned, List.filterMap_append,
    List.length_append] at hlength hone ⊢
  omega

/-- Block numbers never go back. -/
theorem number_le_of_chainStep {l : Label T} (h : chainStep s l = some s') :
    s.blockNumber.toNat ≤ s'.blockNumber.toNat := by
  have hstep := step_of_chainStep h
  cases l with
  | beginBlock n =>
      obtain ⟨hlt, rfl⟩ := step_beginBlock_eq_some.mp hstep
      exact BitVec.le_def.mp (BitVec.le_of_lt hlt)
  | dispatch block origin call result =>
      rw [blockNumber_of_dispatch (step_dispatch_eq_some.mp hstep).2]

/-- If the last block of a run has room for a cool-down, all have. -/
theorem noOverflow_of_run (hfit : Fits T s'.blockNumber) (hrun : run chainStep s tr = some s') :
    Fits T s.blockNumber ∧ NoOverflow tr := by
  have hmono : ∀ {t u : Storage T} {tr}, run chainStep t tr = some u →
      t.blockNumber ≤ u.blockNumber := fun h =>
    BitVec.le_def.mpr (run_mono (f := fun t : Storage T => t.blockNumber.toNat)
      (fun _ _ _ => number_le_of_chainStep) h)
  refine ⟨hfit.of_le (hmono hrun), ?_⟩
  intro n hn
  obtain ⟨tr₁, tr₂, rfl⟩ := List.append_of_mem hn
  obtain ⟨t, -, hrest⟩ := run_append_eq_some.mp hrun
  obtain ⟨u, hstep, hrest⟩ := run_cons_eq_some.mp hrest
  obtain ⟨-, rfl⟩ := step_beginBlock_eq_some.mp (step_of_chainStep hstep)
  exact hfit.of_le (hmono hrest)

/-- **How many submissions a run has**: those that are paid for, and one free submission for every
cool-down. -/
theorem length_submittedPrices_le (hpos : 0 < T.unsignedInterval)
    (hs : s.prices.length ≤ MAX_LEN) (hfit : Fits T s'.blockNumber)
    (hrun : run chainStep s tr = some s') :
    (submittedPrices tr).length ≤ (appliedSigned tr).length +
      ((s'.blockNumber.toNat - s.blockNumber.toNat) / T.unsignedInterval.toNat + 1) := by
  obtain ⟨hstart, hroom⟩ := noOverflow_of_run hfit hrun
  obtain ⟨-, hgate⟩ := chain_sim ⟨hs, hstart⟩ hroom hrun
  have hfree := Gate.length_admitted_le (toNat_pos hpos) hgate
  rw [admitted_map_gateLabel, List.length_map] at hfree
  rw [length_submittedPrices hs hrun]
  exact Nat.add_le_add_left hfree _

end OffchainPallets.ExampleOffchainWorker

namespace OffchainPallets.ConstructRuntime

open Lib

variable {R : Config}

/-- **How far the average drifts.** From any state of the runtime in which `MAX_LEN` prices are
stored, in any run: only the slots of the submitted prices are overwritten; `average_price()` moves
by at most `u32::MAX` divided by `MAX_LEN`, for each of these slots; and there are no more of them
than submissions that somebody has paid for, and one for every `UnsignedInterval` blocks. What the
other pallets do in the run makes no difference.
Source: `add_price`, `average_price`, `validate_transaction_parameters`, `construct_runtime!` -/
theorem average_drift {s s' : Storage R} {tr : List (Label R)} (hpos : 0 < R.unsignedInterval)
    (hfit : ExampleOffchainWorker.Fits R.example s'.blockNumber)
    (hfull : s.prices.length = ExampleOffchainWorker.MAX_LEN)
    (hrun : run chainStep s tr = some s') :
    ∃ (touched : Finset ℕ) (avg avg' : UInt32),
      touched = ExampleOffchainWorker.touchedSlots (tr.filterMap Label.ocwExample) ∧
      (∀ i, i ∉ touched → s'.prices[i]? = s.prices[i]?) ∧
      ExampleOffchainWorker.averagePrice s.ocwExample = .ok (some avg) ∧
      ExampleOffchainWorker.averagePrice s'.ocwExample = .ok (some avg') ∧
      Nat.dist avg'.toNat avg.toNat ≤
        (touched.card * ExampleOffchainWorker.U32_MAX) ⌈/⌉ ExampleOffchainWorker.MAX_LEN ∧
      touched.card ≤
        (ExampleOffchainWorker.appliedSigned (tr.filterMap Label.ocwExample)).length +
          ((s'.blockNumber.toNat - s.blockNumber.toNat) / R.unsignedInterval.toNat + 1) := by
  have hexample : run ExampleOffchainWorker.chainStep s.ocwExample
      (tr.filterMap Label.ocwExample) = some s'.ocwExample :=
    runtime_composed.view_of_run hrun .OcwExample
  have hfull' : s.ocwExample.prices.length = ExampleOffchainWorker.MAX_LEN := hfull
  obtain ⟨avg, avg', havg, havg', hdist⟩ :=
    ExampleOffchainWorker.dist_averagePrice_le hfull' hexample
  refine ⟨_, avg, avg', rfl, ?_, havg, havg', hdist, ?_⟩
  · exact (ExampleOffchainWorker.differ_only_at_touched hfull' hexample).2
  · apply ExampleOffchainWorker.card_touchedSlots_le.trans
    exact ExampleOffchainWorker.length_submittedPrices_le hpos hfull'.le hfit hexample

/-- `MAX_LEN` prices of one dollar, in block 1. -/
def oneDollar : Storage noSignatures :=
  { Storage.empty 1 with prices := List.replicate ExampleOffchainWorker.MAX_LEN 100 }

/-- Two free prices, in the blocks 1 and 4, and a number in between. -/
def twoFreePrices : List (Label noSignatures) :=
  [.dispatch 1 .none (.OcwExample (.submitPriceUnsigned 1 4294967295)) (.ok ()),
    .dispatch 1 .none (.OcwDemo (.submitNumberUnsigned 1)) (.ok ()), .beginBlock 4,
    .dispatch 4 .none (.OcwExample (.submitPriceUnsigned 4 4294967294)) (.ok ())]

theorem average_drift_twoFreePrices :
    ∃ (s' : Storage noSignatures) (avg avg' : UInt32),
      run chainStep oneDollar twoFreePrices = some s' ∧
      ExampleOffchainWorker.averagePrice oneDollar.ocwExample = .ok (some avg) ∧
      ExampleOffchainWorker.averagePrice s'.ocwExample = .ok (some avg') ∧
      Nat.dist avg'.toNat avg.toNat ≤ 134217728 := by
  obtain ⟨s', hrun, hnumber⟩ : ∃ s', run chainStep oneDollar twoFreePrices = some s' ∧
      s'.blockNumber = (4 : BitVec 32) := ⟨_, rfl, rfl⟩
  have hfit : ExampleOffchainWorker.Fits noSignatures.example s'.blockNumber := by
    rw [hnumber]
    show _ < _
    decide
  obtain ⟨touched, avg, avg', rfl, -, havg, havg', hdist, -⟩ :=
    average_drift (by decide) hfit List.length_replicate hrun
  exact ⟨s', avg, avg', hrun, havg, havg', hdist⟩

end OffchainPallets.ConstructRuntime
