import OffchainPallets.ExampleOffchainWorker.Chain
import OffchainPallets.Runtime

/-!
# `Prices` over whole runs of the pallet

Runs from empty storage in a block other than the genesis block, where any origin dispatches any
call; runs of the chain are among them. `Recorded` says how a state comes from the labels that led
to it: `Prices` is the table (`slotTable`) that the submitted prices leave, with the slot
`price % MAX_LEN`, and the event log has one entry for each of them.

* `prices_of_run` — the contents of `Prices`, slot by slot, and of the event log.
* `prices_window_iff` — `Prices` holds the last `MAX_LEN` submitted prices as long as every
  overwrite hits the oldest of them. This is not what the pallet makes sure of: the slot comes from
  the price and not from its age (`prices_not_window`).
-/

namespace OffchainPallets.ExampleOffchainWorker

open Lib OffchainPallets.Runtime

variable {T : Config} {b₀ : T.BlockNumber} {s s' : Storage T} {tr : List (Label T)}

/-- The events of the calls that returned `Ok`, in order: the price, with the signer of a signed
call and the default account for an unsigned one. -/
def newPriceEvents (tr : List (Label T)) : List (Event T) :=
  tr.filterMap fun
    | .dispatch _ (.signed who) call (.ok ()) => some (.NewPrice call.price who)
    | .dispatch _ _ call (.ok ()) => some (.NewPrice call.price T.defaultAccountId)
    | _ => none

/-- The origin is not the one the call asks for.
Source: `submit_price`, `submit_price_unsigned`, `submit_price_unsigned_with_signed_payload` -/
def Call.WrongOrigin : Call T → RawOrigin T.AccountId → Prop
  | .submitPrice _, origin => ∀ who, origin ≠ .signed who
  | _, origin => origin ≠ .none

theorem Call.recordedFor_eq_none_iff {c : Call T} {origin : RawOrigin T.AccountId} :
    c.recordedFor origin = none ↔ c.WrongOrigin origin := by
  cases c <;> cases origin <;> simp [Call.recordedFor, Call.WrongOrigin]

/-! ## How a state comes from its history -/

/-- A state, as its history determines it. -/
structure Recorded (tr : List (Label T)) (s : Storage T) : Prop where
  notGenesis : s.blockNumber ≠ 0
  prices : s.prices = slotTable MAX_LEN slot (submittedPrices tr)
  events : s.events = newPriceEvents tr

theorem Recorded.empty (hb₀ : b₀ ≠ 0) : Recorded [] (Storage.empty b₀) := ⟨hb₀, rfl, rfl⟩

theorem Recorded.length_eq (h : Recorded tr s) :
    s.prices.length = min (submittedPrices tr).length MAX_LEN := by
  rw [h.prices, length_slotTable]

theorem Recorded.bounded (h : Recorded tr s) : s.prices.length ≤ MAX_LEN := by
  rw [h.length_eq]
  exact min_le_right _ _

theorem submittedPrices_append (tr₁ tr₂ : List (Label T)) :
    submittedPrices (tr₁ ++ tr₂) = submittedPrices tr₁ ++ submittedPrices tr₂ :=
  List.filterMap_append

theorem newPriceEvents_append (tr₁ tr₂ : List (Label T)) :
    newPriceEvents (tr₁ ++ tr₂) = newPriceEvents tr₁ ++ newPriceEvents tr₂ :=
  List.filterMap_append

/-- One step enters the price it submits, if any, in the table. -/
theorem prices_of_step {l : Label T} {ps : List UInt32} (h : s.prices = slotTable MAX_LEN slot ps)
    (hstep : step s l = some s') :
    s'.prices = slotTable MAX_LEN slot (ps ++ submittedPrices [l]) := by
  have hbounded : s.prices.length ≤ MAX_LEN := by
    rw [h, length_slotTable]
    exact min_le_right _ _
  rw [step_eq_some hbounded] at hstep
  cases l with
  | beginBlock n =>
      obtain ⟨-, rfl⟩ := hstep
      rw [← List.append_nil ps] at h
      exact h
  | dispatch block origin call result =>
      rcases hstep with ⟨-, ⟨-, rfl, rfl⟩ | ⟨who, -, rfl, rfl⟩⟩
      · rw [← List.append_nil ps] at h
        exact h
      · show insertSlot MAX_LEN slot s.prices call.price = _
        rw [h]
        exact (slotTable_snoc _ _).symm

/-- `Prices` is the table of the prices submitted in a run. -/
theorem prices_eq_slotTable_of_run (hrun : run step (Storage.empty b₀) tr = some s) :
    s.prices = slotTable MAX_LEN slot (submittedPrices tr) := by
  refine run_history (P := fun tr t => t.prices = slotTable MAX_LEN slot (submittedPrices tr))
    rfl (fun tr t l v ht hstep => ?_) hrun
  rw [submittedPrices_append]
  exact prices_of_step ht hstep

/-- **One step.** A block that begins and a call that fails add nothing; a call that succeeds adds
its price to both. -/
theorem Recorded.step {l : Label T} (h : Recorded tr s) (hstep : step s l = some s') :
    Recorded (tr ++ [l]) s' := by
  have hprices : s'.prices = slotTable MAX_LEN slot (submittedPrices (tr ++ [l])) := by
    rw [submittedPrices_append]
    exact prices_of_step h.prices hstep
  rw [step_eq_some h.bounded] at hstep
  cases l with
  | beginBlock n =>
      obtain ⟨hlt, rfl⟩ := hstep
      refine ⟨?_, hprices, ?_⟩
      · rintro rfl
        exact BitVec.not_lt_zero hlt
      · rw [newPriceEvents_append, ← h.events]
        exact (List.append_nil _).symm
  | dispatch block origin call result =>
      rcases hstep with ⟨rfl, ⟨-, rfl, rfl⟩ | ⟨who, hwho, rfl, rfl⟩⟩
      · refine ⟨h.notGenesis, hprices, ?_⟩
        have hnone : newPriceEvents [.dispatch s'.blockNumber origin call (.error .badOrigin)] =
            [] := by cases origin <;> rfl
        rw [newPriceEvents_append, hnone, List.append_nil, h.events]
      · refine ⟨h.notGenesis, hprices, ?_⟩
        rw [newPriceEvents_append, ← h.events]
        show depositEvent s.blockNumber s.events (.NewPrice call.price who) = _
        rw [depositEvent_of_ne_zero h.notGenesis]
        congr 1
        cases call <;> cases origin <;> cases hwho <;> rfl

/-- Every state of a run is as its history determines it. -/
theorem recorded_of_run (hb₀ : b₀ ≠ 0) (hrun : run step (Storage.empty b₀) tr = some s) :
    Recorded tr s :=
  run_history (.empty hb₀) (fun _ _ _ _ h hstep => h.step hstep) hrun

/-- **The contents of `Prices` and of the event log.** In every run:
a call with the wrong origin fails and changes nothing, and any other returns `Ok` and continues the
run;
`Prices` has as many prices as were submitted, up to `MAX_LEN`;
a slot holds the last price after the first `MAX_LEN` that is congruent to it, or else the price
that filled it;
the events are the submitted prices, in order, with their accounts;
and no call panics, whatever its origin.
Source: `add_price`, `average_price`, `submit_price`, `submit_price_unsigned`,
`submit_price_unsigned_with_signed_payload` -/
theorem prices_of_run (hb₀ : b₀ ≠ 0) (hrun : run step (Storage.empty b₀) tr = some s) :
    (∀ (origin : RawOrigin T.AccountId) (call : Call T), call.WrongOrigin origin →
      dispatch s origin call = .ok (.error .badOrigin, s)) ∧
    (∀ (origin : RawOrigin T.AccountId) (call : Call T), ¬ call.WrongOrigin origin →
      ∃ s', dispatch s origin call = .ok (.ok (), s') ∧
        run step (Storage.empty b₀) (tr ++ [.dispatch s.blockNumber origin call (.ok ())]) =
          some s') ∧
    s.prices.length = min (submittedPrices tr).length MAX_LEN ∧
    (∀ i < s.prices.length, s.prices[i]? =
      (((submittedPrices tr).drop MAX_LEN).filter fun p => p.toNat % MAX_LEN = i).getLast?.or
        (submittedPrices tr)[i]?) ∧
    s.events = newPriceEvents tr ∧
    (∀ (origin : RawOrigin T.AccountId) (call : Call T), ∃ result s',
      dispatch s origin call = .ok (result, s')) := by
  have h := recorded_of_run hb₀ hrun
  refine ⟨?_, ?_, h.length_eq, ?_, h.events, ?_⟩
  · intro origin call hwrong
    rw [dispatch_eq_ok h.bounded, Call.recordedFor_eq_none_iff.mpr hwrong]
    rfl
  · intro origin call hright
    obtain ⟨who, hwho⟩ :=
      Option.ne_none_iff_exists'.mp (Call.recordedFor_eq_none_iff.not.mpr hright)
    refine ⟨s.submitted call who, ?_, run_snoc_eq_some.mpr ⟨s, hrun, ?_⟩⟩
    · rw [dispatch_eq_ok h.bounded, hwho]
      rfl
    · exact (step_eq_some h.bounded).mpr ⟨rfl, Or.inr ⟨who, hwho, rfl, rfl⟩⟩
  · intro i hi
    rw [h.prices]
    exact getElem?_slotTable _ (hi.trans_le h.bounded)
  · intro origin call
    exact ⟨_, _, dispatch_eq_ok h.bounded origin call⟩

/-- A signed call, one with the wrong origin, and an unsigned one in the next block. -/
def threeCalls : List (Label noSignatures) :=
  [.dispatch 1 (.signed noSignatures.defaultAccountId) (.submitPrice 100) (.ok ()),
    .dispatch 1 .root (.submitPrice 150) (.error .badOrigin), .beginBlock 2,
    .dispatch 2 .none (.submitPriceUnsigned 2 200) (.ok ())]

/-- The storage after `threeCalls`. -/
def afterThree : Storage noSignatures where
  blockNumber := 2
  prices := [100, 200]
  nextUnsignedAt := 5
  events := [.NewPrice 100 noSignatures.defaultAccountId,
    .NewPrice 200 noSignatures.defaultAccountId]

theorem prices_of_run_threeCalls :
    run step (Storage.empty 1) threeCalls = some afterThree ∧
    afterThree.prices.length = min (submittedPrices threeCalls).length MAX_LEN ∧
    afterThree.events = newPriceEvents threeCalls ∧
    dispatch afterThree .root (.submitPrice 150) = .ok (.error .badOrigin, afterThree) := by
  have hrun : run step (Storage.empty 1) threeCalls = some afterThree := rfl
  obtain ⟨hwrong, -, hlength, -, hevents, -⟩ := prices_of_run (by decide) hrun
  exact ⟨hrun, hlength, hevents, hwrong .root (.submitPrice 150) fun _ => nofun⟩

/-! ## The table and the window of the last prices -/

/-- **When `Prices` is the window.** In every run: `Prices` holds the last `MAX_LEN` submitted
prices (as a multiset) in every state of the run exactly when every price submitted after the first
`MAX_LEN` goes to a slot that holds the price submitted `MAX_LEN` places before it.
Source: `add_price` -/
theorem prices_window_iff (hrun : run step (Storage.empty b₀) tr = some s) :
    (∀ tr₁ tr₂ t, tr = tr₁ ++ tr₂ → run step (Storage.empty b₀) tr₁ = some t →
      t.prices.Perm ((submittedPrices tr₁).rtake MAX_LEN)) ↔
    EvictsOldest MAX_LEN slot (submittedPrices tr) := by
  rw [← slotTable_perm_window_iff (by decide) slot_lt]
  constructor
  · intro h k hk
    -- the part of the run with the first `k` submissions
    obtain ⟨tr₁, tr₂, rfl, htake, -⟩ := List.filterMap_eq_append_iff.mp
      (List.take_append_drop k (submittedPrices tr)).symm
    obtain ⟨t, h₁, -⟩ := run_append_eq_some.mp hrun
    have hperm := h tr₁ tr₂ t rfl h₁
    rw [prices_eq_slotTable_of_run h₁] at hperm
    rw [← htake]
    exact hperm
  · rintro h tr₁ tr₂ t rfl h₁
    have htake := h (submittedPrices tr₁).length
      (by rw [submittedPrices_append, List.length_append]; omega)
    rw [submittedPrices_append, List.take_left] at htake
    rw [prices_eq_slotTable_of_run h₁]
    exact htake

/-- Signed submissions of prices in one block. -/
def submitAll (block : T.BlockNumber) (who : T.AccountId) (ps : List UInt32) : List (Label T) :=
  ps.map fun p => .dispatch block (.signed who) (.submitPrice p) (.ok ())

theorem submittedPrices_submitAll (block : T.BlockNumber) (who : T.AccountId) (ps : List UInt32) :
    submittedPrices (submitAll block who ps) = ps := by
  rw [submittedPrices, submitAll, List.filterMap_map]
  exact List.filterMap_some

/-- Every sequence of prices can be submitted. -/
theorem exists_run_submitAll (h : s.prices.length ≤ MAX_LEN) (who : T.AccountId)
    (ps : List UInt32) : ∃ s', run step s (submitAll s.blockNumber who ps) = some s' := by
  induction ps generalizing s with
  | nil => exact ⟨s, rfl⟩
  | cons p ps ih =>
      have hstep : step s (.dispatch s.blockNumber (.signed who) (.submitPrice p) (.ok ())) =
          some (s.submitted (.submitPrice p) who) :=
        (step_eq_some h).mpr ⟨rfl, Or.inr ⟨who, rfl, rfl, rfl⟩⟩
      obtain ⟨s', hrest⟩ := ih (s := s.submitted (.submitPrice p) who) (step_bounded h hstep)
      exact ⟨s', run_cons_eq_some.mpr ⟨_, hstep, hrest⟩⟩

/-- The prices `0, 1, …, 64`: the last one overwrites the first. -/
def countUp : List UInt32 := (List.range 65).map UInt32.ofNat

theorem prices_window_iff_countUp :
    ∃ s, run step (Storage.empty (T := noSignatures) 1)
        (submitAll 1 noSignatures.defaultAccountId countUp) = some s ∧
      s.prices.Perm (countUp.rtake MAX_LEN) := by
  obtain ⟨s, hrun⟩ := exists_run_submitAll (s := Storage.empty (T := noSignatures) 1)
    (Nat.zero_le _) noSignatures.defaultAccountId countUp
  refine ⟨s, hrun, ?_⟩
  have hwindow := (prices_window_iff hrun).mpr ?_ _ [] s
    (List.append_nil _).symm hrun
  · rwa [submittedPrices_submitAll] at hwindow
  · rw [submittedPrices_submitAll]
    intro k hk hle
    have hk65 : k < 65 := hk
    obtain rfl : k = MAX_LEN := le_antisymm (Nat.lt_succ_iff.mp hk65) hle
    rw [slotValue_of_length_le (List.length_take_le MAX_LEN countUp)]
    simp [countUp, slot, MAX_LEN]

/-- The prices `1, 0, …, 0, 2` with 63 zeros: the last one overwrites a zero, and the `1` stays. -/
def oneStays : List UInt32 := 1 :: List.replicate 63 0 ++ [2]

theorem prices_not_window :
    ∃ s, run step (Storage.empty (T := noSignatures) 1)
        (submitAll 1 noSignatures.defaultAccountId oneStays) = some s ∧
      ¬ s.prices.Perm (oneStays.rtake MAX_LEN) := by
  obtain ⟨s, hrun⟩ := exists_run_submitAll (s := Storage.empty (T := noSignatures) 1)
    (Nat.zero_le _) noSignatures.defaultAccountId oneStays
  have hlen : (1 :: List.replicate 63 (0 : UInt32)).length = MAX_LEN := by
    simp [MAX_LEN]
  refine ⟨s, hrun, ?_⟩
  rw [prices_eq_slotTable_of_run hrun, submittedPrices_submitAll, oneStays,
    perm_window_snoc_iff (by decide) (slot_lt 2) hlen.ge
      (by rw [slotTable_eq_self hlen.le, rtake_eq_self_of_length_le hlen.le]),
    slotValue_of_length_le hlen.le]
  decide

end OffchainPallets.ExampleOffchainWorker
