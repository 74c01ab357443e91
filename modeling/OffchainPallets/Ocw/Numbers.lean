import OffchainPallets.Lib.Runs
import OffchainPallets.Runtime

/-!
# `Numbers` over whole runs of the pallet

Runs of `pallet-ocw` from empty storage in a block other than the genesis block: blocks with
increasing numbers begin, and any origin attempts any call. The chain does not dispatch unsigned
calls it finds invalid, so its runs are among these.

`numbers_of_run`: `Numbers` is the bounded log (`pushBounded`) of the numbers that were submitted,
so it holds the last `NUM_VEC_LEN` of them in order, and the event log holds all of them.
-/

namespace OffchainPallets.Ocw

open Lib OffchainPallets.Runtime

variable {T : Config} {b₀ : T.BlockNumber} {s s' : Storage T}

/-- An observed step. -/
inductive Label (T : Config) where
  /-- A block with this number begins. -/
  | beginBlock (n : T.BlockNumber)
  /-- A call is attempted and returns a result. -/
  | dispatch (origin : RawOrigin T.AccountId) (call : Call T) (result : DispatchResult)

/-- One step of the pallet. -/
def step (s : Storage T) : Label T → Option (Storage T)
  | .beginBlock n => if s.blockNumber < n then some { s with blockNumber := n } else none
  | .dispatch origin call result =>
      if (dispatch s origin call).1 = result then some (dispatch s origin call).2 else none

/-- Everything a step can do. -/
theorem step_eq_some {l : Label T} :
    step s l = some s' ↔
      match l with
      | .beginBlock n => s.blockNumber < n ∧ s' = { s with blockNumber := n }
      | .dispatch origin call result =>
          (call.recordedFor origin = none ∧ result = .error .badOrigin ∧ s' = s) ∨
            ∃ who, call.recordedFor origin = some who ∧ result = .ok () ∧
              s' = s.submitted call.number who := by
  cases l with
  | beginBlock n =>
      dsimp only
      rw [step, Option.ite_none_right_eq_some, Option.some.injEq, eq_comm (a := s')]
  | dispatch origin call result =>
      dsimp only
      rw [step, Option.ite_none_right_eq_some, dispatch_eq]
      generalize call.recordedFor origin = rec
      cases rec with
      | none => simp [eq_comm]
      | some who => simp [eq_comm]

/-! ## The history of a run -/

variable {tr : List (Label T)}

/-- The numbers of the attempts that returned `Ok`, in order. -/
def submittedNumbers (tr : List (Label T)) : List UInt64 :=
  tr.filterMap fun
    | .dispatch _ call (.ok ()) => some call.number
    | _ => none

/-- The events of the attempts that returned `Ok`, in order: the number, with the signer of a signed
call. -/
def newNumberEvents (tr : List (Label T)) : List (Event T) :=
  tr.filterMap fun
    | .dispatch (.signed who) call (.ok ()) => some (.NewNumber (some who) call.number)
    | .dispatch _ call (.ok ()) => some (.NewNumber none call.number)
    | _ => none

/-- The origin is not the one the call asks for.
Source: `submit_number_signed`, `submit_number_unsigned`,
`submit_number_unsigned_with_signed_payload` -/
def Call.WrongOrigin : Call T → RawOrigin T.AccountId → Prop
  | .submitNumberSigned _, origin => ∀ who, origin ≠ .signed who
  | _, origin => origin ≠ .none

theorem Call.recordedFor_eq_none_iff {c : Call T} {origin : RawOrigin T.AccountId} :
    c.recordedFor origin = none ↔ c.WrongOrigin origin := by
  cases c <;> cases origin <;> simp [Call.recordedFor, Call.WrongOrigin]

/-- A state, as its history determines it. -/
structure Recorded (tr : List (Label T)) (s : Storage T) : Prop where
  notGenesis : s.blockNumber ≠ 0
  numbers : s.numbers = (submittedNumbers tr).foldl (pushBounded NUM_VEC_LEN) []
  events : s.events = newNumberEvents tr

theorem submittedNumbers_append (tr₁ tr₂ : List (Label T)) :
    submittedNumbers (tr₁ ++ tr₂) = submittedNumbers tr₁ ++ submittedNumbers tr₂ :=
  List.filterMap_append

theorem newNumberEvents_append (tr₁ tr₂ : List (Label T)) :
    newNumberEvents (tr₁ ++ tr₂) = newNumberEvents tr₁ ++ newNumberEvents tr₂ :=
  List.filterMap_append

/-- One step pushes the number it submits, if any. -/
theorem numbers_of_step {l : Label T} (hstep : step s l = some s') :
    s'.numbers = (submittedNumbers [l]).foldl (pushBounded NUM_VEC_LEN) s.numbers := by
  rw [step_eq_some] at hstep
  cases l with
  | beginBlock n =>
      obtain ⟨-, rfl⟩ := hstep
      rfl
  | dispatch origin call result =>
      rcases hstep with ⟨-, rfl, rfl⟩ | ⟨who, -, rfl, rfl⟩
      · rfl
      · rfl

/-- A run pushes the numbers it submits, in order. -/
theorem numbers_eq_foldl_of_run (hrun : run step s tr = some s') :
    s'.numbers = (submittedNumbers tr).foldl (pushBounded NUM_VEC_LEN) s.numbers := by
  refine run_history
    (P := fun tr t => t.numbers = (submittedNumbers tr).foldl (pushBounded NUM_VEC_LEN) s.numbers)
    rfl (fun tr t l v ht hstep => ?_) hrun
  rw [submittedNumbers_append, List.foldl_append, ← ht]
  exact numbers_of_step hstep

/-- **One step.** A block that begins and an attempt that fails add nothing; an attempt that
succeeds adds its number to both. -/
theorem Recorded.step {l : Label T} (h : Recorded tr s) (hstep : step s l = some s') :
    Recorded (tr ++ [l]) s' := by
  have hnumbers : s'.numbers =
      (submittedNumbers (tr ++ [l])).foldl (pushBounded NUM_VEC_LEN) [] := by
    rw [submittedNumbers_append, List.foldl_append, ← h.numbers]
    exact numbers_of_step hstep
  rw [step_eq_some] at hstep
  cases l with
  | beginBlock n =>
      obtain ⟨hlt, rfl⟩ := hstep
      refine ⟨?_, hnumbers, ?_⟩
      · rintro rfl
        exact BitVec.not_lt_zero hlt
      · rw [newNumberEvents_append, ← h.events]
        exact (List.append_nil _).symm
  | dispatch origin call result =>
      rcases hstep with ⟨-, rfl, rfl⟩ | ⟨who, hwho, rfl, rfl⟩
      · have hnone : newNumberEvents [.dispatch origin call (.error .badOrigin)] = [] := by
          cases origin <;> rfl
        refine ⟨h.notGenesis, hnumbers, ?_⟩
        rw [newNumberEvents_append, hnone, List.append_nil, h.events]
      · refine ⟨h.notGenesis, hnumbers, ?_⟩
        rw [newNumberEvents_append, ← h.events]
        show depositEvent s.blockNumber s.events (.NewNumber who call.number) = _
        rw [depositEvent_of_ne_zero h.notGenesis]
        congr 1
        cases call <;> cases origin <;> cases hwho <;> rfl

/-- **`Numbers` is a bounded log.** In every run:
`Numbers` holds the last `NUM_VEC_LEN` submitted numbers, in order, or all of them while they are
fewer;
the events are the submitted numbers, in order, with the signers;
and an attempt with the wrong origin fails and changes nothing, and any other returns `Ok` and
continues the run.
Source: `append_or_replace_number`, `submit_number_signed`, `submit_number_unsigned`,
`submit_number_unsigned_with_signed_payload` -/
theorem numbers_of_run (hb₀ : b₀ ≠ 0) (hrun : run step (Storage.empty b₀) tr = some s) :
    s.numbers = (submittedNumbers tr).rtake NUM_VEC_LEN ∧
    s.numbers.length = min (submittedNumbers tr).length NUM_VEC_LEN ∧
    s.events = newNumberEvents tr ∧
    (∀ (origin : RawOrigin T.AccountId) (call : Call T), call.WrongOrigin origin →
      dispatch s origin call = (.error .badOrigin, s)) ∧
    (∀ (origin : RawOrigin T.AccountId) (call : Call T), ¬ call.WrongOrigin origin →
      ∃ s', dispatch s origin call = (.ok (), s') ∧
        run step (Storage.empty b₀) (tr ++ [.dispatch origin call (.ok ())]) = some s') := by
  have h : Recorded tr s :=
    run_history ⟨hb₀, rfl, rfl⟩ (fun _ _ _ _ h hstep => h.step hstep) hrun
  have hnumbers : s.numbers = (submittedNumbers tr).rtake NUM_VEC_LEN := by
    rw [h.numbers, foldl_pushBounded (by decide)]
  refine ⟨hnumbers, ?_, h.events, ?_, ?_⟩
  · rw [hnumbers, length_rtake]
  · intro origin call hwrong
    rw [dispatch_eq, Call.recordedFor_eq_none_iff.mpr hwrong]
    rfl
  · intro origin call hright
    obtain ⟨who, hwho⟩ :=
      Option.ne_none_iff_exists'.mp (Call.recordedFor_eq_none_iff.not.mpr hright)
    refine ⟨s.submitted call.number who, ?_, run_snoc_eq_some.mpr ⟨s, hrun, ?_⟩⟩
    · rw [dispatch_eq, hwho]
      rfl
    · exact step_eq_some.mpr (Or.inr ⟨who, hwho, rfl, rfl⟩)

/-- Eleven unsigned attempts and a signed call without a signer. -/
def elevenCalls : List (Label noSignaturesOcw) :=
  ((List.range 11).map fun n =>
    .dispatch .none (.submitNumberUnsigned (UInt64.ofNat n)) (.ok ())) ++
    [.dispatch .none (.submitNumberSigned 11) (.error .badOrigin)]

/-- The storage after `elevenCalls`. -/
def afterEleven : Storage noSignaturesOcw where
  blockNumber := 1
  numbers := [1, 2, 3, 4, 5, 6, 7, 8, 9, 10]
  events := (List.range 11).map fun n => .NewNumber none (UInt64.ofNat n)

theorem numbers_of_run_elevenCalls :
    run step (Storage.empty 1) elevenCalls = some afterEleven ∧
    afterEleven.numbers = (submittedNumbers elevenCalls).rtake NUM_VEC_LEN ∧
    afterEleven.events = newNumberEvents elevenCalls := by
  have hrun : run step (Storage.empty 1) elevenCalls = some afterEleven := rfl
  obtain ⟨hnumbers, -, hevents, -⟩ := numbers_of_run (by decide) hrun
  exact ⟨hrun, hnumbers, hevents⟩

end OffchainPallets.Ocw
