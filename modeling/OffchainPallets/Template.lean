import OffchainPallets.Lib.Runs
import OffchainPallets.Runtime

/-!
# `pallet-template`: one stored value

The pallet of `pallets/template/src/lib.rs`: a value that a signed call sets and another one counts
up, and runs of it from empty storage in a block other than the genesis block.

* `dispatch_eq` — everything a call can do: `Call.outcome` is its error or the new value, and an
  error leaves the storage as it is.
* `something_of_run` — the stored value is the one that was set last and the number of increments
  since, exactly, and the calls report the two ways in which they cannot go on.
-/

namespace OffchainPallets.Template

open Lib OffchainPallets.Runtime

/-- Source: `Error` -/
inductive Error where
  | NoneValue
  | StorageOverflow
  deriving DecidableEq, Repr

/-- What a call of the runtime fails with: an error of the framework, or one of this pallet. -/
inductive CallError where
  | dispatch (e : DispatchError)
  | module (e : Error)
  deriving DecidableEq, Repr

/-- `DispatchResult`, with the errors of this pallet. -/
abbrev CallResult := Except CallError Unit

variable {T : System}

/-- Source: `Call` -/
inductive Call where
  | doSomething (something : UInt32)
  | causeError
  deriving DecidableEq, Repr

/-- Source: `Event` -/
inductive Event (T : System) where
  | SomethingStored (something : UInt32) (who : T.AccountId)

/-- The storage the pallet works on.
Source: `Something` -/
structure Storage (T : System) where
  /-- `frame_system::Pallet::block_number()`. -/
  blockNumber : T.BlockNumber
  something : Option UInt32
  /-- The events deposited so far, over all blocks. -/
  events : List (Event T)

/-- Empty storage in a block. -/
def Storage.empty (blockNumber : T.BlockNumber) : Storage T := ⟨blockNumber, none, []⟩

/-! ## Dispatchables -/

/-- `Self::deposit_event`. -/
def Storage.deposit (s : Storage T) (event : Event T) : Storage T :=
  { s with events := depositEvent s.blockNumber s.events event }

/-- Source: `do_something` -/
def doSomething (s : Storage T) (origin : RawOrigin T.AccountId) (something : UInt32) :
    CallResult × Storage T :=
  match ensureSigned origin with
  | .error e => (.error (.dispatch e), s)
  | .ok who =>
      let s := { s with something := some something }
      (.ok (), s.deposit (.SomethingStored something who))

/-- Source: `cause_error` -/
def causeError (s : Storage T) (origin : RawOrigin T.AccountId) : CallResult × Storage T :=
  match ensureSigned origin with
  | .error e => (.error (.dispatch e), s)
  | .ok _who =>
      match s.something with
      | none => (.error (.module .NoneValue), s)
      | some old =>
          match checkedAdd old 1 with
          | none => (.error (.module .StorageOverflow), s)
          | some new => (.ok (), { s with something := some new })

/-- A call with its origin.
Source: `Call` -/
def dispatch (s : Storage T) (origin : RawOrigin T.AccountId) : Call → CallResult × Storage T
  | .doSomething something => doSomething s origin something
  | .causeError => causeError s origin

/-! ## What a call does -/

/-- The new value, or the error. -/
def Call.outcome {A : Type} (something : Option UInt32) :
    Call → RawOrigin A → Except CallError UInt32
  | .doSomething new, .signed _ => .ok new
  | .causeError, .signed _ =>
      match something with
      | none => .error (.module .NoneValue)
      | some old => (checkedAdd old 1).elim (.error (.module .StorageOverflow)) .ok
  | _, _ => .error (.dispatch .badOrigin)

/-- The event of a successful call: only `do_something` deposits one. -/
def Call.event : Call → RawOrigin T.AccountId → List (Event T)
  | .doSomething something, .signed who => [.SomethingStored something who]
  | _, _ => []

/-- The storage after a successful call. -/
def Storage.stored (s : Storage T) (new : UInt32) (events : List (Event T)) : Storage T where
  blockNumber := s.blockNumber
  something := some new
  events := events.foldl (depositEvent s.blockNumber) s.events

/-- **Everything a call can do**: store the new value, or fail and leave the storage as it is. -/
theorem dispatch_eq (s : Storage T) (origin : RawOrigin T.AccountId) (c : Call) :
    dispatch s origin c =
      match c.outcome s.something origin with
      | .error e => (.error e, s)
      | .ok new => (.ok (), s.stored new (c.event origin)) := by
  cases c with
  | doSomething something => cases origin <;> rfl
  | causeError =>
      cases origin with
      | root => rfl
      | none => rfl
      | signed who =>
          simp only [dispatch, causeError, ensureSigned, Call.outcome]
          cases s.something with
          | none => rfl
          | some old =>
              dsimp only
              cases checkedAdd old 1 <;> rfl

/-- The storage with another event log. -/
def Storage.withEvents (s : Storage T) (events : List (Event T)) : Storage T :=
  { s with events := events }

/-- A call only appends to the event log. -/
theorem dispatch_withEvents (s : Storage T) (origin : RawOrigin T.AccountId) (c : Call) :
    dispatch s origin c =
      ((dispatch (s.withEvents []) origin c).1, (dispatch (s.withEvents []) origin c).2.withEvents
        (s.events ++ (dispatch (s.withEvents []) origin c).2.events)) := by
  have hsame : (s.withEvents []).something = s.something := rfl
  rw [dispatch_eq, dispatch_eq, hsame]
  cases c.outcome s.something origin with
  | error e => simp [Storage.withEvents]
  | ok new =>
      simp only [Prod.mk.injEq, true_and]
      simp only [Storage.stored, Storage.withEvents, Storage.mk.injEq, true_and]
      cases c <;> cases origin <;> try exact (List.append_nil _).symm
      exact depositEvent_append _ _ _

theorem blockNumber_of_dispatch (s : Storage T) (origin : RawOrigin T.AccountId) (c : Call) :
    (dispatch s origin c).2.blockNumber = s.blockNumber := by
  rw [dispatch_eq]
  cases c.outcome s.something origin <;> rfl

theorem checkedAdd_one_eq_some {old new : UInt32} (h : checkedAdd old 1 = some new) :
    new.toNat = old.toNat + 1 := by
  unfold checkedAdd at h
  rw [Option.ite_none_right_eq_some, Option.some.injEq] at h
  obtain ⟨hlt, rfl⟩ := h
  rw [UInt32.toNat_add]
  exact Nat.mod_eq_of_lt hlt

theorem checkedAdd_one_eq_none_iff {old : UInt32} :
    checkedAdd old 1 = none ↔ old.toNat = 4294967295 := by
  have hlt := old.toBitVec.isLt
  have hone : (1 : UInt32).toNat = 1 := rfl
  have htoNat : old.toBitVec.toNat = old.toNat := rfl
  unfold checkedAdd
  split_ifs with h
  · apply iff_of_false (by simp)
    omega
  · apply iff_of_true rfl
    omega

theorem dispatch_fst_eq_error_iff {s : Storage T} {origin : RawOrigin T.AccountId} {c : Call}
    {e : CallError} :
    (dispatch s origin c).1 = .error e ↔ c.outcome s.something origin = .error e := by
  rw [dispatch_eq]
  cases c.outcome s.something origin <;> simp

theorem dispatch_fst_eq_ok_iff {s : Storage T} {origin : RawOrigin T.AccountId} {c : Call} :
    (dispatch s origin c).1 = .ok () ↔ ∃ new, c.outcome s.something origin = .ok new := by
  rw [dispatch_eq]
  cases c.outcome s.something origin <;> simp

/-- The two ways in which `cause_error` fails for a signer, and that there are no others. -/
theorem outcome_causeError {A : Type} (something : Option UInt32) (who : A) :
    (Call.causeError.outcome something (.signed who) = .error (.module .NoneValue) ↔
      something = none) ∧
    (Call.causeError.outcome something (.signed who) = .error (.module .StorageOverflow) ↔
      something = some 4294967295) ∧
    ((∃ new, Call.causeError.outcome something (.signed who) = .ok new) ↔
      something ≠ none ∧ something ≠ some 4294967295) := by
  rcases something with _ | old
  · simp [Call.outcome]
  · have hmax : checkedAdd old 1 = none ↔ old = 4294967295 := by
      rw [checkedAdd_one_eq_none_iff, ← UInt32.toNat_inj]
      rfl
    rw [ne_eq (some old) (some _), Option.some.injEq, ← hmax]
    simp only [Call.outcome]
    cases checkedAdd old 1 <;> simp

/-! ## Runs -/

/-- An observed step. -/
inductive Label (T : System) where
  /-- A block with this number begins. -/
  | beginBlock (n : T.BlockNumber)
  /-- A call is attempted and returns a result. -/
  | dispatch (origin : RawOrigin T.AccountId) (call : Call) (result : CallResult)

/-- One step of the pallet. -/
def step (s : Storage T) : Label T → Option (Storage T)
  | .beginBlock n => if s.blockNumber < n then some { s with blockNumber := n } else none
  | .dispatch origin call result =>
      if (dispatch s origin call).1 = result then some (dispatch s origin call).2 else none

variable {b₀ : T.BlockNumber} {s s' : Storage T} {tr : List (Label T)}

/-- Everything a step can do. -/
theorem step_eq_some {l : Label T} :
    step s l = some s' ↔
      match l with
      | .beginBlock n => s.blockNumber < n ∧ s' = { s with blockNumber := n }
      | .dispatch origin call result =>
          (∃ e, call.outcome s.something origin = .error e ∧ result = .error e ∧ s' = s) ∨
            ∃ new, call.outcome s.something origin = .ok new ∧ result = .ok () ∧
              s' = s.stored new (call.event origin) := by
  cases l with
  | beginBlock n =>
      dsimp only
      rw [step, Option.ite_none_right_eq_some, Option.some.injEq, eq_comm (a := s')]
  | dispatch origin call result =>
      dsimp only
      rw [step, Option.ite_none_right_eq_some, dispatch_eq]
      cases call.outcome s.something origin with
      | error e => simp [eq_comm]
      | ok new => simp [eq_comm]

/-- The calls that returned `Ok`, in order. -/
def succeeded (tr : List (Label T)) : List Call :=
  tr.filterMap fun
    | .dispatch _ call (.ok ()) => some call
    | _ => none

/-- The values set by the calls that returned `Ok`, in order, as events with their signers. -/
def storedEvents (tr : List (Label T)) : List (Event T) :=
  tr.flatMap fun
    | .dispatch origin call (.ok ()) => call.event origin
    | _ => []

/-- What a history of successful calls leaves: nothing, or the value set last and the number of
increments since. -/
def Holds (cs : List Call) : Option UInt32 → Prop
  | none => cs = []
  | some value => ∃ before set count,
      cs = before ++ .doSomething set :: List.replicate count .causeError ∧
        value.toNat = set.toNat + count

/-- **One successful call.** -/
theorem Holds.snoc {cs : List Call} {something : Option UInt32} {c : Call} {A : Type}
    {origin : RawOrigin A} {new : UInt32} (h : Holds cs something)
    (hnew : c.outcome something origin = .ok new) : Holds (cs ++ [c]) (some new) := by
  cases c with
  | doSomething value =>
      cases origin with
      | root => cases hnew
      | none => cases hnew
      | signed who =>
          cases hnew
          exact ⟨cs, new, 0, by simp, by simp⟩
  | causeError =>
      cases origin with
      | root => cases hnew
      | none => cases hnew
      | signed who =>
          rcases something with _ | old
          · cases hnew
          · rcases hadd : checkedAdd old 1 with _ | sum
            · simp [Call.outcome, hadd] at hnew
            · obtain rfl : sum = new := by simpa [Call.outcome, hadd] using hnew
              obtain ⟨before, set, count, rfl, hold⟩ := h
              refine ⟨before, set, count + 1, ?_, ?_⟩
              · rw [List.append_assoc, List.cons_append, ← List.replicate_succ']
              · rw [checkedAdd_one_eq_some hadd, hold, Nat.add_assoc]

/-- A state, as its history determines it. -/
structure Recorded (tr : List (Label T)) (s : Storage T) : Prop where
  notGenesis : s.blockNumber ≠ 0
  something : Holds (succeeded tr) s.something
  events : s.events = storedEvents tr

/-- **One step.** -/
theorem Recorded.step {l : Label T} (h : Recorded tr s) (hstep : step s l = some s') :
    Recorded (tr ++ [l]) s' := by
  have hsucceeded : succeeded (tr ++ [l]) = succeeded tr ++ succeeded [l] := List.filterMap_append
  have hstored : storedEvents (tr ++ [l]) = storedEvents tr ++ storedEvents [l] :=
    List.flatMap_append
  rw [step_eq_some] at hstep
  cases l with
  | beginBlock n =>
      obtain ⟨hlt, rfl⟩ := hstep
      refine ⟨?_, ?_, ?_⟩
      · rintro rfl
        exact BitVec.not_lt_zero hlt
      · rw [hsucceeded]
        simpa [succeeded] using h.something
      · rw [hstored]
        simpa [storedEvents] using h.events
  | dispatch origin call result =>
      rcases hstep with ⟨e, -, rfl, rfl⟩ | ⟨new, hnew, rfl, rfl⟩
      · refine ⟨h.notGenesis, ?_, ?_⟩
        · rw [hsucceeded]
          simpa [succeeded] using h.something
        · rw [hstored]
          simpa [storedEvents] using h.events
      · refine ⟨h.notGenesis, ?_, ?_⟩
        · rw [hsucceeded]
          exact h.something.snoc hnew
        · have hsingle : storedEvents [.dispatch origin call (.ok ())] = call.event origin := by
            simp [storedEvents]
          rw [hstored, ← h.events, hsingle]
          show (call.event origin).foldl (depositEvent s.blockNumber) s.events = _
          cases call <;> cases origin <;> try exact (List.append_nil _).symm
          exact depositEvent_of_ne_zero h.notGenesis _ _

/-- **The stored value over a run.** After every run:
nothing is stored as long as no call has succeeded, and else the value that was set last and the
number of increments since, without a wrap;
the events are the values that were set, in order, with their signers;
`cause_error` of a signer fails exactly when no call has succeeded or the value is `u32::MAX`, with
`NoneValue` and `StorageOverflow`, and otherwise succeeds;
and a call that fails leaves the storage as it is.
Source: `do_something`, `cause_error` -/
theorem something_of_run (hb₀ : b₀ ≠ 0) (hrun : run step (Storage.empty b₀) tr = some s) :
    ((s.something = none ∧ succeeded tr = []) ∨
      ∃ value before set count, s.something = some value ∧
        succeeded tr = before ++ .doSomething set :: List.replicate count .causeError ∧
        value.toNat = set.toNat + count) ∧
    s.events = storedEvents tr ∧
    (∀ who, ((dispatch s (.signed who) .causeError).1 = .error (.module .NoneValue) ↔
        succeeded tr = []) ∧
      ((dispatch s (.signed who) .causeError).1 = .error (.module .StorageOverflow) ↔
        s.something = some 4294967295) ∧
      ((dispatch s (.signed who) .causeError).1 = .ok () ↔
        succeeded tr ≠ [] ∧ s.something ≠ some 4294967295)) ∧
    (∀ origin c e s', dispatch s origin c = (.error e, s') → s' = s) := by
  have hempty : Recorded [] (Storage.empty b₀) := ⟨hb₀, rfl, rfl⟩
  have h : Recorded tr s := run_history hempty (fun _ _ _ _ h hstep => h.step hstep) hrun
  have hholds := h.something
  refine ⟨?_, h.events, ?_, ?_⟩
  · rcases hsome : s.something with _ | value
    · rw [hsome] at hholds
      exact Or.inl ⟨rfl, hholds⟩
    · rw [hsome] at hholds
      obtain ⟨before, set, count, hcs, hvalue⟩ := hholds
      exact Or.inr ⟨value, before, set, count, rfl, hcs, hvalue⟩
  · intro who
    have hnothing : s.something = none ↔ succeeded tr = [] := by
      rcases hsome : s.something with _ | value
      · rw [hsome] at hholds
        have hnil : succeeded tr = [] := hholds
        simp [hnil]
      · rw [hsome] at hholds
        obtain ⟨before, set, count, hcs, -⟩ := hholds
        simp [hcs]
    obtain ⟨hnone, hmax, hok⟩ := outcome_causeError s.something who
    rw [dispatch_fst_eq_error_iff, dispatch_fst_eq_error_iff, dispatch_fst_eq_ok_iff, hnone, hmax,
      hok, ne_eq, hnothing]
    exact ⟨Iff.rfl, Iff.rfl, Iff.rfl⟩
  · intro origin c e s' hfail
    have herror := dispatch_fst_eq_error_iff.mp (congrArg Prod.fst hfail)
    rw [dispatch_eq, herror] at hfail
    exact (congrArg Prod.snd hfail).symm

/-- A value is set and counted up, once without a signer. -/
def counted : List (Label system) :=
  [.dispatch (.signed system.defaultAccountId) (.doSomething 42) (.ok ()),
    .dispatch .none .causeError (.error (.dispatch .badOrigin)),
    .dispatch (.signed system.defaultAccountId) .causeError (.ok ())]

theorem something_of_run_counted :
    ∃ s, run step (Storage.empty 1) counted = some s ∧ s.something = some 43 ∧
      s.events = storedEvents counted ∧
      (dispatch s (.signed system.defaultAccountId) .causeError).1 = .ok () := by
  obtain ⟨s, hrun, hsome⟩ : ∃ s, run step (Storage.empty 1) counted = some s ∧
      s.something = some 43 := ⟨_, rfl, rfl⟩
  obtain ⟨-, hevents, hfails, -⟩ := something_of_run (by decide) hrun
  refine ⟨s, hrun, hsome, hevents, ?_⟩
  apply (hfails _).2.2.mpr
  rw [hsome]
  simp [succeeded, counted]

end OffchainPallets.Template
