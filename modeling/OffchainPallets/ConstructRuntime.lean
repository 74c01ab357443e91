import OffchainPallets.ExampleOffchainWorker.Chain
import OffchainPallets.Lib.Components
import OffchainPallets.Ocw.Replay
import OffchainPallets.Template

/-!
# The runtime composed of the pallets

What `construct_runtime!` of `runtime/src/lib.rs` makes of the three pallets of the repository: one
storage with one event log, one `Call`, and one `ValidateUnsigned`, to which `TemplateModule` does
not contribute. The other pallets of the runtime are left out; they do not call these three, apart
from `Sudo`, which can give a call any origin but `none`.

* `runtime_composed` — the chain is composed of `System` and the three pallets (`Lib.Composed`), so
  what is proved about the runs of one pallet holds in the runtime.
* `runtime_run_iff` — a sequence of blocks and calls is a run of the chain exactly when it is one
  for every pallet.
* `calls_commute` — calls of different pallets that follow one another in a block can change places.
* `events_of_run` — the events that the three pallets deposit over all blocks are those of the calls
  that succeed, in the order in which they are dispatched.
-/

namespace OffchainPallets.ConstructRuntime

open Lib

/-- What the pallets' `Config`s for `Runtime` are made of. -/
structure Config extends System where
  /-- `pallet_ocw::crypto::TestAuthId`. -/
  ocwVerify : List UInt8 → Public → Signature → Bool
  /-- `pallet_example_offchain_worker::crypto::TestAuthId`. -/
  exampleVerify : List UInt8 → Public → Signature → Bool
  gracePeriod : toSystem.BlockNumber
  unsignedInterval : toSystem.BlockNumber
  unsignedPriority : UInt64

/-- Source: `pallet_ocw::Config for Runtime` -/
abbrev Config.ocw (R : Config) : Ocw.Config where
  toSystem := R.toSystem
  authorityVerify := R.ocwVerify

/-- Source: `pallet_example_offchain_worker::Config for Runtime` -/
abbrev Config.example (R : Config) : ExampleOffchainWorker.Config where
  toSystem := R.toSystem
  authorityVerify := R.exampleVerify
  gracePeriod := R.gracePeriod
  unsignedInterval := R.unsignedInterval
  unsignedPriority := R.unsignedPriority

/-- The pallets, under their names in the runtime.
Source: `construct_runtime!` -/
inductive Pallet where
  | System
  | TemplateModule
  | OcwDemo
  | OcwExample
  deriving DecidableEq

variable {R : Config}

/-- Source: `construct_runtime!` -/
inductive Call (R : Config) where
  | TemplateModule (call : Template.Call)
  | OcwDemo (call : Ocw.Call R.ocw)
  | OcwExample (call : ExampleOffchainWorker.Call R.example)

/-- Source: `construct_runtime!` -/
inductive Event (R : Config) where
  | TemplateModule (event : Template.Event R.toSystem)
  | OcwDemo (event : Ocw.Event R.ocw)
  | OcwExample (event : ExampleOffchainWorker.Event R.example)

namespace Event

/-- The event as one of `TemplateModule`. -/
def templateModule : Event R → Option (Template.Event R.toSystem)
  | .TemplateModule event => some event
  | _ => none

/-- The event as one of `OcwDemo`. -/
def ocwDemo : Event R → Option (Ocw.Event R.ocw)
  | .OcwDemo event => some event
  | _ => none

/-- The event as one of `OcwExample`. -/
def ocwExample : Event R → Option (ExampleOffchainWorker.Event R.example)
  | .OcwExample event => some event
  | _ => none

end Event

/-- What a call fails with. -/
def Call.Error : Call R → Type
  | .TemplateModule _ => Template.CallError
  | .OcwDemo _ => DispatchError
  | .OcwExample _ => DispatchError

instance : (c : Call R) → DecidableEq c.Error
  | .TemplateModule _ => inferInstanceAs (DecidableEq Template.CallError)
  | .OcwDemo _ => inferInstanceAs (DecidableEq DispatchError)
  | .OcwExample _ => inferInstanceAs (DecidableEq DispatchError)

/-! ## Storage -/

/-- The storage of the pallets. -/
structure Storage (R : Config) where
  /-- `System::block_number()`. -/
  blockNumber : R.BlockNumber
  something : Option UInt32
  numbers : List UInt64
  prices : List UInt32
  nextUnsignedAt : R.BlockNumber
  /-- The events the three pallets have deposited, over all blocks: `System` empties its own log
  when a block begins, and adds an event for every extrinsic. -/
  events : List (Event R)

namespace Storage

/-- Empty storage in a block. -/
def empty (blockNumber : R.BlockNumber) : Storage R := ⟨blockNumber, none, [], [], 0, []⟩

/-- A new block begins: only the block number changes. -/
def beginBlock (s : Storage R) (n : R.BlockNumber) : Storage R := { s with blockNumber := n }

/-- The storage as `TemplateModule` sees it. -/
def templateModule (s : Storage R) : Template.Storage R.toSystem :=
  ⟨s.blockNumber, s.something, s.events.filterMap Event.templateModule⟩

/-- The storage as `OcwDemo` sees it. -/
def ocwDemo (s : Storage R) : Ocw.Storage R.ocw :=
  ⟨s.blockNumber, s.numbers, s.events.filterMap Event.ocwDemo⟩

/-- The storage as `OcwExample` sees it. -/
def ocwExample (s : Storage R) : ExampleOffchainWorker.Storage R.example :=
  ⟨s.blockNumber, s.prices, s.nextUnsignedAt, s.events.filterMap Event.ocwExample⟩

/-- What a call of `TemplateModule` has written, with the events it has deposited. -/
def writeTemplateModule (s : Storage R) (s' : Template.Storage R.toSystem) : Storage R :=
  { s with
    something := s'.something
    events := s.events ++ s'.events.map .TemplateModule }

/-- What a call of `OcwDemo` has written, with the events it has deposited. -/
def writeOcwDemo (s : Storage R) (s' : Ocw.Storage R.ocw) : Storage R :=
  { s with
    numbers := s'.numbers
    events := s.events ++ s'.events.map .OcwDemo }

/-- What a call of `OcwExample` has written, with the events it has deposited. -/
def writeOcwExample (s : Storage R) (s' : ExampleOffchainWorker.Storage R.example) : Storage R :=
  { s with
    prices := s'.prices
    nextUnsignedAt := s'.nextUnsignedAt
    events := s.events ++ s'.events.map .OcwExample }

end Storage

/-! ## Dispatch and validation -/

/-- A call goes to its pallet, which works on its own storage and deposits its events in the common
log.
Source: `construct_runtime!` -/
def dispatch (s : Storage R) (origin : RawOrigin R.AccountId) :
    (c : Call R) → Except Panic (Except c.Error Unit × Storage R)
  | .TemplateModule call =>
      let r := Template.dispatch (s.templateModule.withEvents []) origin call
      .ok (r.1, s.writeTemplateModule r.2)
  | .OcwDemo call =>
      let r := Ocw.dispatch (s.ocwDemo.withEvents []) origin call
      .ok (r.1, s.writeOcwDemo r.2)
  | .OcwExample call => do
      let r ← ExampleOffchainWorker.dispatch (s.ocwExample.withEvents []) origin call
      return (r.1, s.writeOcwExample r.2)

/-- `TransactionValidityError`, as far as it is returned. -/
inductive ValidityError where
  | invalid (e : InvalidTransaction)
  /-- `UnknownTransaction::NoUnsignedValidator`. -/
  | noUnsignedValidator
  deriving DecidableEq, Repr

/-- A call goes to the validator of its pallet, if it has one.
Source: `construct_runtime!` -/
def validateUnsigned (s : Storage R) :
    Call R → Except Panic (Except ValidityError ValidTransaction)
  | .TemplateModule _ => .ok (.error .noUnsignedValidator)
  | .OcwDemo call => .ok ((Ocw.validateUnsigned call).mapError .invalid)
  | .OcwExample call =>
      (ExampleOffchainWorker.validateUnsigned s.ocwExample call).map fun r =>
        r.mapError .invalid

/-- `pre_dispatch`: an unsigned call has to be valid in the current state; one to a pallet without a
validator passes, to fail when it is dispatched. -/
def preDispatch (s : Storage R) (call : Call R) : RawOrigin R.AccountId → Bool
  | .none =>
      match validateUnsigned s call with
      | .ok (.ok _) => true
      | .ok (.error .noUnsignedValidator) => true
      | _ => false
  | _ => true

/-- An observed step. -/
inductive Label (R : Config) where
  /-- A block with this number begins. -/
  | beginBlock (n : R.BlockNumber)
  /-- A call is dispatched in a block and returns a result. -/
  | dispatch (block : R.BlockNumber) (origin : RawOrigin R.AccountId) (call : Call R)
      (result : Except call.Error Unit)

/-- One step of the chain: a block begins, or a call is dispatched if `pre_dispatch` lets it. A call
that panics gives no step. -/
def chainStep (s : Storage R) : Label R → Option (Storage R)
  | .beginBlock n => if s.blockNumber < n then some (s.beginBlock n) else none
  | .dispatch block origin call result =>
      if preDispatch s call origin then
        match dispatch s origin call with
        | .ok (r, s') => if block = s.blockNumber ∧ r = result then some s' else none
        | .error _ => none
      else none

/-! ## The pallets as components -/

/-- A block begins, or an extrinsic is applied in one. -/
inductive SystemLabel (R : Config) where
  | beginBlock (n : R.BlockNumber)
  | extrinsic (block : R.BlockNumber)

/-- The block number under the steps of the chain. -/
def systemStep (number : R.BlockNumber) : SystemLabel R → Option R.BlockNumber
  | .beginBlock n => if number < n then some n else none
  | .extrinsic block => if block = number then some number else none

namespace Label

/-- The label as one of `System`. -/
def system : Label R → Option (SystemLabel R)
  | .beginBlock n => some (.beginBlock n)
  | .dispatch block _ _ _ => some (.extrinsic block)

/-- The label as one of `TemplateModule`. -/
def templateModule : Label R → Option (Template.Label R.toSystem)
  | .beginBlock n => some (.beginBlock n)
  | .dispatch _ origin (.TemplateModule call) result => some (.dispatch origin call result)
  | _ => none

/-- The label as one of `OcwDemo`. -/
def ocwDemo : Label R → Option (Ocw.Label R.ocw)
  | .beginBlock n => some (.beginBlock n)
  | .dispatch _ origin (.OcwDemo call) result => some (.dispatch origin call result)
  | _ => none

/-- The label as one of `OcwExample`. -/
def ocwExample : Label R → Option (ExampleOffchainWorker.Label R.example)
  | .beginBlock n => some (.beginBlock n)
  | .dispatch block origin (.OcwExample call) result => some (.dispatch block origin call result)
  | _ => none

end Label

/-- A pallet, as a component of the chain. -/
def component : Pallet → Component (Storage R) (Label R)
  | .System => ⟨_, _, systemStep, Storage.blockNumber, Label.system⟩
  | .TemplateModule => ⟨_, _, Template.step, Storage.templateModule, Label.templateModule⟩
  | .OcwDemo => ⟨_, _, Ocw.chainStep, Storage.ocwDemo, Label.ocwDemo⟩
  | .OcwExample =>
      ⟨_, _, ExampleOffchainWorker.chainStep, Storage.ocwExample, Label.ocwExample⟩

/-! ## What a call leaves to the other pallets -/

theorem views_writeTemplateModule {s : Storage R} {t : Template.Storage R.toSystem}
    (ht : t.blockNumber = s.blockNumber) :
    (s.writeTemplateModule t).templateModule =
        t.withEvents (s.templateModule.events ++ t.events) ∧
      (s.writeTemplateModule t).ocwDemo = s.ocwDemo ∧
      (s.writeTemplateModule t).ocwExample = s.ocwExample := by
  simp [Storage.writeTemplateModule, Storage.templateModule, Storage.ocwDemo, Storage.ocwExample,
    Template.Storage.withEvents, Event.templateModule, Event.ocwDemo, Event.ocwExample,
    List.filterMap_append, Function.comp_def, ht]

theorem views_writeOcwDemo {s : Storage R} {t : Ocw.Storage R.ocw}
    (ht : t.blockNumber = s.blockNumber) :
    (s.writeOcwDemo t).templateModule = s.templateModule ∧
      (s.writeOcwDemo t).ocwDemo = t.withEvents (s.ocwDemo.events ++ t.events) ∧
      (s.writeOcwDemo t).ocwExample = s.ocwExample := by
  simp [Storage.writeOcwDemo, Storage.templateModule, Storage.ocwDemo, Storage.ocwExample,
    Ocw.Storage.withEvents, Event.templateModule, Event.ocwDemo, Event.ocwExample,
    List.filterMap_append, Function.comp_def, ht]

theorem views_writeOcwExample {s : Storage R} {t : ExampleOffchainWorker.Storage R.example}
    (ht : t.blockNumber = s.blockNumber) :
    (s.writeOcwExample t).templateModule = s.templateModule ∧
      (s.writeOcwExample t).ocwDemo = s.ocwDemo ∧
      (s.writeOcwExample t).ocwExample =
        t.withEvents (s.ocwExample.events ++ t.events) := by
  simp [Storage.writeOcwExample, Storage.templateModule, Storage.ocwDemo, Storage.ocwExample,
    ExampleOffchainWorker.Storage.withEvents, Event.templateModule, Event.ocwDemo,
    Event.ocwExample, List.filterMap_append, Function.comp_def, ht]

/-! ## Steps -/

theorem chainStep_dispatch_eq_some {s s' : Storage R} {block : R.BlockNumber}
    {origin : RawOrigin R.AccountId} {call : Call R} {result : Except call.Error Unit} :
    chainStep s (.dispatch block origin call result) = some s' ↔
      preDispatch s call origin = true ∧ block = s.blockNumber ∧
        dispatch s origin call = .ok (result, s') := by
  rw [chainStep, Option.ite_none_right_eq_some]
  apply and_congr_right
  intro _
  cases dispatch s origin call with
  | error e => simp
  | ok r =>
      rw [Option.ite_none_right_eq_some, and_assoc, Option.some.injEq, Except.ok.injEq,
        Prod.ext_iff]

theorem templateStep_dispatch_eq_some {s s' : Template.Storage R.toSystem}
    {origin : RawOrigin R.AccountId} {call : Template.Call} {result : Template.CallResult} :
    Template.step s (.dispatch origin call result) = some s' ↔
      Template.dispatch s origin call = (result, s') := by
  simp [Template.step, Prod.ext_iff]

theorem ocwStep_dispatch_eq_some {s s' : Ocw.Storage R.ocw}
    {origin : RawOrigin R.AccountId} {call : Ocw.Call R.ocw} {result : DispatchResult} :
    Ocw.chainStep s (.dispatch origin call result) = some s' ↔
      Ocw.preDispatch call origin = true ∧ Ocw.dispatch s origin call = (result, s') := by
  simp [Ocw.chainStep, Ocw.step, Prod.ext_iff]

theorem exampleStep_dispatch_eq_some {s s' : ExampleOffchainWorker.Storage R.example}
    {block : R.BlockNumber} {origin : RawOrigin R.AccountId}
    {call : ExampleOffchainWorker.Call R.example} {result : DispatchResult} :
    ExampleOffchainWorker.chainStep s (.dispatch block origin call result) = some s' ↔
      ExampleOffchainWorker.preDispatch s call origin = true ∧ block = s.blockNumber ∧
        ExampleOffchainWorker.dispatch s origin call = .ok (result, s') := by
  rw [ExampleOffchainWorker.chainStep, Option.ite_none_right_eq_some,
    ExampleOffchainWorker.step_dispatch_eq_some]

/-- Unsigned calls are checked by the pallet they go to. -/
theorem preDispatch_eq (s : Storage R) (origin : RawOrigin R.AccountId) :
    (∀ call, preDispatch s (.TemplateModule call) origin = true) ∧
    (∀ call, preDispatch s (.OcwDemo call) origin = Ocw.preDispatch call origin) ∧
    (∀ call, preDispatch s (.OcwExample call) origin =
      ExampleOffchainWorker.preDispatch s.ocwExample call origin) := by
  refine ⟨?_, ?_, ?_⟩
  · intro call
    cases origin <;> rfl
  · intro call
    cases origin with
    | root => rfl
    | signed who => rfl
    | none =>
        simp only [preDispatch, validateUnsigned, Ocw.preDispatch]
        cases Ocw.validateUnsigned call <;> rfl
  · intro call
    cases origin with
    | root => rfl
    | signed who => rfl
    | none =>
        simp only [preDispatch, validateUnsigned, ExampleOffchainWorker.preDispatch]
        rcases ExampleOffchainWorker.validateUnsigned s.ocwExample call with e | e | v <;> rfl

section views

variable {s s' : Storage R} {block : R.BlockNumber} {origin : RawOrigin R.AccountId}

/-- A call of `TemplateModule`, as the pallets see it. -/
theorem views_of_templateModule {call : Template.Call} {result : Template.CallResult}
    (h : dispatch s origin (.TemplateModule call) = .ok (result, s')) :
    Template.dispatch s.templateModule origin call = (result, s'.templateModule) ∧
      s'.ocwDemo = s.ocwDemo ∧ s'.ocwExample = s.ocwExample ∧
      s'.blockNumber = s.blockNumber := by
  obtain ⟨rfl, rfl⟩ := Prod.ext_iff.mp (Except.ok.inj h)
  obtain ⟨hown, hocw, hexample⟩ := views_writeTemplateModule
    (Template.blockNumber_of_dispatch (s.templateModule.withEvents []) origin call)
  rw [Template.dispatch_withEvents, hown]
  exact ⟨rfl, hocw, hexample, rfl⟩

/-- A call of `OcwDemo`, as the pallets see it. -/
theorem views_of_ocwDemo {call : Ocw.Call R.ocw} {result : DispatchResult}
    (h : dispatch s origin (.OcwDemo call) = .ok (result, s')) :
    Ocw.dispatch s.ocwDemo origin call = (result, s'.ocwDemo) ∧
      s'.templateModule = s.templateModule ∧ s'.ocwExample = s.ocwExample ∧
      s'.blockNumber = s.blockNumber := by
  obtain ⟨rfl, rfl⟩ := Prod.ext_iff.mp (Except.ok.inj h)
  obtain ⟨htemplate, hown, hexample⟩ := views_writeOcwDemo
    (Ocw.blockNumber_of_dispatch (s.ocwDemo.withEvents []) origin call)
  rw [Ocw.dispatch_withEvents, hown]
  exact ⟨rfl, htemplate, hexample, rfl⟩

/-- A call of `OcwExample`, as the pallets see it. -/
theorem views_of_ocwExample {call : ExampleOffchainWorker.Call R.example} {result : DispatchResult}
    (h : dispatch s origin (.OcwExample call) = .ok (result, s')) :
    ExampleOffchainWorker.dispatch s.ocwExample origin call = .ok (result, s'.ocwExample) ∧
      s'.templateModule = s.templateModule ∧ s'.ocwDemo = s.ocwDemo ∧
      s'.blockNumber = s.blockNumber := by
  obtain ⟨⟨r, t⟩, hr, h⟩ := bind_eq_ok.mp h
  obtain ⟨rfl, rfl⟩ := Prod.ext_iff.mp (Except.ok.inj h)
  obtain ⟨htemplate, hocw, hown⟩ := views_writeOcwExample
    (ExampleOffchainWorker.blockNumber_of_dispatch hr)
  rw [ExampleOffchainWorker.dispatch_withEvents, hr, hown]
  exact ⟨rfl, htemplate, hocw, rfl⟩

theorem dispatch_of_templateModule {t : Template.Storage R.toSystem} {call : Template.Call}
    {result : Template.CallResult}
    (h : Template.dispatch s.templateModule origin call = (result, t)) :
    ∃ s', dispatch s origin (.TemplateModule call) = .ok (result, s') := by
  rw [Template.dispatch_withEvents, Prod.mk.injEq] at h
  obtain ⟨rfl, -⟩ := h
  exact ⟨_, rfl⟩

theorem dispatch_of_ocwDemo {t : Ocw.Storage R.ocw} {call : Ocw.Call R.ocw}
    {result : DispatchResult} (h : Ocw.dispatch s.ocwDemo origin call = (result, t)) :
    ∃ s', dispatch s origin (.OcwDemo call) = .ok (result, s') := by
  rw [Ocw.dispatch_withEvents, Prod.mk.injEq] at h
  obtain ⟨rfl, -⟩ := h
  exact ⟨_, rfl⟩

theorem dispatch_of_ocwExample {t : ExampleOffchainWorker.Storage R.example}
    {call : ExampleOffchainWorker.Call R.example} {result : DispatchResult}
    (h : ExampleOffchainWorker.dispatch s.ocwExample origin call = .ok (result, t)) :
    ∃ s', dispatch s origin (.OcwExample call) = .ok (result, s') := by
  rw [ExampleOffchainWorker.dispatch_withEvents] at h
  rcases hr : ExampleOffchainWorker.dispatch (s.ocwExample.withEvents []) origin call with e | r
  · rw [hr] at h
    cases h
  · rw [hr] at h
    obtain ⟨rfl, -⟩ := Prod.ext_iff.mp (Except.ok.inj h)
    exact ⟨_, bind_eq_ok.mpr ⟨r, hr, rfl⟩⟩

theorem systemStep_beginBlock_isSome {number n : R.BlockNumber} :
    (systemStep number (.beginBlock n)).isSome ↔ number < n := by
  simp [systemStep]

theorem systemStep_extrinsic_isSome {number : R.BlockNumber} :
    (systemStep number (.extrinsic block)).isSome ↔ block = number := by
  simp [systemStep]

/-- A call leaves the block number. -/
theorem number_of_dispatch {call : Call R} {result : Except call.Error Unit}
    (h : dispatch s origin call = .ok (result, s')) : s'.blockNumber = s.blockNumber := by
  cases call with
  | TemplateModule call => exact (views_of_templateModule h).2.2.2
  | OcwDemo call => exact (views_of_ocwDemo h).2.2.2
  | OcwExample call => exact (views_of_ocwExample h).2.2.2

end views

/-- **The runtime is composed of its pallets.** -/
theorem runtime_composed : Composed (chainStep (R := R)) component where
  follow := by
    intro s l s' h i
    cases l with
    | beginBlock n =>
        rw [chainStep, Option.ite_none_right_eq_some, Option.some.injEq] at h
        obtain ⟨hlt, rfl⟩ := h
        cases i with
        | System => exact if_pos hlt
        | TemplateModule => exact if_pos hlt
        | OcwDemo => exact if_pos hlt
        | OcwExample => exact if_pos hlt
    | dispatch block origin call result =>
        obtain ⟨hpre, rfl, hcall⟩ := chainStep_dispatch_eq_some.mp h
        obtain ⟨-, hpreOcw, hpreExample⟩ := preDispatch_eq s origin
        cases call with
        | TemplateModule call =>
            obtain ⟨hown, hocw, hexample, hnumber⟩ := views_of_templateModule hcall
            cases i with
            | System => exact (if_pos rfl).trans (congrArg some hnumber.symm)
            | TemplateModule => exact templateStep_dispatch_eq_some.mpr hown
            | OcwDemo => exact congrArg some hocw.symm
            | OcwExample => exact congrArg some hexample.symm
        | OcwDemo call =>
            obtain ⟨hown, htemplate, hexample, hnumber⟩ := views_of_ocwDemo hcall
            cases i with
            | System => exact (if_pos rfl).trans (congrArg some hnumber.symm)
            | TemplateModule => exact congrArg some htemplate.symm
            | OcwDemo =>
                exact ocwStep_dispatch_eq_some.mpr ⟨hpreOcw call ▸ hpre, hown⟩
            | OcwExample => exact congrArg some hexample.symm
        | OcwExample call =>
            obtain ⟨hown, htemplate, hocw, hnumber⟩ := views_of_ocwExample hcall
            cases i with
            | System => exact (if_pos rfl).trans (congrArg some hnumber.symm)
            | TemplateModule => exact congrArg some htemplate.symm
            | OcwDemo => exact congrArg some hocw.symm
            | OcwExample =>
                exact exampleStep_dispatch_eq_some.mpr ⟨hpreExample call ▸ hpre, rfl, hown⟩
  enabled := by
    intro s l h
    cases l with
    | beginBlock n =>
        have hlt : s.blockNumber < n := systemStep_beginBlock_isSome.mp (h .System)
        rw [chainStep, if_pos hlt]
        rfl
    | dispatch block origin call result =>
        have hblock : block = s.blockNumber := systemStep_extrinsic_isSome.mp (h .System)
        obtain ⟨hpreTemplate, hpreOcw, hpreExample⟩ := preDispatch_eq s origin
        rw [Option.isSome_iff_exists]
        -- the pallet the call goes to can follow
        cases call with
        | TemplateModule call =>
            obtain ⟨t, ht⟩ := Option.isSome_iff_exists.mp (h .TemplateModule)
            obtain ⟨s', hs'⟩ := dispatch_of_templateModule (templateStep_dispatch_eq_some.mp ht)
            exact ⟨s', chainStep_dispatch_eq_some.mpr ⟨hpreTemplate call, hblock, hs'⟩⟩
        | OcwDemo call =>
            obtain ⟨t, ht⟩ := Option.isSome_iff_exists.mp (h .OcwDemo)
            obtain ⟨hpre, hcall⟩ := ocwStep_dispatch_eq_some.mp ht
            obtain ⟨s', hs'⟩ := dispatch_of_ocwDemo hcall
            exact ⟨s', chainStep_dispatch_eq_some.mpr ⟨(hpreOcw call).trans hpre, hblock, hs'⟩⟩
        | OcwExample call =>
            obtain ⟨t, ht⟩ := Option.isSome_iff_exists.mp (h .OcwExample)
            obtain ⟨hpre, -, hcall⟩ := exampleStep_dispatch_eq_some.mp ht
            obtain ⟨s', hs'⟩ := dispatch_of_ocwExample hcall
            exact ⟨s', chainStep_dispatch_eq_some.mpr
              ⟨(hpreExample call).trans hpre, hblock, hs'⟩⟩

/-- Block numbers never go back. -/
theorem number_le_of_chainStep {s s' : Storage R} {l : Label R} (h : chainStep s l = some s') :
    s.blockNumber ≤ s'.blockNumber := by
  cases l with
  | beginBlock n =>
      rw [chainStep, Option.ite_none_right_eq_some, Option.some.injEq] at h
      obtain ⟨hlt, rfl⟩ := h
      exact BitVec.le_of_lt hlt
  | dispatch block origin call result =>
      rw [number_of_dispatch (chainStep_dispatch_eq_some.mp h).2.2]
      exact BitVec.le_refl _

/-- A step as `OcwExample` sees it: one of its own, or none at all. -/
theorem exampleStep_of_chainStep {s s' : Storage R} {l : Label R} (h : chainStep s l = some s') :
    s'.ocwExample = s.ocwExample ∨
      ∃ l', l.ocwExample = some l' ∧
        ExampleOffchainWorker.chainStep s.ocwExample l' = some s'.ocwExample := by
  have hfollow : (l.ocwExample).elim (some s.ocwExample)
      (ExampleOffchainWorker.chainStep s.ocwExample) = some s'.ocwExample :=
    runtime_composed.follow h .OcwExample
  rcases hl : l.ocwExample with _ | l'
  · rw [hl] at hfollow
    exact Or.inl (Option.some.inj hfollow).symm
  · rw [hl] at hfollow
    exact Or.inr ⟨l', rfl, hfollow⟩

/-- **The pallets do not constrain one another.** From any storage, a sequence of blocks and calls
is a run of the chain exactly when what concerns each pallet is a run of that pallet's own chain;
and then each pallet ends with what its own run ends with.
Source: `construct_runtime!` -/
theorem runtime_run_iff (s : Storage R) (tr : List (Label R)) :
    ((run chainStep s tr).isSome ↔
      (run systemStep s.blockNumber (tr.filterMap Label.system)).isSome ∧
      (run Template.step s.templateModule (tr.filterMap Label.templateModule)).isSome ∧
      (run Ocw.chainStep s.ocwDemo (tr.filterMap Label.ocwDemo)).isSome ∧
      (run ExampleOffchainWorker.chainStep s.ocwExample
        (tr.filterMap Label.ocwExample)).isSome) ∧
    (∀ s', run chainStep s tr = some s' →
      run systemStep s.blockNumber (tr.filterMap Label.system) = some s'.blockNumber ∧
      run Template.step s.templateModule (tr.filterMap Label.templateModule) =
        some s'.templateModule ∧
      run Ocw.chainStep s.ocwDemo (tr.filterMap Label.ocwDemo) = some s'.ocwDemo ∧
      run ExampleOffchainWorker.chainStep s.ocwExample (tr.filterMap Label.ocwExample) =
        some s'.ocwExample) := by
  constructor
  · rw [runtime_composed.run_isSome_iff]
    constructor
    · intro h
      exact ⟨h .System, h .TemplateModule, h .OcwDemo, h .OcwExample⟩
    · rintro ⟨hsystem, htemplate, hocw, hexample⟩ i
      cases i with
      | System => exact hsystem
      | TemplateModule => exact htemplate
      | OcwDemo => exact hocw
      | OcwExample => exact hexample
  · intro s' hrun
    have hview := runtime_composed.view_of_run hrun
    exact ⟨hview .System, hview .TemplateModule, hview .OcwDemo, hview .OcwExample⟩

/-- No run stores more than `MAX_LEN` prices. -/
theorem bounded_of_run {s s' : Storage R} {tr : List (Label R)}
    (hs : s.prices.length ≤ ExampleOffchainWorker.MAX_LEN)
    (hrun : run chainStep s tr = some s') :
    s'.prices.length ≤ ExampleOffchainWorker.MAX_LEN := by
  have hexample : run ExampleOffchainWorker.chainStep s.ocwExample
      (tr.filterMap Label.ocwExample) = some s'.ocwExample :=
    runtime_composed.view_of_run hrun .OcwExample
  have hstart : s.ocwExample.prices.length ≤ ExampleOffchainWorker.MAX_LEN := hs
  exact run_induction (P := fun t => t.prices.length ≤ ExampleOffchainWorker.MAX_LEN)
    (fun _ _ _ ht hstep => ExampleOffchainWorker.step_bounded ht
      (ExampleOffchainWorker.step_of_chainStep hstep)) hstart hexample

/-- The runtime, with the verification of `sr25519` signatures as a parameter.
Source: `GracePeriod`, `UnsignedInterval`, `UnsignedPriority` -/
def runtime (verify : Runtime.Sr25519Verify) : Config where
  toSystem := Runtime.system
  ocwVerify := Runtime.testAuthIdVerify verify
  exampleVerify := Runtime.testAuthIdVerify verify
  gracePeriod := (3 : BitVec 32)
  unsignedInterval := (3 : BitVec 32)
  unsignedPriority := 3

/-- The runtime without a signature scheme, for runs in which no payload is signed. -/
abbrev noSignatures : Config := runtime fun _ _ _ => false

/-! ## Calls of different pallets -/

/-- The pallet a call goes to. -/
def Call.pallet : Call R → Pallet
  | .TemplateModule _ => .TemplateModule
  | .OcwDemo _ => .OcwDemo
  | .OcwExample _ => .OcwExample

/-- A pallet takes part in its own calls only. -/
theorem label_of_ne {i : Pallet} {block : R.BlockNumber} {origin : RawOrigin R.AccountId}
    {call : Call R} {result : Except call.Error Unit} (hsystem : i ≠ .System)
    (hi : call.pallet ≠ i) : (component i).label (.dispatch block origin call result) = none := by
  cases i <;> cases call <;> first | rfl | exact absurd rfl hsystem | exact absurd rfl hi

/-- Two logs with the same events of every pallet are the same up to their order. -/
theorem events_perm {es es' : List (Event R)}
    (htemplate : es.filterMap Event.templateModule = es'.filterMap Event.templateModule)
    (hocw : es.filterMap Event.ocwDemo = es'.filterMap Event.ocwDemo)
    (hexample : es.filterMap Event.ocwExample = es'.filterMap Event.ocwExample) :
    es.Perm es' := by
  classical
  rw [List.perm_iff_count]
  intro event
  cases event with
  | TemplateModule event =>
      refine count_eq_of_view (f := event) (fun e => ?_) htemplate
      cases e <;> simp [Event.templateModule]
  | OcwDemo event =>
      refine count_eq_of_view (f := event) (fun e => ?_) hocw
      cases e <;> simp [Event.ocwDemo]
  | OcwExample event =>
      refine count_eq_of_view (f := event) (fun e => ?_) hexample
      cases e <;> simp [Event.ocwExample]

/-- **Calls of different pallets commute.** In every run of the chain, two calls of different
pallets that follow one another in a block can change places, with their results. At the end of the
run none of the three pallets sees a difference; of `System`, the block number is the same, and the
log holds the same events of the pallets up to their order. A run is one of dispatched calls: the
nonces and fees of their signers, which keep two calls of one account in order, are not part of it.
Source: `construct_runtime!` -/
theorem calls_commute {s s' : Storage R} {tr₁ tr₂ : List (Label R)} {block : R.BlockNumber}
    {origin origin' : RawOrigin R.AccountId} {call call' : Call R}
    {result : Except call.Error Unit} {result' : Except call'.Error Unit}
    (hne : call.pallet ≠ call'.pallet)
    (hrun : run chainStep s (tr₁ ++ .dispatch block origin call result ::
      .dispatch block origin' call' result' :: tr₂) = some s') :
    ∃ s'', run chainStep s (tr₁ ++ .dispatch block origin' call' result' ::
        .dispatch block origin call result :: tr₂) = some s'' ∧
      s''.templateModule = s'.templateModule ∧ s''.ocwDemo = s'.ocwDemo ∧
      s''.ocwExample = s'.ocwExample ∧
      s''.blockNumber = s'.blockNumber ∧ s''.events.Perm s'.events := by
  have htrace : ∀ i, (component i).trace (tr₁ ++ .dispatch block origin call result ::
      .dispatch block origin' call' result' :: tr₂) =
      (component i).trace (tr₁ ++ .dispatch block origin' call' result' ::
        .dispatch block origin call result :: tr₂) := by
    intro i
    rw [Component.trace_append, Component.trace_append]
    congr 1
    by_cases hsystem : i = .System
    · subst hsystem
      rfl
    · unfold Component.trace
      by_cases hi : call.pallet = i
      · have hother : (component i).label (.dispatch block origin' call' result') = none :=
          label_of_ne hsystem (hi ▸ hne.symm)
        simp [List.filterMap_cons, hother]
      · have hother : (component i).label (.dispatch block origin call result) = none :=
          label_of_ne hsystem hi
        simp [List.filterMap_cons, hother]
  have hsome := runtime_composed.isSome_of_shuffle (by rw [hrun]; rfl) htrace
  obtain ⟨s'', hrun'⟩ := Option.isSome_iff_exists.mp hsome
  have hview := fun i => runtime_composed.view_eq_of_shuffle hrun' hrun (htrace i).symm
  have hlog : s''.events.Perm s'.events :=
    events_perm (congrArg Template.Storage.events (hview .TemplateModule))
      (congrArg Ocw.Storage.events (hview .OcwDemo))
      (congrArg ExampleOffchainWorker.Storage.events (hview .OcwExample))
  exact ⟨s'', hrun', hview .TemplateModule, hview .OcwDemo, hview .OcwExample, hview .System, hlog⟩

/-- An unsigned number and a value, in block 1. -/
def numberThenValue : List (Label noSignatures) :=
  [.dispatch 1 .none (.OcwDemo (.submitNumberUnsigned 7)) (.ok ()),
    .dispatch 1 (.signed noSignatures.defaultAccountId) (.TemplateModule (.doSomething 42))
      (.ok ())]

theorem calls_commute_numberThenValue :
    ∃ s s'', run chainStep (Storage.empty 1) numberThenValue = some s ∧
      run chainStep (Storage.empty 1)
        [.dispatch 1 (.signed noSignatures.defaultAccountId) (.TemplateModule (.doSomething 42))
            (.ok ()),
          .dispatch 1 .none (.OcwDemo (.submitNumberUnsigned 7)) (.ok ())] = some s'' ∧
      s''.templateModule = s.templateModule ∧ s''.ocwDemo = s.ocwDemo ∧
      s''.events.Perm s.events := by
  obtain ⟨s, hrun⟩ : ∃ s, run chainStep (Storage.empty 1) numberThenValue = some s := ⟨_, rfl⟩
  obtain ⟨s'', hrun', htemplate, hocw, -, -, hlog⟩ := @calls_commute _ _ _ [] [] _ _ _ _ _ _ _
    (by simp [Call.pallet]) hrun
  exact ⟨s, s'', hrun, hrun', htemplate, hocw, hlog⟩

/-! ## The event log -/

/-- The events of a call that succeeds. -/
def Call.deposits (origin : RawOrigin R.AccountId) : Call R → List (Event R)
  | .TemplateModule call => (call.event origin).map .TemplateModule
  | .OcwDemo call =>
      (call.recordedFor origin).toList.map fun who => .OcwDemo (.NewNumber who call.number)
  | .OcwExample call =>
      (call.recordedFor origin).toList.map fun who => .OcwExample (.NewPrice call.price who)

/-- The events of a step. -/
def Label.deposited : Label R → List (Event R)
  | .dispatch _ origin call (.ok ()) => call.deposits origin
  | _ => []

section events

variable {s s' : Storage R} {origin : RawOrigin R.AccountId}

/-- What one call adds to the event log. -/
theorem events_of_dispatch (block : R.BlockNumber) (hn : s.blockNumber ≠ 0)
    (hbounded : s.prices.length ≤ ExampleOffchainWorker.MAX_LEN) {call : Call R}
    {result : Except call.Error Unit} (h : dispatch s origin call = .ok (result, s')) :
    s'.events = s.events ++ (Label.dispatch block origin call result).deposited := by
  cases call with
  | TemplateModule call =>
      obtain ⟨rfl, rfl⟩ := Prod.ext_iff.mp (Except.ok.inj h)
      have hempty : (s.templateModule.withEvents []).blockNumber ≠ 0 := hn
      dsimp only [Storage.writeTemplateModule]
      rw [Template.dispatch_eq]
      cases hout : call.outcome (s.templateModule.withEvents []).something origin with
      | error e => rfl
      | ok new =>
          congr 2
          cases call <;> cases origin <;> try rfl
          exact depositEvent_of_ne_zero hempty _ _
  | OcwDemo call =>
      obtain ⟨rfl, rfl⟩ := Prod.ext_iff.mp (Except.ok.inj h)
      have hempty : (s.ocwDemo.withEvents []).blockNumber ≠ 0 := hn
      dsimp only [Storage.writeOcwDemo]
      rw [Ocw.dispatch_eq]
      cases hwho : call.recordedFor origin with
      | none => rfl
      | some who =>
          show _ = s.events ++ (call.recordedFor origin).toList.map _
          rw [hwho]
          exact congrArg (fun es => s.events ++ es.map Event.OcwDemo)
            (depositEvent_of_ne_zero hempty [] (.NewNumber who call.number))
  | OcwExample call =>
      obtain ⟨⟨r, t⟩, hr, h⟩ := bind_eq_ok.mp h
      obtain ⟨rfl, rfl⟩ := Prod.ext_iff.mp (Except.ok.inj h)
      have hempty : (s.ocwExample.withEvents []).blockNumber ≠ 0 := hn
      have hbounded' : (s.ocwExample.withEvents []).prices.length ≤
          ExampleOffchainWorker.MAX_LEN := hbounded
      rw [ExampleOffchainWorker.dispatch_eq_ok hbounded', Except.ok.injEq] at hr
      dsimp only [Storage.writeOcwExample]
      cases hwho : call.recordedFor origin with
      | none =>
          rw [hwho] at hr
          cases hr
          rfl
      | some who =>
          rw [hwho] at hr
          cases hr
          show _ = s.events ++ (call.recordedFor origin).toList.map _
          rw [hwho]
          exact congrArg (fun es => s.events ++ es.map Event.OcwExample)
            (depositEvent_of_ne_zero hempty [] (.NewPrice call.price who))

/-- **The event log.** After every run of the chain from a block other than the genesis block, the
events that the three pallets have deposited, block after block, are those of the calls that
succeeded, in the order of the calls.
Source: `construct_runtime!`, `deposit_event` -/
theorem events_of_run {b₀ : R.BlockNumber} {tr : List (Label R)} (hb₀ : b₀ ≠ 0)
    (hrun : run chainStep (Storage.empty b₀) tr = some s) :
    s.events = tr.flatMap Label.deposited := by
  have hinv : s.blockNumber ≠ 0 ∧ s.prices.length ≤ ExampleOffchainWorker.MAX_LEN ∧
      s.events = tr.flatMap Label.deposited := by
    refine run_history (P := fun tr t => t.blockNumber ≠ 0 ∧
      t.prices.length ≤ ExampleOffchainWorker.MAX_LEN ∧ t.events = tr.flatMap Label.deposited)
      ⟨hb₀, Nat.zero_le _, rfl⟩ ?_ hrun
    rintro tr t l u ⟨hn, hbounded, hevents⟩ hstep
    have hbounded' := bounded_of_run hbounded (run_cons_eq_some.mpr ⟨u, hstep, run_nil u⟩)
    rw [List.flatMap_append, ← hevents]
    cases l with
    | beginBlock n =>
        rw [chainStep, Option.ite_none_right_eq_some, Option.some.injEq] at hstep
        obtain ⟨hlt, rfl⟩ := hstep
        refine ⟨?_, hbounded, (List.append_nil _).symm⟩
        rintro rfl
        exact BitVec.not_lt_zero hlt
    | dispatch block origin call result =>
        obtain ⟨-, -, hcall⟩ := chainStep_dispatch_eq_some.mp hstep
        have hnumber := number_of_dispatch hcall
        refine ⟨hnumber ▸ hn, hbounded', ?_⟩
        rw [events_of_dispatch block hn hbounded hcall]
        simp
  exact hinv.2.2

end events

theorem events_of_run_numberThenValue :
    ∃ s, run chainStep (Storage.empty 1) numberThenValue = some s ∧
      s.events = [.OcwDemo (.NewNumber none 7),
        .TemplateModule (.SomethingStored 42 noSignatures.defaultAccountId)] := by
  obtain ⟨s, hrun⟩ : ∃ s, run chainStep (Storage.empty 1) numberThenValue = some s := ⟨_, rfl⟩
  exact ⟨s, hrun, events_of_run (by decide) hrun⟩

end OffchainPallets.ConstructRuntime
