import OffchainPallets.ExampleOffchainWorker.Pallet
import OffchainPallets.Lib.Gate

/-!
# Runs of the price oracle

`step` is the transition system of the pallet: a new block with a larger number begins, or a call
is dispatched with any origin. `chainStep` is the one of the chain, where the runtime dispatches an
unsigned call only if `validate_unsigned` accepts it in the state just before (the default
`pre_dispatch` of `ValidateUnsigned`). Labels carry what is observed: the block in which a call is
dispatched, and its result.

The chain refines an admission gate (`chainStep_sim`, `chain_sim`): the clock is the block number,
the opening time is `NextUnsignedAt`, and an applied unsigned submission is an admission with the
claimed block number as its claim. What the validator says to a call is how the gate looks at its
claim (`verdict_eq_phase`). The rate limit, the life cycle and the sessions of the gate are then
results about the pallet.

The refinement is to natural numbers, so it needs that `block number + UnsignedInterval` does not
wrap (`Fits`).
-/

namespace OffchainPallets.ExampleOffchainWorker

open Lib

variable {T : Config}

/-- An observed step. -/
inductive Label (T : Config) where
  /-- A block with this number begins. -/
  | beginBlock (n : T.BlockNumber)
  /-- A call is dispatched in a block and returns a result. -/
  | dispatch (block : T.BlockNumber) (origin : RawOrigin T.AccountId) (call : Call T)
      (result : DispatchResult)

/-- One step of the pallet: block numbers increase, and any origin may dispatch any call. A call
that panics gives no step. -/
def step (s : Storage T) : Label T → Option (Storage T)
  | .beginBlock n => if s.blockNumber < n then some (s.beginBlock n) else none
  | .dispatch block origin call result =>
      match dispatch s origin call with
      | .ok (r, s') => if block = s.blockNumber ∧ r = result then some s' else none
      | .error _ => none

/-- `pre_dispatch`: an unsigned call has to be valid in the current state. -/
def preDispatch (s : Storage T) (call : Call T) : RawOrigin T.AccountId → Bool
  | .none =>
      match validateUnsigned s call with
      | .ok (.ok _) => true
      | _ => false
  | _ => true

/-- One step of the chain: as `step`, but unsigned calls are checked before. -/
def chainStep (s : Storage T) : Label T → Option (Storage T)
  | .beginBlock n => step s (.beginBlock n)
  | .dispatch block origin call result =>
      if preDispatch s call origin then step s (.dispatch block origin call result) else none

/-- The blocks in which an unsigned submission was applied, in order. -/
def appliedUnsigned (tr : List (Label T)) : List T.BlockNumber :=
  tr.filterMap fun
    | .dispatch block .none _ (.ok ()) => some block
    | _ => none

/-- The prices of the calls that returned `Ok`, in order. -/
def submittedPrices (tr : List (Label T)) : List UInt32 :=
  tr.filterMap fun
    | .dispatch _ _ call (.ok ()) => some call.price
    | _ => none

/-! ## Everything a step can do -/

theorem step_beginBlock_eq_some {s s' : Storage T} {n : T.BlockNumber} :
    step s (.beginBlock n) = some s' ↔ s.blockNumber < n ∧ s' = s.beginBlock n := by
  rw [step, Option.ite_none_right_eq_some, Option.some.injEq, eq_comm (a := s')]

theorem step_dispatch_eq_some {s s' : Storage T} {block : T.BlockNumber}
    {origin : RawOrigin T.AccountId} {call : Call T} {result : DispatchResult} :
    step s (.dispatch block origin call result) = some s' ↔
      block = s.blockNumber ∧ dispatch s origin call = .ok (result, s') := by
  rw [step]
  cases dispatch s origin call with
  | error e => simp
  | ok r =>
      rw [Option.ite_none_right_eq_some, and_assoc, Option.some.injEq, Except.ok.injEq,
        Prod.ext_iff]

/-- With at most `MAX_LEN` prices stored, which no step changes, nothing panics. -/
theorem step_eq_some {s s' : Storage T} (h : s.prices.length ≤ MAX_LEN) {l : Label T} :
    step s l = some s' ↔
      match l with
      | .beginBlock n => s.blockNumber < n ∧ s' = s.beginBlock n
      | .dispatch block origin call result =>
          block = s.blockNumber ∧
            ((call.recordedFor origin = none ∧ result = .error .badOrigin ∧ s' = s) ∨
              ∃ who, call.recordedFor origin = some who ∧ result = .ok () ∧
                s' = s.submitted call who) := by
  cases l with
  | beginBlock n => exact step_beginBlock_eq_some
  | dispatch block origin call result =>
      rw [step_dispatch_eq_some, dispatch_eq_ok h, Except.ok.injEq]
      apply and_congr_right
      intro _
      generalize call.recordedFor origin = rec
      cases rec with
      | none => simp [Prod.ext_iff, eq_comm]
      | some who => simp [Prod.ext_iff, eq_comm]

theorem step_bounded {s s' : Storage T} {l : Label T} (h : s.prices.length ≤ MAX_LEN)
    (hstep : step s l = some s') : s'.prices.length ≤ MAX_LEN := by
  rw [step_eq_some h] at hstep
  cases l with
  | beginBlock n => obtain ⟨-, rfl⟩ := hstep; exact h
  | dispatch block origin call result =>
      rcases hstep with ⟨-, ⟨-, -, rfl⟩ | ⟨who, -, -, rfl⟩⟩
      · exact h
      · exact length_insertSlot_le h call.price

/-- A step leaves `NextUnsignedAt` or starts a new cool-down. -/
theorem nextUnsignedAt_of_step {s s' : Storage T} {l : Label T} (h : s.prices.length ≤ MAX_LEN)
    (hstep : step s l = some s') :
    s'.nextUnsignedAt = s.nextUnsignedAt ∨
      s'.nextUnsignedAt = s.blockNumber + T.unsignedInterval := by
  rw [step_eq_some h] at hstep
  cases l with
  | beginBlock n =>
      obtain ⟨-, rfl⟩ := hstep
      exact Or.inl rfl
  | dispatch block origin call result =>
      rcases hstep with ⟨-, ⟨-, -, rfl⟩ | ⟨who, -, -, rfl⟩⟩
      · exact Or.inl rfl
      · unfold Storage.submitted
        split_ifs with hunsigned
        · exact Or.inr rfl
        · exact Or.inl rfl

/-- A step of the chain is a step of the pallet. -/
theorem step_of_chainStep {s s' : Storage T} {l : Label T} (h : chainStep s l = some s') :
    step s l = some s' := by
  cases l with
  | beginBlock n => exact h
  | dispatch block origin call result =>
      simp only [chainStep, Option.ite_none_right_eq_some] at h
      exact h.2

/-- An unsigned call that is applied was valid: its claim lies between `NextUnsignedAt` and the
current block. -/
theorem claim_of_chainStep {s s' : Storage T} (h : s.prices.length ≤ MAX_LEN)
    {block : T.BlockNumber} {call : Call T} {result : DispatchResult}
    (hstep : chainStep s (.dispatch block .none call result) = some s') :
    ∃ b, call.claim = some b ∧ s.nextUnsignedAt ≤ b ∧ b ≤ s.blockNumber := by
  rw [chainStep, Option.ite_none_right_eq_some] at hstep
  have hpre := hstep.1
  unfold preDispatch at hpre
  split at hpre
  · split at hpre
    · rename_i v hv
      obtain ⟨b, hb, hnext, hcur, -⟩ := (validateUnsigned_eq_valid_iff h).mp hv
      exact ⟨b, hb, hnext, hcur⟩
    · cases hpre
  · rename_i hne
    exact absurd rfl hne

/-! ## The chain is an admission gate -/

/-- `n + UnsignedInterval` does not overflow. -/
def Fits (T : Config) (n : T.BlockNumber) : Prop :=
  n.toNat + T.unsignedInterval.toNat < 2 ^ (8 * T.blockNumberBytes)

/-- Earlier blocks have room too. -/
theorem Fits.of_le {m n : T.BlockNumber} (h : Fits T n) (hle : m ≤ n) : Fits T m := by
  have hmn : m.toNat ≤ n.toNat := BitVec.le_def.mp hle
  unfold Fits at h ⊢
  omega

/-- No block of a run is so late that adding `UnsignedInterval` overflows. -/
def NoOverflow (tr : List (Label T)) : Prop := ∀ n, Label.beginBlock n ∈ tr → Fits T n

/-- What every state of a run satisfies: no call panics, and the next `NextUnsignedAt` does not
wrap. -/
structure Sound (s : Storage T) : Prop where
  bounded : s.prices.length ≤ MAX_LEN
  fits : Fits T s.blockNumber

theorem Sound.empty {b₀ : T.BlockNumber} (h : Fits T b₀) : Sound (Storage.empty b₀) :=
  ⟨Nat.zero_le _, h⟩

/-- The state of the chain as a gate. -/
def gateOf (s : Storage T) : Gate ℕ := ⟨s.blockNumber.toNat, s.nextUnsignedAt.toNat⟩

/-- A step of the chain as a step of the gate. -/
def gateLabel : Label T → Gate.Label ℕ
  | .beginBlock n => .advance n.toNat
  | .dispatch block .none call (.ok ()) => .enter block.toNat (call.claim.getD block).toNat
  | _ => .other

theorem admitted_map_gateLabel (tr : List (Label T)) :
    Gate.admitted (tr.map gateLabel) = (appliedUnsigned tr).map BitVec.toNat := by
  rw [Gate.admitted, appliedUnsigned, List.filterMap_map, List.map_filterMap]
  congr 1
  funext l
  cases l with
  | beginBlock n => rfl
  | dispatch block origin call result => cases origin <;> cases result <;> rfl

/-- **One step.** A step of the chain keeps `Sound` and is a step of the gate. -/
theorem chainStep_sim {s s' : Storage T} {l : Label T} (hs : Sound s)
    (hfit : ∀ n, l = .beginBlock n → Fits T n) (hstep : chainStep s l = some s') :
    Sound s' ∧ Gate.step T.unsignedInterval.toNat (gateOf s) (gateLabel l) = some (gateOf s') := by
  have hbounded := step_bounded hs.bounded (step_of_chainStep hstep)
  have hinv := (step_eq_some hs.bounded).mp (step_of_chainStep hstep)
  cases l with
  | beginBlock n =>
      obtain ⟨hlt, rfl⟩ := hinv
      refine ⟨⟨hbounded, hfit n rfl⟩, Gate.step_eq_some.mpr ⟨?_, rfl⟩⟩
      exact BitVec.lt_def.mp hlt
  | dispatch block origin call result =>
      rcases hinv with ⟨rfl, ⟨-, rfl, rfl⟩ | ⟨who, hwho, rfl, rfl⟩⟩
      · -- the origin was wrong: nothing changed
        have hlab : gateLabel (.dispatch s'.blockNumber origin call (.error .badOrigin)) =
            Gate.Label.other := by cases origin <;> rfl
        exact ⟨hs, by rw [hlab]; rfl⟩
      · refine ⟨⟨hbounded, hs.fits⟩, ?_⟩
        cases origin with
        | root => cases call <;> cases hwho
        | signed who' =>
            -- a signed submission does not touch `NextUnsignedAt`
            cases call with
            | submitPrice price => rfl
            | submitPriceUnsigned b price => cases hwho
            | submitPriceUnsignedWithSignedPayload p sig => cases hwho
        | none =>
            obtain ⟨b, hb, hnext, hcur⟩ := claim_of_chainStep hs.bounded hstep
            have hsum : (s.blockNumber + T.unsignedInterval).toNat =
                s.blockNumber.toNat + T.unsignedInterval.toNat := by
              rw [BitVec.toNat_add, Nat.mod_eq_of_lt hs.fits]
            refine Gate.step_eq_some.mpr ⟨rfl, ?_, ?_, ?_⟩
            · rw [hb]
              exact BitVec.le_def.mp hnext
            · rw [hb]
              exact BitVec.le_def.mp hcur
            · simp [gateOf, Storage.submitted, Call.isUnsigned_of_claim hb, hsum]

/-- **The chain refines the gate.** -/
theorem chain_sim {s s' : Storage T} {tr : List (Label T)} (hs : Sound s) (hfit : NoOverflow tr)
    (hrun : run chainStep s tr = some s') :
    Sound s' ∧ run (Gate.step T.unsignedInterval.toNat) (gateOf s) (tr.map gateLabel) =
      some (gateOf s') :=
  run_sim (C := fun l => ∀ n, l = .beginBlock n → Fits T n)
    (fun _ _ _ ht hl hstep => chainStep_sim ht hl hstep)
    (fun _ hl n hn => hfit n (hn ▸ hl)) hs hrun

/-! ## Verdicts -/

/-- What `validate_unsigned` says to a call, as long as it is about the block number the call
claims; `none` for a call it refuses for another reason. -/
def verdict (s : Storage T) (c : Call T) : Option Gate.Phase :=
  match validateUnsigned s c with
  | .ok (.ok _) => some .valid
  | .ok (.error .stale) => some .stale
  | .ok (.error .future) => some .future
  | _ => none

/-- The verdict on a call is how the gate looks at its claim. -/
theorem verdict_eq_phase {s : Storage T} (h : s.prices.length ≤ MAX_LEN) {c : Call T}
    {b : T.BlockNumber} (hc : c.claim = some b) :
    verdict s c = some ((gateOf s).phase b.toNat) := by
  rw [verdict, validateUnsigned_of_claim h hc]
  simp only [Gate.phase, gateOf, ← BitVec.lt_def]
  split_ifs <;> rfl

/-- A call is valid in a state exactly when its verdict is. -/
theorem verdict_eq_valid_iff {s : Storage T} {c : Call T} :
    verdict s c = some .valid ↔ ∃ v, validateUnsigned s c = .ok (.ok v) := by
  unfold verdict
  split <;> simp_all

end OffchainPallets.ExampleOffchainWorker
