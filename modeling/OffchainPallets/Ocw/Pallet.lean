import Mathlib.Tactic.Common
import OffchainPallets.Frame
import OffchainPallets.Lib.Buffers

/-!
# `pallet-ocw`: storage, calls and the unsigned validator

The on-chain part of the offchain worker demo, function by function from `pallets/ocw/src/lib.rs`:
the bounded list `Numbers`, the three dispatchables that append to it, and the validator of the
unsigned ones. Nothing here can panic. `dispatch_eq` says everything a call can do.
-/

namespace OffchainPallets.Ocw

open Lib

/-- The pallet's `Config`.
Source: `Config` -/
structure Config extends System where
  /-- `AuthorityId: AppCrypto`: `verify(encoded payload, public, signature)`. -/
  authorityVerify : List UInt8 → Public → Signature → Bool

variable {T : Config}

/-- Source: `NUM_VEC_LEN` -/
def NUM_VEC_LEN : ℕ := 10

/-- Source: `UNSIGNED_TXS_PRIORITY` -/
def UNSIGNED_TXS_PRIORITY : UInt64 := 100

/-- Source: `Payload` -/
structure Payload (T : Config) where
  number : UInt64
  «public» : T.Public

/-- The derived SCALE encoding: the fields in order.
Source: `Payload` -/
def Payload.encode (p : Payload T) : List UInt8 :=
  Codec.u64.encode p.number ++ T.publicCodec.encode p.public

/-- `SignedPayload::verify`: the signature is checked against the encoding of the payload and the
payload's own public key.
Source: `Payload` -/
def Payload.verify (p : Payload T) (signature : T.Signature) : Bool :=
  T.authorityVerify p.encode p.public signature

/-- Source: `Call` -/
inductive Call (T : Config) where
  | submitNumberSigned (number : UInt64)
  | submitNumberUnsigned (number : UInt64)
  | submitNumberUnsignedWithSignedPayload (payload : Payload T) (signature : T.Signature)

/-- Source: `Event` -/
inductive Event (T : Config) where
  | NewNumber (who : Option T.AccountId) (number : UInt64)

/-- The storage the pallet works on.
Source: `Numbers` -/
structure Storage (T : Config) where
  /-- `frame_system::Pallet::block_number()`. -/
  blockNumber : T.BlockNumber
  numbers : List UInt64
  /-- The events deposited so far, over all blocks. -/
  events : List (Event T)

/-- Empty storage in a block. -/
def Storage.empty (blockNumber : T.BlockNumber) : Storage T := ⟨blockNumber, [], []⟩

/-! ## Dispatchables -/

/-- Drop the head of the list at the bound, then append.
Source: `append_or_replace_number` -/
def appendOrReplaceNumber (s : Storage T) (number : UInt64) : Storage T :=
  let numbers := if s.numbers.length = NUM_VEC_LEN then s.numbers.tail else s.numbers
  { s with numbers := numbers ++ [number] }

/-- `Self::deposit_event`. -/
def Storage.deposit (s : Storage T) (event : Event T) : Storage T :=
  { s with events := depositEvent s.blockNumber s.events event }

/-- Source: `submit_number_signed` -/
def submitNumberSigned (s : Storage T) (origin : RawOrigin T.AccountId) (number : UInt64) :
    DispatchResult × Storage T :=
  match ensureSigned origin with
  | .error e => (.error e, s)
  | .ok who => (.ok (), (appendOrReplaceNumber s number).deposit (.NewNumber (some who) number))

/-- Source: `submit_number_unsigned` -/
def submitNumberUnsigned (s : Storage T) (origin : RawOrigin T.AccountId) (number : UInt64) :
    DispatchResult × Storage T :=
  match ensureNone origin with
  | .error e => (.error e, s)
  | .ok () => (.ok (), (appendOrReplaceNumber s number).deposit (.NewNumber none number))

/-- Source: `submit_number_unsigned_with_signed_payload` -/
def submitNumberUnsignedWithSignedPayload (s : Storage T) (origin : RawOrigin T.AccountId)
    (payload : Payload T) (_signature : T.Signature) : DispatchResult × Storage T :=
  match ensureNone origin with
  | .error e => (.error e, s)
  | .ok () =>
      (.ok (), (appendOrReplaceNumber s payload.number).deposit (.NewNumber none payload.number))

/-- A call with its origin.
Source: `Call` -/
def dispatch (s : Storage T) (origin : RawOrigin T.AccountId) :
    Call T → DispatchResult × Storage T
  | .submitNumberSigned number => submitNumberSigned s origin number
  | .submitNumberUnsigned number => submitNumberUnsigned s origin number
  | .submitNumberUnsignedWithSignedPayload payload signature =>
      submitNumberUnsignedWithSignedPayload s origin payload signature

/-! ## The unsigned validator -/

/-- `valid_tx`: the tag is an array of one byte string.
Source: `validate_unsigned` -/
def validTx (provide : String) : TransactionValidity :=
  ((((withTagPrefix "ocw-demo").priority UNSIGNED_TXS_PRIORITY).andProvides
    (Codec.compactEncode provide.toUTF8.data.toList.length ++
      provide.toUTF8.data.toList)).longevity 3).propagate true |>.build

/-- Source: `validate_unsigned` -/
def validateUnsigned : Call T → TransactionValidity
  | .submitNumberUnsigned _ => validTx "submit_number_unsigned"
  | .submitNumberUnsignedWithSignedPayload payload signature =>
      if !payload.verify signature then .error .badProof
      else validTx "submit_number_unsigned_with_signed_payload"
  | .submitNumberSigned _ => .error .call

/-- The tag of the calls of one kind: the prefix, then the name of the kind.
Source: `validate_unsigned` -/
def providedTag (provide : String) : TransactionTag :=
  Codec.compactEncode (withTagPrefix "ocw-demo").tagPrefix.length ++
    (withTagPrefix "ocw-demo").tagPrefix ++
    (Codec.compactEncode provide.toUTF8.data.toList.length ++ provide.toUTF8.data.toList)

theorem provides_of_validTx {provide : String} {v : ValidTransaction}
    (h : validTx provide = .ok v) : v.provides = [providedTag provide] := by
  cases h
  rfl

/-! ## What a call does -/

/-- The number a call submits. Source: `Call` -/
def Call.number : Call T → UInt64
  | .submitNumberSigned number => number
  | .submitNumberUnsigned number => number
  | .submitNumberUnsignedWithSignedPayload payload _ => payload.number

/-- The `who` a call is recorded with under an origin, `none` when the origin is wrong for it. -/
def Call.recordedFor : Call T → RawOrigin T.AccountId → Option (Option T.AccountId)
  | .submitNumberSigned _, .signed who => some (some who)
  | .submitNumberUnsigned _, .none => some none
  | .submitNumberUnsignedWithSignedPayload _ _, .none => some none
  | _, _ => none

/-- The storage after a successful call. -/
def Storage.submitted (s : Storage T) (number : UInt64) (who : Option T.AccountId) :
    Storage T where
  blockNumber := s.blockNumber
  numbers := pushBounded NUM_VEC_LEN s.numbers number
  events := depositEvent s.blockNumber s.events (.NewNumber who number)

/-- **Everything a call can do**: append its number and record it, or fail on its origin and leave
the storage as it is. -/
theorem dispatch_eq (s : Storage T) (origin : RawOrigin T.AccountId) (c : Call T) :
    dispatch s origin c = (c.recordedFor origin).elim (.error .badOrigin, s)
      fun who => (.ok (), s.submitted c.number who) := by
  cases c <;> cases origin <;> rfl

/-- The storage with another event log. -/
def Storage.withEvents (s : Storage T) (events : List (Event T)) : Storage T :=
  { s with events := events }

/-- A call only appends to the event log. -/
theorem dispatch_withEvents (s : Storage T) (origin : RawOrigin T.AccountId) (c : Call T) :
    dispatch s origin c =
      ((dispatch (s.withEvents []) origin c).1, (dispatch (s.withEvents []) origin c).2.withEvents
        (s.events ++ (dispatch (s.withEvents []) origin c).2.events)) := by
  rw [dispatch_eq, dispatch_eq]
  cases c.recordedFor origin with
  | none => simp [Storage.withEvents]
  | some who =>
      simp only [Option.elim_some, Prod.mk.injEq, true_and]
      simp only [Storage.submitted, Storage.withEvents, Storage.mk.injEq, true_and]
      exact depositEvent_append _ _ _

theorem blockNumber_of_dispatch (s : Storage T) (origin : RawOrigin T.AccountId) (c : Call T) :
    (dispatch s origin c).2.blockNumber = s.blockNumber := by
  rw [dispatch_eq]
  cases c.recordedFor origin <;> rfl

end OffchainPallets.Ocw
