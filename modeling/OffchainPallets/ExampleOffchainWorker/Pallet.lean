import Mathlib.Tactic.Common
import OffchainPallets.Frame
import OffchainPallets.Lib.Buffers

/-!
# `pallet-example-offchain-worker`: storage, calls and the unsigned validator

The on-chain part of the price oracle, function by function from
`pallets/example-offchain-worker/src/lib.rs`.

* `Storage` — `Prices` and `NextUnsignedAt`, with the block number and the event log of
  `frame_system` that the pallet reads and writes. The log runs over all blocks: it is the
  concatenation of what `System::Events` holds at the end of each.
* `addPrice`, `averagePrice`, the three dispatchables and `dispatch`.
* `validateTransactionParameters`, `validateUnsigned`.

The panics are in the result types. `averagePrice_eq_ok` and `addPrice_eq_ok` are what the rest of
the development uses of them: neither panics while at most `MAX_LEN` prices are stored, and
`addPrice` is one `insertSlot` with the key `price % MAX_LEN`. `dispatch_eq_ok` says everything a
call can do, `validateUnsigned_eq_valid_iff` when an unsigned call is valid.
-/

namespace OffchainPallets.ExampleOffchainWorker

open Lib

/-- The pallet's `Config`.
Source: `Config` -/
structure Config extends System where
  /-- `AuthorityId: AppCrypto`: `verify(encoded payload, public, signature)`. -/
  authorityVerify : List UInt8 → Public → Signature → Bool
  gracePeriod : toSystem.BlockNumber
  unsignedInterval : toSystem.BlockNumber
  unsignedPriority : UInt64

variable {T : Config}

/-- Source: `PricePayload` -/
structure PricePayload (T : Config) where
  blockNumber : T.BlockNumber
  price : UInt32
  «public» : T.Public

/-- The derived SCALE encoding: the fields in order.
Source: `PricePayload` -/
def PricePayload.encode (p : PricePayload T) : List UInt8 :=
  (Codec.le T.blockNumberBytes).encode p.blockNumber ++ Codec.u32.encode p.price ++
    T.publicCodec.encode p.public

/-- `SignedPayload::verify`: the signature is checked against the encoding of the payload and the
payload's own public key.
Source: `PricePayload` -/
def PricePayload.verify (p : PricePayload T) (signature : T.Signature) : Bool :=
  T.authorityVerify p.encode p.public signature

/-- Source: `Call` -/
inductive Call (T : Config) where
  | submitPrice (price : UInt32)
  | submitPriceUnsigned (blockNumber : T.BlockNumber) (price : UInt32)
  | submitPriceUnsignedWithSignedPayload (pricePayload : PricePayload T) (signature : T.Signature)

/-- Source: `Event` -/
inductive Event (T : Config) where
  | NewPrice (price : UInt32) (who : T.AccountId)

/-- The storage the pallet works on.
Source: `Prices`, `NextUnsignedAt` -/
structure Storage (T : Config) where
  /-- `frame_system::Pallet::block_number()`. -/
  blockNumber : T.BlockNumber
  prices : List UInt32
  nextUnsignedAt : T.BlockNumber
  /-- The events deposited so far. -/
  events : List (Event T)

/-- Empty storage in a block: `Prices` empty, `NextUnsignedAt` zero. -/
def Storage.empty (blockNumber : T.BlockNumber) : Storage T := ⟨blockNumber, [], 0, []⟩

/-- A new block begins: only the block number changes. -/
def Storage.beginBlock (s : Storage T) (n : T.BlockNumber) : Storage T :=
  { s with blockNumber := n }

/-! ## Prices and their average -/

/-- Source: `add_price`, `MAX_LEN` -/
def MAX_LEN : ℕ := 64

/-- Source: `average_price` -/
def averagePrice (s : Storage T) : Except Panic (Option UInt32) :=
  if s.prices.isEmpty then .ok none
  else (divU32 (s.prices.foldl saturatingAdd 0) (UInt32.ofNat s.prices.length)).map some

/-- The new list of prices: append below `MAX_LEN`, else overwrite the slot `price % MAX_LEN`.
Source: `add_price` -/
def mutatePrices (prices : List UInt32) (price : UInt32) : Except Panic (List UInt32) :=
  if prices.length < MAX_LEN then .ok (prices ++ [price])
  else setIndex prices (price.toNat % MAX_LEN) price

/-- Source: `add_price` -/
def addPrice (s : Storage T) (who : T.AccountId) (price : UInt32) : Except Panic (Storage T) := do
  let prices ← mutatePrices s.prices price
  let s := { s with prices := prices }
  -- the average is computed for the log only, but may panic
  let _ ← expectSome (← averagePrice s)
  return { s with events := depositEvent s.blockNumber s.events (.NewPrice price who) }

/-! ## Dispatchables -/

/-- Source: `submit_price` -/
def submitPrice (s : Storage T) (origin : RawOrigin T.AccountId) (price : UInt32) :
    Except Panic (DispatchResult × Storage T) :=
  match ensureSigned origin with
  | .error e => .ok (.error e, s)
  | .ok who => do
      let s ← addPrice s who price
      return (.ok (), s)

/-- Source: `submit_price_unsigned` -/
def submitPriceUnsigned (s : Storage T) (origin : RawOrigin T.AccountId)
    (_blockNumber : T.BlockNumber) (price : UInt32) : Except Panic (DispatchResult × Storage T) :=
  match ensureNone origin with
  | .error e => .ok (.error e, s)
  | .ok () => do
      let s ← addPrice s T.defaultAccountId price
      let currentBlock := s.blockNumber
      return (.ok (), { s with nextUnsignedAt := currentBlock + T.unsignedInterval })

/-- Source: `submit_price_unsigned_with_signed_payload` -/
def submitPriceUnsignedWithSignedPayload (s : Storage T) (origin : RawOrigin T.AccountId)
    (pricePayload : PricePayload T) (_signature : T.Signature) :
    Except Panic (DispatchResult × Storage T) :=
  match ensureNone origin with
  | .error e => .ok (.error e, s)
  | .ok () => do
      let s ← addPrice s T.defaultAccountId pricePayload.price
      let currentBlock := s.blockNumber
      return (.ok (), { s with nextUnsignedAt := currentBlock + T.unsignedInterval })

/-- A call with its origin.
Source: `Call` -/
def dispatch (s : Storage T) (origin : RawOrigin T.AccountId) :
    Call T → Except Panic (DispatchResult × Storage T)
  | .submitPrice price => submitPrice s origin price
  | .submitPriceUnsigned blockNumber price => submitPriceUnsigned s origin blockNumber price
  | .submitPriceUnsignedWithSignedPayload pricePayload signature =>
      submitPriceUnsignedWithSignedPayload s origin pricePayload signature

/-! ## The unsigned validator -/

/-- Source: `validate_transaction_parameters` -/
def validateTransactionParameters (s : Storage T) (blockNumber : T.BlockNumber)
    (newPrice : UInt32) : Except Panic TransactionValidity :=
  if blockNumber < s.nextUnsignedAt then .ok (.error .stale)
  else if s.blockNumber < blockNumber then .ok (.error .future)
  else do
    let average ← averagePrice s
    let avgPrice := (average.map fun price =>
      if newPrice < price then price - newPrice else newPrice - price).getD 0
    return ((((withTagPrefix "ExampleOffchainWorker").priority
      (saturatingAdd64 T.unsignedPriority avgPrice.toUInt64)).andProvides
      ((Codec.le T.blockNumberBytes).encode s.nextUnsignedAt)).longevity 5).propagate true |>.build

/-- Source: `validate_unsigned` -/
def validateUnsigned (s : Storage T) : Call T → Except Panic TransactionValidity
  | .submitPriceUnsignedWithSignedPayload payload signature =>
      if !payload.verify signature then .ok (.error .badProof)
      else validateTransactionParameters s payload.blockNumber payload.price
  | .submitPriceUnsigned blockNumber newPrice =>
      validateTransactionParameters s blockNumber newPrice
  | .submitPrice _ => .ok (.error .call)

/-! ## What the functions do, in one equation each -/

/-- The slot of a price. Source: `add_price` -/
def slot (price : UInt32) : ℕ := price.toNat % MAX_LEN

theorem slot_lt (price : UInt32) : slot price < MAX_LEN := Nat.mod_lt _ (by decide)

/-- The average of a list of prices, without the panic. -/
def average (prices : List UInt32) : Option UInt32 :=
  if prices.isEmpty then none
  else some (prices.foldl saturatingAdd 0 / UInt32.ofNat prices.length)

/-- The division is never by zero: the list is not empty and its length fits a `u32`. -/
theorem averagePrice_eq_ok {s : Storage T} (h : s.prices.length ≤ MAX_LEN) :
    averagePrice s = .ok (average s.prices) := by
  unfold averagePrice average
  cases hs : s.prices with
  | nil => rfl
  | cons p ps =>
      rw [hs] at h
      have hne : UInt32.ofNat (p :: ps).length ≠ 0 := by
        have hlt : (p :: ps).length < 2 ^ 32 := h.trans_lt (by decide)
        intro h0
        have htoNat := congrArg UInt32.toNat h0
        rw [UInt32.toNat_ofNat_of_lt' hlt] at htoNat
        simp at htoNat
      simp only [List.isEmpty_cons, Bool.false_eq_true, if_false, divU32, if_neg hne]
      rfl

/-- The index is in range: the list has exactly `MAX_LEN` prices once it is not appended to. -/
theorem mutatePrices_eq_ok {prices : List UInt32} (h : prices.length ≤ MAX_LEN) (price : UInt32) :
    mutatePrices prices price = .ok (insertSlot MAX_LEN slot prices price) := by
  unfold mutatePrices insertSlot
  split_ifs with hlt
  · rfl
  · have hslot : price.toNat % MAX_LEN < prices.length := by
      have := slot_lt price
      unfold slot at this
      omega
    rw [setIndex, if_pos hslot]
    rfl

theorem insertSlot_ne_nil (prices : List UInt32) (price : UInt32) :
    insertSlot MAX_LEN slot prices price ≠ [] := by
  unfold insertSlot
  split_ifs with h
  · simp
  · intro hnil
    rw [List.set_eq_nil_iff] at hnil
    subst hnil
    exact h (by decide)

theorem length_insertSlot_le {prices : List UInt32} (h : prices.length ≤ MAX_LEN) (price : UInt32) :
    (insertSlot MAX_LEN slot prices price).length ≤ MAX_LEN := by
  unfold insertSlot
  split_ifs with hlt
  · rw [List.length_append, List.length_singleton]
    omega
  · rwa [List.length_set]

/-- `add_price` never panics on at most `MAX_LEN` prices: it is one `insertSlot` and one event. -/
theorem addPrice_eq_ok {s : Storage T} (h : s.prices.length ≤ MAX_LEN) (who : T.AccountId)
    (price : UInt32) :
    addPrice s who price = .ok { s with
      prices := insertSlot MAX_LEN slot s.prices price
      events := depositEvent s.blockNumber s.events (.NewPrice price who) } := by
  have havg : average (insertSlot MAX_LEN slot s.prices price) = some
      ((insertSlot MAX_LEN slot s.prices price).foldl saturatingAdd 0 /
        UInt32.ofNat (insertSlot MAX_LEN slot s.prices price).length) := by
    rw [average, if_neg]
    rw [List.isEmpty_iff]
    exact insertSlot_ne_nil s.prices price
  unfold addPrice
  rw [mutatePrices_eq_ok h]
  simp only [bind, Except.bind]
  rw [averagePrice_eq_ok (length_insertSlot_le h price), havg]
  rfl

/-- The price a call submits. Source: `Call` -/
def Call.price : Call T → UInt32
  | .submitPrice price => price
  | .submitPriceUnsigned _ price => price
  | .submitPriceUnsignedWithSignedPayload payload _ => payload.price

/-- The account a call is recorded for under an origin, `none` when the origin is wrong for it. -/
def Call.recordedFor : Call T → RawOrigin T.AccountId → Option T.AccountId
  | .submitPrice _, .signed who => some who
  | .submitPriceUnsigned _ _, .none => some T.defaultAccountId
  | .submitPriceUnsignedWithSignedPayload _ _, .none => some T.defaultAccountId
  | _, _ => none

/-- Whether a successful call starts a new cool-down. -/
def Call.isUnsigned : Call T → Bool
  | .submitPrice _ => false
  | _ => true

/-- The storage after a successful call. -/
def Storage.submitted (s : Storage T) (c : Call T) (who : T.AccountId) : Storage T where
  blockNumber := s.blockNumber
  prices := insertSlot MAX_LEN slot s.prices c.price
  nextUnsignedAt := if c.isUnsigned then s.blockNumber + T.unsignedInterval else s.nextUnsignedAt
  events := depositEvent s.blockNumber s.events (.NewPrice c.price who)

/-- **Everything a call can do**: record its price for an account, or fail on its origin and leave
the storage as it is. -/
theorem dispatch_eq_ok {s : Storage T} (h : s.prices.length ≤ MAX_LEN)
    (origin : RawOrigin T.AccountId) (c : Call T) :
    dispatch s origin c = .ok ((c.recordedFor origin).elim (.error .badOrigin, s)
      fun who => (.ok (), s.submitted c who)) := by
  cases c with
  | submitPrice price =>
      cases origin with
      | signed who =>
          simp only [dispatch, submitPrice, ensureSigned, addPrice_eq_ok h]
          rfl
      | root => rfl
      | none => rfl
  | submitPriceUnsigned b price =>
      cases origin with
      | none =>
          simp only [dispatch, submitPriceUnsigned, ensureNone, addPrice_eq_ok h]
          rfl
      | root => rfl
      | signed who => rfl
  | submitPriceUnsignedWithSignedPayload payload signature =>
      cases origin with
      | none =>
          simp only [dispatch, submitPriceUnsignedWithSignedPayload, ensureNone, addPrice_eq_ok h]
          rfl
      | root => rfl
      | signed who => rfl

/-! ## When an unsigned call is valid -/

/-- The block number an unsigned call claims; `none` for a signed call and for a payload whose
signature does not verify. -/
def Call.claim : Call T → Option T.BlockNumber
  | .submitPrice _ => none
  | .submitPriceUnsigned blockNumber _ => some blockNumber
  | .submitPriceUnsignedWithSignedPayload payload signature =>
      if payload.verify signature then some payload.blockNumber else none

theorem Call.isUnsigned_of_claim {c : Call T} {b : T.BlockNumber} (h : c.claim = some b) :
    c.isUnsigned = true := by
  cases c with
  | submitPrice price => cases h
  | submitPriceUnsigned b price => rfl
  | submitPriceUnsignedWithSignedPayload payload signature => rfl

/-- The tag a valid unsigned call provides: the prefix, then `NextUnsignedAt`.
Source: `validate_transaction_parameters` -/
def providedTag (next : T.BlockNumber) : TransactionTag :=
  Codec.compactEncode (withTagPrefix "ExampleOffchainWorker").tagPrefix.length ++
    (withTagPrefix "ExampleOffchainWorker").tagPrefix ++
    (Codec.le T.blockNumberBytes).encode next

/-- Two tags are equal only for one `NextUnsignedAt`. -/
theorem providedTag_injective : Function.Injective (providedTag (T := T)) := by
  intro m n h
  exact (Codec.le T.blockNumberBytes).encode_injective (List.append_cancel_left h)

/-- The distance of a price from the average, zero without an average.
Source: `validate_transaction_parameters` -/
def distance (avg : Option UInt32) (newPrice : UInt32) : UInt32 :=
  (avg.map fun price => if newPrice < price then price - newPrice else newPrice - price).getD 0

/-- What the validator returns for a call it accepts.
Source: `validate_transaction_parameters` -/
def validTransaction (s : Storage T) (newPrice : UInt32) : ValidTransaction where
  priority := saturatingAdd64 T.unsignedPriority (distance (average s.prices) newPrice).toUInt64
  provides := [providedTag s.nextUnsignedAt]
  longevity := 5
  propagate := true

theorem validateTransactionParameters_eq_ok {s : Storage T} (h : s.prices.length ≤ MAX_LEN)
    (b : T.BlockNumber) (newPrice : UInt32) :
    validateTransactionParameters s b newPrice =
      if b < s.nextUnsignedAt then .ok (.error .stale)
      else if s.blockNumber < b then .ok (.error .future)
      else .ok (.ok (validTransaction s newPrice)) := by
  unfold validateTransactionParameters
  rw [averagePrice_eq_ok h]
  rfl

/-- An unsigned call is judged by its claim and its price. -/
theorem validateUnsigned_of_claim {s : Storage T} (h : s.prices.length ≤ MAX_LEN) {c : Call T}
    {b : T.BlockNumber} (hc : c.claim = some b) :
    validateUnsigned s c =
      if b < s.nextUnsignedAt then .ok (.error .stale)
      else if s.blockNumber < b then .ok (.error .future)
      else .ok (.ok (validTransaction s c.price)) := by
  cases c with
  | submitPrice price => cases hc
  | submitPriceUnsigned b' price =>
      cases hc
      exact validateTransactionParameters_eq_ok h _ price
  | submitPriceUnsignedWithSignedPayload payload signature =>
      simp only [Call.claim, Option.ite_none_right_eq_some, Option.some.injEq] at hc
      obtain ⟨hver, rfl⟩ := hc
      rw [validateUnsigned, hver]
      exact validateTransactionParameters_eq_ok h payload.blockNumber payload.price

/-- A call without a claim is refused, whatever the state. -/
theorem validateUnsigned_of_claim_eq_none {c : Call T} (s : Storage T) (hc : c.claim = none) :
    validateUnsigned s c = .ok (.error .call) ∨ validateUnsigned s c = .ok (.error .badProof) := by
  cases c with
  | submitPrice price => exact Or.inl rfl
  | submitPriceUnsigned b price => cases hc
  | submitPriceUnsignedWithSignedPayload payload signature =>
      have hver : payload.verify signature = false := by
        simpa [Call.claim] using hc
      exact Or.inr (by rw [validateUnsigned, hver]; rfl)

/-- **When an unsigned call is valid**, and what the validator then says. -/
theorem validateUnsigned_eq_valid_iff {s : Storage T} (h : s.prices.length ≤ MAX_LEN) {c : Call T}
    {v : ValidTransaction} :
    validateUnsigned s c = .ok (.ok v) ↔
      ∃ b, c.claim = some b ∧ s.nextUnsignedAt ≤ b ∧ b ≤ s.blockNumber ∧
        v = validTransaction s c.price := by
  cases hc : c.claim with
  | none =>
      rcases validateUnsigned_of_claim_eq_none s hc with hv | hv <;> simp [hv]
  | some b =>
      rw [validateUnsigned_of_claim h hc]
      split_ifs with hstale hfuture
      · simp [hstale]
      · simp [hfuture]
      · rw [BitVec.not_lt] at hstale hfuture
        simp [hstale, hfuture, eq_comm]

/-! ## The event log -/

/-- The storage with another event log. -/
def Storage.withEvents (s : Storage T) (events : List (Event T)) : Storage T :=
  { s with events := events }

theorem addPrice_withEvents (s : Storage T) (who : T.AccountId) (price : UInt32) :
    addPrice s who price = (addPrice (s.withEvents []) who price).map fun s' =>
      s'.withEvents (s.events ++ s'.events) := by
  unfold addPrice
  show (mutatePrices s.prices price >>= _) = ((mutatePrices s.prices price >>= _).map _)
  cases mutatePrices s.prices price with
  | error e => rfl
  | ok prices =>
      show (averagePrice { s with prices := prices } >>= _) =
        (averagePrice { s with prices := prices } >>= _).map _
      cases averagePrice { s with prices := prices } with
      | error e => rfl
      | ok average =>
          show (expectSome average >>= _) = ((expectSome average >>= _).map _)
          cases expectSome average with
          | error e => rfl
          | ok a =>
              show Except.ok _ = Except.ok _
              rw [depositEvent_append]
              rfl

/-- A call only appends to the event log. -/
theorem dispatch_withEvents (s : Storage T) (origin : RawOrigin T.AccountId) (c : Call T) :
    dispatch s origin c = (dispatch (s.withEvents []) origin c).map fun r =>
      (r.1, r.2.withEvents (s.events ++ r.2.events)) := by
  have hrefused : ∀ e : DispatchError,
      (Except.ok (.error e, s) : Except Panic (DispatchResult × Storage T)) =
        (Except.ok (.error e, s.withEvents [])).map fun r =>
          (r.1, r.2.withEvents (s.events ++ r.2.events)) := by
    intro e
    simp [Except.map, Storage.withEvents]
  cases c with
  | submitPrice price =>
      cases origin with
      | signed who =>
          simp only [dispatch, submitPrice, ensureSigned]
          rw [addPrice_withEvents]
          cases addPrice (s.withEvents []) who price <;> rfl
      | root => exact hrefused _
      | none => exact hrefused _
  | submitPriceUnsigned b price =>
      cases origin with
      | none =>
          simp only [dispatch, submitPriceUnsigned, ensureNone]
          rw [addPrice_withEvents]
          cases addPrice (s.withEvents []) T.defaultAccountId price <;> rfl
      | root => exact hrefused _
      | signed who => exact hrefused _
  | submitPriceUnsignedWithSignedPayload payload signature =>
      cases origin with
      | none =>
          simp only [dispatch, submitPriceUnsignedWithSignedPayload, ensureNone]
          rw [addPrice_withEvents]
          cases addPrice (s.withEvents []) T.defaultAccountId payload.price <;> rfl
      | root => exact hrefused _
      | signed who => exact hrefused _

theorem blockNumber_of_addPrice {s s' : Storage T} {who : T.AccountId} {price : UInt32}
    (h : addPrice s who price = .ok s') : s'.blockNumber = s.blockNumber := by
  obtain ⟨prices, -, h⟩ := bind_eq_ok.mp h
  obtain ⟨average, -, h⟩ := bind_eq_ok.mp h
  obtain ⟨a, -, h⟩ := bind_eq_ok.mp h
  cases h
  rfl

/-- A call leaves the block number. -/
theorem blockNumber_of_dispatch {s s' : Storage T} {origin : RawOrigin T.AccountId} {c : Call T}
    {r : DispatchResult} (h : dispatch s origin c = .ok (r, s')) :
    s'.blockNumber = s.blockNumber := by
  cases c with
  | submitPrice price =>
      cases origin with
      | signed who =>
          obtain ⟨t, ht, h⟩ := bind_eq_ok.mp h
          cases h
          exact blockNumber_of_addPrice ht
      | root => cases h; rfl
      | none => cases h; rfl
  | submitPriceUnsigned b price =>
      cases origin with
      | none =>
          obtain ⟨t, ht, h⟩ := bind_eq_ok.mp h
          cases h
          show t.blockNumber = s.blockNumber
          exact blockNumber_of_addPrice ht
      | root => cases h; rfl
      | signed who => cases h; rfl
  | submitPriceUnsignedWithSignedPayload payload signature =>
      cases origin with
      | none =>
          obtain ⟨t, ht, h⟩ := bind_eq_ok.mp h
          cases h
          show t.blockNumber = s.blockNumber
          exact blockNumber_of_addPrice ht
      | root => cases h; rfl
      | signed who => cases h; rfl

end OffchainPallets.ExampleOffchainWorker
