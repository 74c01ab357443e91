import Mathlib.Tactic.Common
import OffchainPallets.Lib.Codec

/-!
# What the pallets take from the runtime framework

The parts of Rust, `frame_system` and `sp_runtime` that both pallets are written against, as far
as they use them. None of this is code of the repository: each definition follows the documented
behaviour of the item it names.

* `Panic` — the panics the pallet code can run into; a function that may panic returns
  `Except Panic`. Arithmetic is that of the release profile: `+` on block numbers wraps.
  `Profile` is for the code where the profile matters.
* `System` — the associated types of `frame_system::Config` and `SigningTypes`. `BlockNumber` is
  an unsigned integer of at least 32 bits, of any width in whole bytes.
* `RawOrigin`, `ensureSigned`, `ensureNone`, `depositEvent`.
* `ValidTransaction` with its builder, `InvalidTransaction`, `TransactionValidity`.
-/

namespace OffchainPallets

open Lib

/-! ## Rust -/

/-- The panics of the modelled code. -/
inductive Panic where
  /-- `v[i] = x` past the end of `v`. -/
  | indexOutOfBounds
  /-- `Option::expect` on `None`. -/
  | expectFailed
  /-- `/` by zero. -/
  | divisionByZero
  /-- An arithmetic operation that overflows, in a build that checks for it. -/
  | arithmeticOverflow
  deriving DecidableEq, Repr

/-- A computation that goes through has gone through at its first step. -/
theorem bind_eq_ok {α β : Type} {x : Except Panic α} {f : α → Except Panic β} {b : β} :
    x >>= f = .ok b ↔ ∃ a, x = .ok a ∧ f a = .ok b := by
  cases x with
  | error e => simp [bind, Except.bind]
  | ok a => simp [bind, Except.bind]

/-- `v[i] = x`. -/
def setIndex {α : Type} (v : List α) (i : ℕ) (x : α) : Except Panic (List α) :=
  if i < v.length then .ok (v.set i x) else .error .indexOutOfBounds

/-- `Option::expect`. -/
def expectSome {α : Type} : Option α → Except Panic α
  | some a => .ok a
  | none => .error .expectFailed

/-- `u32::saturating_add`. -/
def saturatingAdd (a b : UInt32) : UInt32 :=
  if a.toNat + b.toNat < 2 ^ 32 then a + b else 4294967295

/-- `u64::saturating_add`. -/
def saturatingAdd64 (a b : UInt64) : UInt64 :=
  if a.toNat + b.toNat < 2 ^ 64 then a + b else 18446744073709551615

/-- `a / b` on `u32`. -/
def divU32 (a b : UInt32) : Except Panic UInt32 :=
  if b = 0 then .error .divisionByZero else .ok (a / b)

/-- `u32::checked_sub`. -/
def checkedSub (a b : UInt32) : Option UInt32 := if b ≤ a then some (a - b) else none

/-- `u32::checked_add`. -/
def checkedAdd (a b : UInt32) : Option UInt32 :=
  if a.toNat + b.toNat < 2 ^ 32 then some (a + b) else none

/-- `x as u32` for an `i64`: the low bits. -/
def asU32 (x : Int64) : UInt32 := x.toUInt64.toUInt32

/-- The profile of a build: overflow checks are on in `debug` and off in `release`. -/
inductive Profile where
  | debug
  | release
  deriving DecidableEq, Repr

/-- The result of an operation that wraps, as the profile has it. -/
def Profile.arithmetic {α : Type} (profile : Profile) (overflows : Bool) (wrapped : α) :
    Except Panic α :=
  if profile = .debug ∧ overflows then .error .arithmeticOverflow else .ok wrapped

/-- `a * b` on `u32`. -/
def mulU32 (profile : Profile) (a b : UInt32) : Except Panic UInt32 :=
  profile.arithmetic (2 ^ 32 ≤ a.toNat * b.toNat) (a * b)

/-- `a + b` on `u32`. -/
def addU32 (profile : Profile) (a b : UInt32) : Except Panic UInt32 :=
  profile.arithmetic (2 ^ 32 ≤ a.toNat + b.toNat) (a + b)

/-- `a.pow(exp)` on `u64`. -/
def powU64 (profile : Profile) (a : UInt64) (exp : UInt32) : Except Panic UInt64 :=
  profile.arithmetic (2 ^ 64 ≤ a.toNat ^ exp.toNat) (UInt64.ofNat (a.toNat ^ exp.toNat))

/-- `a / b` on `u64`. -/
def divU64 (a b : UInt64) : Except Panic UInt64 :=
  if b = 0 then .error .divisionByZero else .ok (a / b)

/-! ## `frame_system` -/

/-- The associated types of `frame_system::Config` and `frame_system::offchain::SigningTypes`. -/
structure System where
  /-- The width of `BlockNumber`. -/
  blockNumberBytes : ℕ
  /-- `BlockNumber: AtLeast32BitUnsigned`. -/
  atLeast32Bit : 4 ≤ blockNumberBytes
  AccountId : Type
  /-- `AccountId: Default`. -/
  defaultAccountId : AccountId
  Public : Type
  Signature : Type
  /-- `Public: Codec`, its SCALE encoding. -/
  publicCodec : Codec Public

/-- `T::BlockNumber`. -/
abbrev System.BlockNumber (T : System) : Type := BitVec (8 * T.blockNumberBytes)

theorem toNat_pos {T : System} {n : T.BlockNumber} (hn : 0 < n) : 0 < n.toNat := by
  simpa [BitVec.lt_def] using hn

theorem toNat_one {T : System} : (1 : T.BlockNumber).toNat = 1 := by
  have hwidth := T.atLeast32Bit
  show 1 % 2 ^ (8 * T.blockNumberBytes) = 1
  exact Nat.mod_eq_of_lt (Nat.one_lt_two_pow (by omega))

/-- There is room for one more block number. -/
theorem toNat_add_one {T : System} {n : T.BlockNumber}
    (hn : n.toNat + 1 < 2 ^ (8 * T.blockNumberBytes)) : (n + 1).toNat = n.toNat + 1 := by
  rw [BitVec.toNat_add, toNat_one, Nat.mod_eq_of_lt hn]

/-- `frame_system::RawOrigin`. -/
inductive RawOrigin (AccountId : Type) where
  | root
  | signed (who : AccountId)
  | none

/-- `DispatchError`, as far as the pallets return it. -/
inductive DispatchError where
  | badOrigin
  deriving DecidableEq, Repr

/-- `DispatchResult`. -/
abbrev DispatchResult := Except DispatchError Unit

/-- `ensure_signed`. -/
def ensureSigned {A : Type} : RawOrigin A → Except DispatchError A
  | .signed who => .ok who
  | _ => .error .badOrigin

/-- `ensure_none`. -/
def ensureNone {A : Type} : RawOrigin A → Except DispatchError Unit
  | .none => .ok ()
  | _ => .error .badOrigin

/-- `frame_system::Pallet::deposit_event`: no event is recorded in the genesis block. -/
def depositEvent {T : System} {E : Type} (blockNumber : T.BlockNumber) (events : List E)
    (event : E) : List E :=
  if blockNumber = 0 then events else events ++ [event]

@[simp] theorem depositEvent_of_ne_zero {T : System} {E : Type} {n : T.BlockNumber} (hn : n ≠ 0)
    (events : List E) (event : E) : depositEvent n events event = events ++ [event] := by
  rw [depositEvent, if_neg hn]

/-- The log is only appended to. -/
theorem depositEvent_append {T : System} {E : Type} (n : T.BlockNumber) (events : List E)
    (event : E) : depositEvent n events event = events ++ depositEvent n [] event := by
  unfold depositEvent
  split_ifs <;> simp

/-! ## Transaction validity -/

/-- `TransactionTag`. -/
abbrev TransactionTag := List UInt8

/-- `ValidTransaction`. -/
structure ValidTransaction where
  priority : UInt64 := 0
  requires : List TransactionTag := []
  provides : List TransactionTag := []
  longevity : UInt64 := 18446744073709551615
  propagate : Bool := true
  deriving DecidableEq, Repr

/-- `InvalidTransaction`, as far as the pallets return it. -/
inductive InvalidTransaction where
  | call
  | future
  | stale
  | badProof
  deriving DecidableEq, Repr

/-- `TransactionValidity`. -/
abbrev TransactionValidity := Except InvalidTransaction ValidTransaction

/-- `ValidTransactionBuilder`: the transaction built so far, and the prefix of its tags. -/
structure ValidTransactionBuilder where
  tagPrefix : List UInt8
  validity : ValidTransaction

/-- `ValidTransaction::with_tag_prefix`. -/
def withTagPrefix (tagPrefix : String) : ValidTransactionBuilder :=
  ⟨tagPrefix.toUTF8.data.toList, {}⟩

namespace ValidTransactionBuilder

/-- `.priority(p)`. -/
def priority (b : ValidTransactionBuilder) (p : UInt64) : ValidTransactionBuilder :=
  { b with validity := { b.validity with priority := p } }

/-- `.and_provides(tag)`, for the encoded tag: the SCALE encoding of the prefix and the tag is
added to `provides`. -/
def andProvides (b : ValidTransactionBuilder) (tag : List UInt8) : ValidTransactionBuilder :=
  { b with validity := { b.validity with provides := b.validity.provides ++
      [Codec.compactEncode b.tagPrefix.length ++ b.tagPrefix ++ tag] } }

/-- `.longevity(l)`. -/
def longevity (b : ValidTransactionBuilder) (l : UInt64) : ValidTransactionBuilder :=
  { b with validity := { b.validity with longevity := l } }

/-- `.propagate(p)`. -/
def propagate (b : ValidTransactionBuilder) (p : Bool) : ValidTransactionBuilder :=
  { b with validity := { b.validity with propagate := p } }

/-- `.build()`. -/
def build (b : ValidTransactionBuilder) : TransactionValidity := .ok b.validity

end ValidTransactionBuilder

end OffchainPallets
