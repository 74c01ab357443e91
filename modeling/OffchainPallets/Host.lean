import OffchainPallets.Frame
import OffchainPallets.Lib.Workers

/-!
# What the offchain workers take from their host

The parts of `sp_runtime::offchain` that the workers of both pallets are written against. None of
this is code of the repository: each definition follows the documented behaviour of the item it
names.

* `Timestamp`, `HttpError` and `Http.Error`.
* `StorageValueRef.get`, `.set` and `.mutate` — one value of the local storage, which all workers
  of a node share. The raw value may be absent or may not decode. `mutate` reads, computes, and
  then compares and sets, so another worker may write between its read and its write.
* `BlockAndTimeDeadline` — what a `StorageLock` with a block and a time deadline stores.
-/

namespace OffchainPallets

open Lib

/-! ## Time and HTTP -/

/-- `Timestamp`, in milliseconds. -/
abbrev Timestamp := UInt64

/-- `Timestamp::add(Duration::from_millis(ms))`. -/
def Timestamp.add (t : Timestamp) (ms : UInt64) : Timestamp := saturatingAdd64 t ms

theorem Timestamp.le_add (t : Timestamp) (ms : UInt64) : t ≤ t.add ms := by
  rw [UInt64.le_iff_toNat_le, Timestamp.add, saturatingAdd64]
  split_ifs with h
  · rw [UInt64.toNat_add, Nat.mod_eq_of_lt h]
    omega
  · exact Nat.le_of_lt_succ t.toBitVec.isLt

/-- `sp_core::offchain::HttpError`. -/
inductive HttpError where
  | deadlineReached
  | ioError
  | invalid
  deriving DecidableEq, Repr

/-- `sp_runtime::offchain::http::Error`. -/
inductive Http.Error where
  | deadlineReached
  | ioError
  | unknown
  deriving DecidableEq, Repr

/-! ## Local storage -/

/-- `StorageRetrievalError`. -/
inductive StorageRetrievalError where
  | undecodable
  deriving DecidableEq, Repr

/-- `MutateStorageError`: the closure failed, or the value was modified concurrently. -/
abbrev MutateStorageError (V E : Type) := Cas.Failure E V

/-- The raw value under a key of the local storage. -/
abbrev RawValue := Option (List UInt8)

namespace StorageValueRef

variable {V E : Type}

/-- `StorageValueRef::get`, on the raw value it finds. -/
def get (c : Codec V) : RawValue → Except StorageRetrievalError (Option V)
  | none => .ok none
  | some bytes =>
      match c.decode bytes with
      | some (v, _) => .ok (some v)
      | none => .error .undecodable

/-- `StorageValueRef::set`: the new raw value. -/
def set (c : Codec V) (v : V) : RawValue := some (c.encode v)

@[simp] theorem get_set (c : Codec V) (v : V) : get c (set c v) = .ok (some v) := by
  rw [set, get, c.decode_encode_self]

/-- `StorageValueRef::mutate` with the closure `f`, when `read` is the raw value it has read and
`cell` is the raw value at the moment of the compare-and-set. -/
def mutate (c : Codec V)
    (f : Except StorageRetrievalError (Option V) → Except E V) (read cell : RawValue) :
    RawValue × Except (MutateStorageError V E) V :=
  Cas.conclude (set c) (fun raw => f (get c raw)) read cell

end StorageValueRef

/-! ## Locks -/

/-- `BlockAndTimeDeadline`. -/
structure BlockAndTimeDeadline (T : System) where
  timestamp : Timestamp
  blockNumber : T.BlockNumber

namespace BlockAndTimeDeadline

variable {T : System}

/-- `BlockAndTime::deadline`: so many blocks and milliseconds from now. -/
def ofOffset (now : Timestamp) (block : T.BlockNumber) (blocks : T.BlockNumber) (ms : UInt64) :
    BlockAndTimeDeadline T :=
  ⟨now.add ms, block + blocks⟩

/-- `BlockAndTime::has_expired`: both parts have passed. -/
def hasExpired (d : BlockAndTimeDeadline T) (now : Timestamp) (block : T.BlockNumber) : Bool :=
  d.timestamp < now && d.blockNumber < block

/-- `StorageLock::try_lock` on the deadline it finds: the deadline `new` is stored when none is or
the stored one has expired, and otherwise the lock is refused. -/
def tryLock (now : Timestamp) (block : T.BlockNumber) (new : BlockAndTimeDeadline T) :
    Option (BlockAndTimeDeadline T) → Option (BlockAndTimeDeadline T)
  | some d => if d.hasExpired now block then some new else none
  | none => some new

theorem tryLock_eq_some {now : Timestamp} {block : T.BlockNumber} {new d' : BlockAndTimeDeadline T}
    {lock : Option (BlockAndTimeDeadline T)} :
    tryLock now block new lock = some d' ↔
      d' = new ∧ ∀ d, lock = some d → d.hasExpired now block = true := by
  cases lock with
  | none => simp [tryLock, eq_comm (a := new)]
  | some d => simp [tryLock, eq_comm (a := new), and_comm]

theorem tryLock_eq_none {now : Timestamp} {block : T.BlockNumber} {new : BlockAndTimeDeadline T}
    {lock : Option (BlockAndTimeDeadline T)} :
    tryLock now block new lock = none ↔ ∃ d, lock = some d ∧ d.hasExpired now block = false := by
  cases lock with
  | none => simp [tryLock]
  | some d => simp [tryLock]

end BlockAndTimeDeadline

end OffchainPallets
