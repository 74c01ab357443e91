import OffchainPallets.Lib.Attempts
import OffchainPallets.Ocw.FetchRemoteInfo

/-!
# The senders of `pallet-ocw`

The three functions by which the offchain worker submits the number of the block: in a transaction
signed by a local account, in an unsigned one, and in an unsigned one with a signed payload. The
host is a parameter (`Offchain`).
-/

namespace OffchainPallets.Ocw

open Lib

variable {T : Config} {Pool Tx : Type}

/-- What the worker finds on its host. -/
structure Offchain (T : Config) (Pool Tx : Type) where
  /-- The keys of type `KEY_TYPE` in the keystore. -/
  accounts : List T.Public
  /-- `SignedPayload::sign`, `none` when the keystore cannot sign. -/
  sign : T.Public → List UInt8 → Option T.Signature
  /-- `CreateSignedTransaction::create_transaction`, with the account's own nonce. -/
  createTransaction : T.Public → Call T → Option Tx
  /-- `SubmitTransaction::submit_transaction`. -/
  submitTransaction : Pool → Tx → Pool × Except Unit Unit
  /-- `SubmitTransaction::submit_unsigned_transaction`. -/
  submitUnsignedTransaction : Pool → Call T → Pool × Except Unit Unit

/-- `block_number.try_into().unwrap_or(0)`, to `u64`. -/
def numberOf (blockNumber : T.BlockNumber) : UInt64 :=
  if blockNumber.toNat < 2 ^ 64 then UInt64.ofNat blockNumber.toNat else 0

/-- Source: `offchain_signed_tx` -/
def offchainSignedTx (host : Offchain T Pool Tx) (blockNumber : T.BlockNumber) (pool : Pool) :
    Pool × Except Error Unit :=
  let number := numberOf blockNumber
  match first host.submitTransaction
    (fun account => host.createTransaction account (.submitNumberSigned number)) host.accounts
    pool with
  | (pool', some (_, .error ())) => (pool', .error .OffchainSignedTxError)
  | (pool', some (_, .ok ())) => (pool', .ok ())
  | (pool', none) => (pool', .error .NoLocalAcctForSigning)

/-- Source: `offchain_unsigned_tx` -/
def offchainUnsignedTx (host : Offchain T Pool Tx) (blockNumber : T.BlockNumber) (pool : Pool) :
    Pool × Except Error Unit :=
  let number := numberOf blockNumber
  match host.submitUnsignedTransaction pool (.submitNumberUnsigned number) with
  | (pool', .ok ()) => (pool', .ok ())
  | (pool', .error ()) => (pool', .error .OffchainUnsignedTxError)

/-- The call that an account submits, if it can sign. -/
def Offchain.request (host : Offchain T Pool Tx) (payload : T.Public → Payload T)
    (account : T.Public) : Option (Call T) :=
  (host.sign account (payload account).encode).map fun signature =>
    .submitNumberUnsignedWithSignedPayload (payload account) signature

/-- Source: `offchain_unsigned_tx_signed_payload` -/
def offchainUnsignedTxSignedPayload (host : Offchain T Pool Tx) (blockNumber : T.BlockNumber)
    (pool : Pool) : Pool × Except Error Unit :=
  let number := numberOf blockNumber
  match first host.submitUnsignedTransaction (host.request fun account => ⟨number, account⟩)
    host.accounts pool with
  | (pool', some (_, .ok ())) => (pool', .ok ())
  | (pool', some (_, .error ())) => (pool', .error .OffchainUnsignedTxSignedPayloadError)
  | (pool', none) => (pool', .error .NoLocalAcctForSigning)

/-- The host with a log of the answers to all transactions. -/
def Offchain.logged (host : Offchain T Pool Tx) :
    Offchain T (Pool × List (Except Unit Unit)) Tx where
  accounts := host.accounts
  sign := host.sign
  createTransaction := host.createTransaction
  submitTransaction := Lib.logged host.submitTransaction
  submitUnsignedTransaction := Lib.logged host.submitUnsignedTransaction

namespace Offchain

@[simp] theorem logged_accounts (host : Offchain T Pool Tx) :
    host.logged.accounts = host.accounts := rfl

@[simp] theorem logged_submitTransaction (host : Offchain T Pool Tx) :
    host.logged.submitTransaction = Lib.logged host.submitTransaction := rfl

@[simp] theorem logged_submitUnsignedTransaction (host : Offchain T Pool Tx) :
    host.logged.submitUnsignedTransaction = Lib.logged host.submitUnsignedTransaction := rfl

@[simp] theorem logged_createTransaction (host : Offchain T Pool Tx) :
    host.logged.createTransaction = host.createTransaction := rfl

@[simp] theorem logged_request (host : Offchain T Pool Tx) (payload : T.Public → Payload T) :
    host.logged.request payload = host.request payload := rfl

end Offchain

end OffchainPallets.Ocw
