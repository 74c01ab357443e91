import OffchainPallets.ExampleOffchainWorker.Pallet
import OffchainPallets.Host
import OffchainPallets.Lib.Attempts

/-!
# The senders of the price oracle

The functions by which the offchain worker submits a transaction, run after a block on the state of
that block. The host is a parameter (`Offchain`, `SigningHost`): the outcome of `fetch_price`, the
keys of the local keystore with their signing functions, and the pool, which answers each submission
and may change with it.

`fetchPriceAndSendRawUnsigned`, `fetchPriceAndSendUnsignedForAnyAccount` and
`fetchPriceAndSendUnsignedForAllAccounts` share a guard on `NextUnsignedAt` and the fetch
(`sendUnsigned`); `sendUnsigned_tooEarly_iff` says when the guard refuses, whatever the host does.
The accounts are candidates at the pool (`sendForAnyAccount_eq_first`,
`sendForAllAccounts_eq_every`).
-/

namespace OffchainPallets.ExampleOffchainWorker

open Lib

variable {T : Config}

/-- What the worker finds on its host. -/
structure Offchain (T : Config) (Pool : Type) where
  /-- The outcome of `fetch_price`. -/
  fetchPrice : Except Http.Error UInt32
  /-- The keys of type `KEY_TYPE` in the keystore. -/
  accounts : List T.Public
  /-- `SignedPayload::sign`, `none` when the keystore cannot sign. -/
  sign : T.Public → List UInt8 → Option T.Signature
  /-- `SubmitTransaction::submit_unsigned_transaction`. -/
  submitUnsignedTransaction : Pool → Call T → Pool × Except Unit Unit

variable {Pool : Type}

/-- Build a payload for one account, sign it and submit the call; `none` without a signature.
Source: `Signer::send_unsigned_transaction` -/
def sendForAccount (host : Offchain T Pool) (payload : T.Public → PricePayload T)
    (account : T.Public) (pool : Pool) : Option (Pool × Except Unit Unit) :=
  (host.sign account (payload account).encode).map fun signature =>
    host.submitUnsignedTransaction pool
      (.submitPriceUnsignedWithSignedPayload (payload account) signature)

/-- `Signer::any_account().send_unsigned_transaction`: the first account that can sign. -/
def sendForAnyAccount (host : Offchain T Pool) (payload : T.Public → PricePayload T) :
    List T.Public → Pool → Pool × Option (T.Public × Except Unit Unit)
  | [], pool => (pool, none)
  | account :: accounts, pool =>
      match sendForAccount host payload account pool with
      | none => sendForAnyAccount host payload accounts pool
      | some (pool', result) => (pool', some (account, result))

/-- `Signer::all_accounts().send_unsigned_transaction`: every account that can sign. -/
def sendForAllAccounts (host : Offchain T Pool) (payload : T.Public → PricePayload T) :
    List T.Public → Pool → Pool × List (T.Public × Except Unit Unit)
  | [], pool => (pool, [])
  | account :: accounts, pool =>
      match sendForAccount host payload account pool with
      | none => sendForAllAccounts host payload accounts pool
      | some (pool', result) =>
          let rest := sendForAllAccounts host payload accounts pool'
          (rest.1, (account, result) :: rest.2)

/-- The common beginning of the unsigned senders: the guard, then the fetch, then `submit`.
Source: `fetch_price_and_send_raw_unsigned`, `fetch_price_and_send_unsigned_for_any_account`,
`fetch_price_and_send_unsigned_for_all_accounts` -/
def sendUnsigned (s : Storage T) (host : Offchain T Pool) (blockNumber : T.BlockNumber)
    (submit : UInt32 → Pool → Pool × Except String Unit) (pool : Pool) :
    Pool × Except String Unit :=
  if blockNumber < s.nextUnsignedAt then (pool, .error "Too early to send unsigned transaction")
  else
    match host.fetchPrice with
    | .error _ => (pool, .error "Failed to fetch price")
    | .ok price => submit price pool

/-- Source: `fetch_price_and_send_raw_unsigned` -/
def fetchPriceAndSendRawUnsigned (s : Storage T) (host : Offchain T Pool)
    (blockNumber : T.BlockNumber) : Pool → Pool × Except String Unit :=
  sendUnsigned s host blockNumber fun price pool =>
    match host.submitUnsignedTransaction pool (.submitPriceUnsigned blockNumber price) with
    | (pool', .ok ()) => (pool', .ok ())
    | (pool', .error ()) => (pool', .error "Unable to submit unsigned transaction.")

/-- Source: `fetch_price_and_send_unsigned_for_any_account` -/
def fetchPriceAndSendUnsignedForAnyAccount (s : Storage T) (host : Offchain T Pool)
    (blockNumber : T.BlockNumber) : Pool → Pool × Except String Unit :=
  sendUnsigned s host blockNumber fun price pool =>
    match sendForAnyAccount host (fun account => ⟨blockNumber, price, account⟩) host.accounts
      pool with
    | (pool', none) => (pool', .error "No local accounts accounts available.")
    | (pool', some (_, .ok ())) => (pool', .ok ())
    | (pool', some (_, .error ())) => (pool', .error "Unable to submit transaction")

/-- Source: `fetch_price_and_send_unsigned_for_all_accounts` -/
def fetchPriceAndSendUnsignedForAllAccounts (s : Storage T) (host : Offchain T Pool)
    (blockNumber : T.BlockNumber) : Pool → Pool × Except String Unit :=
  sendUnsigned s host blockNumber fun price pool =>
    let (pool', results) :=
      sendForAllAccounts host (fun account => ⟨blockNumber, price, account⟩) host.accounts pool
    if results.any fun r => r.2.toOption.isNone then (pool', .error "Unable to submit transaction")
    else (pool', .ok ())

/-- What a worker that sends signed transactions finds besides. -/
structure SigningHost (T : Config) (Pool Tx : Type) extends Offchain T Pool where
  /-- `CreateSignedTransaction::create_transaction`, with the account's own nonce. -/
  createTransaction : T.Public → Call T → Option Tx
  /-- `SubmitTransaction::submit_transaction`. -/
  submitTransaction : Pool → Tx → Pool × Except Unit Unit

/-- The results of `send_signed_transaction` go to the log of the node.
Source: `fetch_price_and_send_signed` -/
def fetchPriceAndSendSigned {Tx : Type} (host : SigningHost T Pool Tx) (pool : Pool) :
    Pool × Except String Unit :=
  if host.accounts.isEmpty then
    (pool, .error
      "No local accounts available. Consider adding one via `author_insertKey` RPC.")
  else
    match host.fetchPrice with
    | .error _ => (pool, .error "Failed to fetch price")
    | .ok price =>
        let (pool', _) := every host.submitTransaction
          (fun account => host.createTransaction account (.submitPrice price)) host.accounts pool
        (pool', .ok ())

/-! ## The accounts are candidates at the pool -/

/-- The call that an account submits, if it can sign. -/
def Offchain.request (host : Offchain T Pool) (payload : T.Public → PricePayload T)
    (account : T.Public) : Option (Call T) :=
  (host.sign account (payload account).encode).map fun signature =>
    .submitPriceUnsignedWithSignedPayload (payload account) signature

theorem sendForAnyAccount_eq_first (host : Offchain T Pool) (payload : T.Public → PricePayload T)
    (accounts : List T.Public) (pool : Pool) :
    sendForAnyAccount host payload accounts pool =
      first host.submitUnsignedTransaction (host.request payload) accounts pool := by
  induction accounts with
  | nil => rfl
  | cons account accounts ih =>
      rcases hsign : host.sign account (payload account).encode with _ | signature
      · simp only [sendForAnyAccount, first, sendForAccount, Offchain.request, hsign,
          Option.map_none]
        exact ih
      · simp only [sendForAnyAccount, first, sendForAccount, Offchain.request, hsign,
          Option.map_some]

theorem sendForAllAccounts_eq_every (host : Offchain T Pool)
    (payload : T.Public → PricePayload T) (accounts : List T.Public) (pool : Pool) :
    sendForAllAccounts host payload accounts pool =
      every host.submitUnsignedTransaction (host.request payload) accounts pool := by
  induction accounts generalizing pool with
  | nil => rfl
  | cons account accounts ih =>
      rcases hsign : host.sign account (payload account).encode with _ | signature
      · simp only [sendForAllAccounts, every, sendForAccount, Offchain.request, hsign,
          Option.map_none]
        exact ih pool
      · simp only [sendForAllAccounts, every, sendForAccount, Offchain.request, hsign,
          Option.map_some]
        rw [ih]

/-! ## Hosts that keep a log -/

/-- The host with a log of the answers to unsigned transactions. -/
def Offchain.logged (host : Offchain T Pool) : Offchain T (Pool × List (Except Unit Unit)) where
  fetchPrice := host.fetchPrice
  accounts := host.accounts
  sign := host.sign
  submitUnsignedTransaction := Lib.logged host.submitUnsignedTransaction

namespace Offchain

@[simp] theorem logged_fetchPrice (host : Offchain T Pool) :
    host.logged.fetchPrice = host.fetchPrice := rfl

@[simp] theorem logged_accounts (host : Offchain T Pool) :
    host.logged.accounts = host.accounts := rfl

@[simp] theorem logged_submitUnsignedTransaction (host : Offchain T Pool) :
    host.logged.submitUnsignedTransaction = Lib.logged host.submitUnsignedTransaction := rfl

@[simp] theorem logged_request (host : Offchain T Pool) (payload : T.Public → PricePayload T) :
    host.logged.request payload = host.request payload := rfl

end Offchain

/-- The host with a log of the answers to all transactions. -/
def SigningHost.logged {Tx : Type} (host : SigningHost T Pool Tx) :
    SigningHost T (Pool × List (Except Unit Unit)) Tx where
  toOffchain := host.toOffchain.logged
  createTransaction := host.createTransaction
  submitTransaction := Lib.logged host.submitTransaction

/-- What an account is asked to sign.
Source: `fetch_price_and_send_unsigned_for_all_accounts` -/
def payloadFor (blockNumber : T.BlockNumber) (price : UInt32) (account : T.Public) :
    PricePayload T :=
  ⟨blockNumber, price, account⟩

section

variable {s : Storage T} {host : Offchain T Pool} {n : T.BlockNumber} {price : UInt32}

/-- The answers that sending for all accounts leaves in the log. -/
theorem forAllAccounts_log (hnext : s.nextUnsignedAt ≤ n) (hfetch : host.fetchPrice = .ok price)
    (pool : Pool) :
    (fetchPriceAndSendUnsignedForAllAccounts s host.logged n (pool, [])).1.2 =
      answers host.submitUnsignedTransaction
        (host.accounts.filterMap (host.request (payloadFor n price))) pool := by
  rw [fetchPriceAndSendUnsignedForAllAccounts, sendUnsigned, if_neg (BitVec.not_lt.mpr hnext),
    Offchain.logged_fetchPrice, hfetch]
  simp only [sendForAllAccounts_eq_every, Offchain.logged_accounts,
    Offchain.logged_submitUnsignedTransaction, Offchain.logged_request, every_logged, every_eq,
    List.nil_append]
  split_ifs <;> rfl

/-- It fails if one of them is a refusal, and succeeds otherwise. -/
theorem forAllAccounts_result (hnext : s.nextUnsignedAt ≤ n) (hfetch : host.fetchPrice = .ok price)
    (pool : Pool) :
    (fetchPriceAndSendUnsignedForAllAccounts s host n pool).2 =
      if (answers host.submitUnsignedTransaction
          (host.accounts.filterMap (host.request (payloadFor n price))) pool).any
            fun answer => answer.toOption.isNone
      then .error "Unable to submit transaction" else .ok () := by
  rw [fetchPriceAndSendUnsignedForAllAccounts, sendUnsigned, if_neg (BitVec.not_lt.mpr hnext),
    hfetch, ← every_eq, List.any_map]
  simp only [sendForAllAccounts_eq_every]
  exact apply_ite Prod.snd _ _ _

theorem forAllAccounts_ok_iff (hnext : s.nextUnsignedAt ≤ n) (hfetch : host.fetchPrice = .ok price)
    (pool : Pool) :
    (fetchPriceAndSendUnsignedForAllAccounts s host n pool).2 = .ok () ↔
      ∀ answer ∈ answers host.submitUnsignedTransaction
        (host.accounts.filterMap (host.request (payloadFor n price))) pool,
          answer = .ok () := by
  have haccepted (answer : Except Unit Unit) :
      answer.toOption.isNone = false ↔ answer = .ok () := by
    rcases answer with ⟨⟩ | ⟨⟩ <;> simp [Except.toOption]
  rw [forAllAccounts_result hnext hfetch]
  split_ifs with hany
  · obtain ⟨answer, hanswer, hrefused⟩ := List.any_eq_true.mp hany
    apply iff_of_false (by simp)
    intro hall
    rw [(haccepted answer).mpr (hall answer hanswer)] at hrefused
    exact absurd hrefused (by decide)
  · rw [Bool.not_eq_true, List.any_eq_false] at hany
    apply iff_of_true rfl
    intro answer hanswer
    exact (haccepted answer).mp (Bool.not_eq_true _ ▸ hany answer hanswer)

end

/-! ## The guard -/

/-- The refusal of the guard. -/
def tooEarly : Except String Unit := .error "Too early to send unsigned transaction"

/-- The guard refuses exactly before `NextUnsignedAt`, when no later step can give its message. -/
theorem sendUnsigned_tooEarly_iff {s : Storage T} {host : Offchain T Pool} {n : T.BlockNumber}
    {submit : UInt32 → Pool → Pool × Except String Unit}
    (hsubmit : ∀ price pool, (submit price pool).2 ≠ tooEarly) (pool : Pool) :
    (sendUnsigned s host n submit pool).2 = tooEarly ↔ n < s.nextUnsignedAt := by
  unfold sendUnsigned
  split_ifs with h
  · simp [h, tooEarly]
  · cases host.fetchPrice with
    | error e => simp [h, tooEarly]
    | ok price => simp [h, hsubmit]

theorem fetchPriceAndSendRawUnsigned_tooEarly_iff {s : Storage T} {host : Offchain T Pool}
    {n : T.BlockNumber} (pool : Pool) :
    (fetchPriceAndSendRawUnsigned s host n pool).2 = tooEarly ↔ n < s.nextUnsignedAt := by
  apply sendUnsigned_tooEarly_iff
  intro price pool
  split <;> simp [tooEarly]

theorem fetchPriceAndSendUnsignedForAnyAccount_tooEarly_iff {s : Storage T}
    {host : Offchain T Pool} {n : T.BlockNumber} (pool : Pool) :
    (fetchPriceAndSendUnsignedForAnyAccount s host n pool).2 = tooEarly ↔ n < s.nextUnsignedAt := by
  apply sendUnsigned_tooEarly_iff
  intro price pool
  split <;> simp [tooEarly]

theorem fetchPriceAndSendUnsignedForAllAccounts_tooEarly_iff {s : Storage T}
    {host : Offchain T Pool} {n : T.BlockNumber} (pool : Pool) :
    (fetchPriceAndSendUnsignedForAllAccounts s host n pool).2 = tooEarly ↔
      n < s.nextUnsignedAt := by
  apply sendUnsigned_tooEarly_iff
  intro price pool
  dsimp only
  split_ifs <;> simp [tooEarly]

end OffchainPallets.ExampleOffchainWorker
