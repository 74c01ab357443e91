import OffchainPallets.ExampleOffchainWorker.Senders
import OffchainPallets.Ocw.Senders
import OffchainPallets.Runtime

/-!
# What the senders report

Each of the seven sending functions of the two pallets returns a result. A pool that keeps a log of
its answers (`Lib.logged`) shows what a sender has submitted and what became of it; the report is
truthful (`Truthful`) if the result is `Ok` exactly when something was submitted and nothing was
refused.

* `senders_truthful_iff` — five senders are truthful for every host. The one that sends signed
  transactions is only if none is refused, and the one that sends for all accounts only if there is
  an account that signs.
-/

namespace OffchainPallets

open Lib

/-- The answer of the pool to a submission. -/
abbrev Answer := Except Unit Unit

/-- A result and the answers to what was submitted: `Ok` exactly if there are some and all are. -/
def Truthful {E : Type} (result : Except E Unit) (log : List Answer) : Prop :=
  result = .ok () ↔ log ≠ [] ∧ ∀ answer ∈ log, answer = .ok ()

theorem truthful_nil {E : Type} {result : Except E Unit} :
    Truthful result [] ↔ result ≠ .ok () := by
  simp [Truthful]

theorem truthful_singleton {E : Type} {result : Except E Unit} {answer : Answer} :
    Truthful result [answer] ↔ (result = .ok () ↔ answer = .ok ()) := by
  simp [Truthful]

/-- The report of a sender that fails on a refusal only: truthful if there are answers. -/
theorem truthful_of_none_refused {E : Type} {result : Except E Unit} {log : List Answer}
    (h : result = .ok () ↔ ∀ answer ∈ log, answer = .ok ()) :
    Truthful result log ↔ log ≠ [] := by
  unfold Truthful
  rw [h]
  by_cases hnil : log = []
  · simp [hnil]
  · simp [hnil]

/-! ## `pallet-example-offchain-worker` -/

namespace ExampleOffchainWorker

variable {T : Config} {Pool Tx : Type}

/-- The answers to the signed transactions of all accounts that can create one. -/
def SigningHost.signedAnswers (host : SigningHost T Pool Tx) (pool : Pool) (price : UInt32) :
    List Answer :=
  answers host.submitTransaction
    (host.accounts.filterMap fun account => host.createTransaction account (.submitPrice price))
    pool

/-- The report on signed transactions is truthful: nothing is sent, or some transaction is sent and
none is refused. -/
def SigningHost.AllAccepted (host : SigningHost T Pool Tx) (pool : Pool) : Prop :=
  host.accounts = [] ∨ ∀ price, host.fetchPrice = .ok price →
    host.signedAnswers pool price ≠ [] ∧
      ∀ answer ∈ host.signedAnswers pool price, answer = .ok ()

theorem fetchPriceAndSendSigned_truthful_iff (host : SigningHost T Pool Tx) (pool : Pool) :
    Truthful (fetchPriceAndSendSigned host pool).2
        (fetchPriceAndSendSigned host.logged (pool, [])).1.2 ↔
      host.AllAccepted pool := by
  have haccounts : host.logged.accounts = host.accounts := rfl
  have hprice : host.logged.fetchPrice = host.fetchPrice := rfl
  have hcreate : host.logged.createTransaction = host.createTransaction := rfl
  have hsubmit : host.logged.submitTransaction = Lib.logged host.submitTransaction := rfl
  unfold fetchPriceAndSendSigned SigningHost.AllAccepted
  simp only [haccounts, hprice, hcreate, hsubmit, List.isEmpty_iff]
  by_cases hnone : host.accounts = []
  · simp [hnone, truthful_nil]
  · rcases hfetch : host.fetchPrice with e | price
    · simp [hnone, truthful_nil]
    · -- the results are not looked at
      simp only [hnone, if_false, every_logged, every_eq, List.nil_append, false_or,
        Except.ok.injEq, forall_eq']
      simp [Truthful, SigningHost.signedAnswers]

/-- What a sender of unsigned transactions does, if its submission is truthful. -/
theorem sendUnsigned_truthful_iff {s : Storage T} {host : Offchain T Pool} {n : T.BlockNumber}
    {submit : UInt32 → Pool → Pool × Except String Unit}
    {submitLogged : UInt32 → Pool × List Answer → (Pool × List Answer) × Except String Unit}
    (pool : Pool) :
    Truthful (sendUnsigned s host n submit pool).2
        (sendUnsigned s host.logged n submitLogged (pool, [])).1.2 ↔
      (s.nextUnsignedAt ≤ n → ∀ price, host.fetchPrice = .ok price →
        Truthful (submit price pool).2 (submitLogged price (pool, [])).1.2) := by
  unfold sendUnsigned
  split_ifs with hearly
  · simp [truthful_nil, hearly]
  · rw [BitVec.not_lt] at hearly
    rcases hfetch : host.fetchPrice with e | price
    · simp [hfetch, truthful_nil]
    · simp [hfetch, hearly]

theorem fetchPriceAndSendRawUnsigned_truthful (s : Storage T) (host : Offchain T Pool)
    (n : T.BlockNumber) (pool : Pool) :
    Truthful (fetchPriceAndSendRawUnsigned s host n pool).2
      (fetchPriceAndSendRawUnsigned s host.logged n (pool, [])).1.2 := by
  rw [fetchPriceAndSendRawUnsigned, fetchPriceAndSendRawUnsigned, sendUnsigned_truthful_iff]
  intro _ price _
  rcases hsubmit : host.submitUnsignedTransaction pool (.submitPriceUnsigned n price) with
    ⟨pool', ⟨⟩ | ⟨⟩⟩
  · simp [Lib.logged, hsubmit, truthful_singleton]
  · simp [Lib.logged, hsubmit, truthful_singleton]

theorem fetchPriceAndSendUnsignedForAnyAccount_truthful (s : Storage T) (host : Offchain T Pool)
    (n : T.BlockNumber) (pool : Pool) :
    Truthful (fetchPriceAndSendUnsignedForAnyAccount s host n pool).2
      (fetchPriceAndSendUnsignedForAnyAccount s host.logged n (pool, [])).1.2 := by
  rw [fetchPriceAndSendUnsignedForAnyAccount, fetchPriceAndSendUnsignedForAnyAccount,
    sendUnsigned_truthful_iff]
  intro _ price _
  simp only [sendForAnyAccount_eq_first, Offchain.logged_accounts,
    Offchain.logged_submitUnsignedTransaction, Offchain.logged_request, first_logged]
  rcases hfirst : first host.submitUnsignedTransaction
    (host.request fun account => ⟨n, price, account⟩) host.accounts pool with
    ⟨pool', _ | ⟨account, ⟨⟩ | ⟨⟩⟩⟩
  · simp [truthful_nil]
  · simp [truthful_singleton]
  · simp [truthful_singleton]

/-- The report on unsigned transactions for all accounts is truthful: nothing is sent because it is
too early or there is no price, or some account signs. -/
def Offchain.SomeSigns (host : Offchain T Pool) (s : Storage T) (n : T.BlockNumber) : Prop :=
  s.nextUnsignedAt ≤ n → ∀ price, host.fetchPrice = .ok price →
    ∃ account ∈ host.accounts,
      (host.sign account (PricePayload.encode ⟨n, price, account⟩)).isSome

theorem fetchPriceAndSendUnsignedForAllAccounts_truthful_iff (s : Storage T)
    (host : Offchain T Pool) (n : T.BlockNumber) (pool : Pool) :
    Truthful (fetchPriceAndSendUnsignedForAllAccounts s host n pool).2
        (fetchPriceAndSendUnsignedForAllAccounts s host.logged n (pool, [])).1.2 ↔
      host.SomeSigns s n := by
  by_cases hnext : s.nextUnsignedAt ≤ n
  · rcases hfetch : host.fetchPrice with e | price
    · -- no price: nothing is sent
      rw [fetchPriceAndSendUnsignedForAllAccounts, fetchPriceAndSendUnsignedForAllAccounts,
        sendUnsigned_truthful_iff]
      simp [Offchain.SomeSigns, hfetch]
    · rw [forAllAccounts_log hnext hfetch,
        truthful_of_none_refused (forAllAccounts_ok_iff hnext hfetch pool), ne_eq,
        answers_eq_nil_iff, List.filterMap_eq_nil_iff]
      simp [Offchain.SomeSigns, hnext, hfetch, Offchain.request, payloadFor,
        Option.isSome_iff_ne_none]
  · -- too early: nothing is sent
    rw [fetchPriceAndSendUnsignedForAllAccounts, fetchPriceAndSendUnsignedForAllAccounts,
      sendUnsigned_truthful_iff]
    simp [Offchain.SomeSigns, hnext]

end ExampleOffchainWorker

/-! ## `pallet-ocw` -/

namespace Ocw

variable {T : Config} {Pool Tx : Type}

theorem offchainSignedTx_truthful (host : Offchain T Pool Tx) (n : T.BlockNumber) (pool : Pool) :
    Truthful (offchainSignedTx host n pool).2 (offchainSignedTx host.logged n (pool, [])).1.2 := by
  simp only [offchainSignedTx, Offchain.logged_accounts, Offchain.logged_submitTransaction,
    Offchain.logged_createTransaction, first_logged]
  rcases first host.submitTransaction
    (fun account => host.createTransaction account (.submitNumberSigned (numberOf n)))
    host.accounts pool with ⟨pool', _ | ⟨account, ⟨⟩ | ⟨⟩⟩⟩
  · simp [truthful_nil]
  · simp [truthful_singleton]
  · simp [truthful_singleton]

theorem offchainUnsignedTx_truthful (host : Offchain T Pool Tx) (n : T.BlockNumber)
    (pool : Pool) :
    Truthful (offchainUnsignedTx host n pool).2
      (offchainUnsignedTx host.logged n (pool, [])).1.2 := by
  simp only [offchainUnsignedTx, Offchain.logged_submitUnsignedTransaction, Lib.logged]
  rcases host.submitUnsignedTransaction pool (.submitNumberUnsigned (numberOf n)) with
    ⟨pool', ⟨⟩ | ⟨⟩⟩
  · simp [truthful_singleton]
  · simp [truthful_singleton]

theorem offchainUnsignedTxSignedPayload_truthful (host : Offchain T Pool Tx) (n : T.BlockNumber)
    (pool : Pool) :
    Truthful (offchainUnsignedTxSignedPayload host n pool).2
      (offchainUnsignedTxSignedPayload host.logged n (pool, [])).1.2 := by
  simp only [offchainUnsignedTxSignedPayload, Offchain.logged_accounts,
    Offchain.logged_submitUnsignedTransaction, Offchain.logged_request, first_logged]
  rcases first host.submitUnsignedTransaction
    (host.request fun account => ⟨numberOf n, account⟩) host.accounts pool with
    ⟨pool', _ | ⟨account, ⟨⟩ | ⟨⟩⟩⟩
  · simp [truthful_nil]
  · simp [truthful_singleton]
  · simp [truthful_singleton]

end Ocw

/-! ## All seven -/

/-- **Which senders report truthfully.** For every host of each pallet: whether every keystore has
keys, whatever the fetch and the pool answer, five of the seven senders are always truthful. All
are, exactly when no signed transaction of the price oracle is refused, if its keystore has a key
and it has a price, and when some account signs, if it is time to send for all accounts.
Source: `fetch_price_and_send_signed`, `fetch_price_and_send_raw_unsigned`,
`fetch_price_and_send_unsigned_for_any_account`, `fetch_price_and_send_unsigned_for_all_accounts`,
`offchain_signed_tx`, `offchain_unsigned_tx`, `offchain_unsigned_tx_signed_payload` -/
theorem senders_truthful_iff {T : ExampleOffchainWorker.Config} {T' : Ocw.Config}
    {Pool Tx Pool' Tx' : Type} (s : ExampleOffchainWorker.Storage T)
    (host : ExampleOffchainWorker.SigningHost T Pool Tx) (n : T.BlockNumber) (pool : Pool)
    (host' : Ocw.Offchain T' Pool' Tx') (n' : T'.BlockNumber) (pool' : Pool') :
    (Truthful (ExampleOffchainWorker.fetchPriceAndSendSigned host pool).2
        (ExampleOffchainWorker.fetchPriceAndSendSigned host.logged (pool, [])).1.2 ∧
      Truthful (ExampleOffchainWorker.fetchPriceAndSendRawUnsigned s host.toOffchain n pool).2
        (ExampleOffchainWorker.fetchPriceAndSendRawUnsigned s host.toOffchain.logged n
          (pool, [])).1.2 ∧
      Truthful
        (ExampleOffchainWorker.fetchPriceAndSendUnsignedForAnyAccount s host.toOffchain n pool).2
        (ExampleOffchainWorker.fetchPriceAndSendUnsignedForAnyAccount s host.toOffchain.logged n
          (pool, [])).1.2 ∧
      Truthful
        (ExampleOffchainWorker.fetchPriceAndSendUnsignedForAllAccounts s host.toOffchain n pool).2
        (ExampleOffchainWorker.fetchPriceAndSendUnsignedForAllAccounts s host.toOffchain.logged n
          (pool, [])).1.2 ∧
      Truthful (Ocw.offchainSignedTx host' n' pool').2
        (Ocw.offchainSignedTx host'.logged n' (pool', [])).1.2 ∧
      Truthful (Ocw.offchainUnsignedTx host' n' pool').2
        (Ocw.offchainUnsignedTx host'.logged n' (pool', [])).1.2 ∧
      Truthful (Ocw.offchainUnsignedTxSignedPayload host' n' pool').2
        (Ocw.offchainUnsignedTxSignedPayload host'.logged n' (pool', [])).1.2) ↔
      host.AllAccepted pool ∧ host.SomeSigns s n := by
  have hraw := ExampleOffchainWorker.fetchPriceAndSendRawUnsigned_truthful s host.toOffchain n pool
  have hany := ExampleOffchainWorker.fetchPriceAndSendUnsignedForAnyAccount_truthful s
    host.toOffchain n pool
  have hsigned := Ocw.offchainSignedTx_truthful host' n' pool'
  have hunsigned := Ocw.offchainUnsignedTx_truthful host' n' pool'
  have hpayload := Ocw.offchainUnsignedTxSignedPayload_truthful host' n' pool'
  rw [ExampleOffchainWorker.fetchPriceAndSendSigned_truthful_iff,
    ExampleOffchainWorker.fetchPriceAndSendUnsignedForAllAccounts_truthful_iff]
  constructor
  · rintro ⟨hall, -, -, hsome, -⟩
    exact ⟨hall, hsome⟩
  · rintro ⟨hall, hsome⟩
    exact ⟨hall, hraw, hany, hsome, hsigned, hunsigned, hpayload⟩

/-- A worker with a price and some keys, and a pool that refuses everything. -/
def refusedHost (accounts : List MultiSigner) :
    ExampleOffchainWorker.SigningHost Runtime.noSignatures Unit Unit where
  fetchPrice := .ok 100
  accounts := accounts
  sign _ _ := none
  submitUnsignedTransaction pool _ := (pool, .error ())
  createTransaction _ _ := some ()
  submitTransaction pool _ := (pool, .error ())

/-- **Two reports that are not true.** A signed transaction is refused, and the sender returns
`Ok`; and the one for all accounts returns `Ok` without a key, having sent nothing.
Source: `fetch_price_and_send_signed`, `fetch_price_and_send_unsigned_for_all_accounts` -/
theorem ok_without_accepted :
    (ExampleOffchainWorker.fetchPriceAndSendSigned
        (refusedHost [.sr25519 (List.Vector.replicate 32 0)]) ()).2 = .ok () ∧
      (ExampleOffchainWorker.fetchPriceAndSendSigned
        (refusedHost [.sr25519 (List.Vector.replicate 32 0)]).logged ((), [])).1.2 =
          [.error ()] ∧
      (ExampleOffchainWorker.fetchPriceAndSendUnsignedForAllAccounts (.empty 1)
        (refusedHost []).toOffchain 1 ()).2 = .ok () ∧
      (ExampleOffchainWorker.fetchPriceAndSendUnsignedForAllAccounts (.empty 1)
        (refusedHost []).toOffchain.logged 1 ((), [])).1.2 = [] :=
  ⟨rfl, rfl, rfl, rfl⟩

end OffchainPallets
