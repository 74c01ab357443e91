import OffchainPallets.ExampleOffchainWorker.AllAccounts
import OffchainPallets.ExampleOffchainWorker.SendingModes
import OffchainPallets.ExampleOffchainWorker.UnsignedCalls
import OffchainPallets.SignedPayloads

/-!
# `offchain_worker` of the price oracle

The entry point: after a block, on the state of that block, the worker asks
`choose_transaction_type` whether and how to send, and calls the sender for the answer. `Profile`
decides whether `block_number - 1` may panic.

* `worker_calls_valid` — what the worker submits without a signature of the transaction is valid
  from its block on, until the chain applies an unsigned call, its own or another one; with a
  keystore whose signatures verify, the pool never refuses a call of the worker as invalid.
-/

namespace OffchainPallets.ExampleOffchainWorker

open Lib OffchainPallets.Runtime

variable {T : Config} {Pool Tx : Type}

/-- `a - b` on block numbers. -/
def subBlockNumber (profile : Profile) (a b : T.BlockNumber) : Except Panic T.BlockNumber :=
  profile.arithmetic (a < b) (a - b)

/-- The sender for a transaction type.
Source: `offchain_worker` -/
def send (s : Storage T) (host : SigningHost T Pool Tx) (blockNumber : T.BlockNumber)
    (shouldSend : TransactionType) (pool : Pool) : Pool × Except String Unit :=
  match shouldSend with
  | .signed => fetchPriceAndSendSigned host pool
  | .unsignedForAny =>
      fetchPriceAndSendUnsignedForAnyAccount s host.toOffchain blockNumber pool
  | .unsignedForAll =>
      fetchPriceAndSendUnsignedForAllAccounts s host.toOffchain blockNumber pool
  | .raw => fetchPriceAndSendRawUnsigned s host.toOffchain blockNumber pool
  | .none => (pool, .ok ())

/-- A run of the worker, whose `choose_transaction_type` has read `read` and finds `cell` at its
compare-and-set: the new value of `example_ocw::last_send`, the pool, and the result, of which the
worker logs an error.
Source: `offchain_worker` -/
def offchainWorker (profile : Profile) (s : Storage T) (host : SigningHost T Pool Tx)
    (blockNumber : T.BlockNumber) (read cell : RawValue) (pool : Pool) :
    Except Panic (RawValue × Pool × Except String Unit) := do
  -- the hash of the parent block and the average are computed for the log only, but may panic
  let _parent ← subBlockNumber profile blockNumber 1
  let _average ← averagePrice s
  let (lastSend, shouldSend) := chooseTransactionType blockNumber read cell
  return (lastSend, send s host blockNumber shouldSend pool)

/-- The worker does not panic, unless it is compiled with overflow checks and runs for the genesis
block. -/
theorem offchainWorker_eq_ok {profile : Profile} {s : Storage T} {host : SigningHost T Pool Tx}
    {n : T.BlockNumber} (h : s.prices.length ≤ MAX_LEN) (hn : profile = .release ∨ n ≠ 0)
    (read cell : RawValue) (pool : Pool) :
    offchainWorker profile s host n read cell pool =
      .ok ((chooseTransactionType n read cell).1,
        send s host n (chooseTransactionType n read cell).2 pool) := by
  have hparent : subBlockNumber profile n 1 = .ok (n - 1) := by
    unfold subBlockNumber Profile.arithmetic
    rw [if_neg]
    rintro ⟨rfl, hlt⟩
    rcases hn with hn | hn
    · cases hn
    · apply hn
      -- only zero is less than one
      rw [decide_eq_true_eq, BitVec.lt_def, toNat_one] at hlt
      have hzero : (0 : T.BlockNumber).toNat = 0 := Nat.zero_mod _
      apply BitVec.eq_of_toNat_eq
      omega
  unfold offchainWorker
  rw [hparent, averagePrice_eq_ok h]
  rfl

/-! ## What the worker submits -/

/-- The host with a record of the unsigned calls. -/
def Offchain.recording (host : Offchain T Pool) : Offchain T (Pool × List (Call T)) where
  fetchPrice := host.fetchPrice
  accounts := host.accounts
  sign := host.sign
  submitUnsignedTransaction := recorded host.submitUnsignedTransaction

/-- The host with a record of the unsigned calls. -/
def SigningHost.recording (host : SigningHost T Pool Tx) :
    SigningHost T (Pool × List (Call T)) Tx where
  toOffchain := host.toOffchain.recording
  createTransaction := host.createTransaction
  submitTransaction p tx :=
    (((host.submitTransaction p.1 tx).1, p.2), (host.submitTransaction p.1 tx).2)

/-- The signatures of the keystore verify. -/
def Offchain.SignsTruly (host : Offchain T Pool) : Prop :=
  ∀ account ∈ host.accounts, ∀ message signature, host.sign account message = some signature →
    T.authorityVerify message account signature = true

section submits

variable {s : Storage T} {n : T.BlockNumber} {pool : Pool}

/-- What an account submits has the block of the worker and the price, and its signature
verifies. -/
theorem claim_of_request {host : Offchain T Pool} (hsign : host.SignsTruly) {price : UInt32}
    {call : Call T} (hcall : call ∈ host.accounts.filterMap (host.request (payloadFor n price))) :
    call.claim = some n ∧ call.price = price := by
  obtain ⟨account, haccount, hrequest⟩ := List.mem_filterMap.mp hcall
  unfold Offchain.request at hrequest
  obtain ⟨signature, hsigned, rfl⟩ := Option.map_eq_some_iff.mp hrequest
  refine ⟨?_, rfl⟩
  unfold Call.claim PricePayload.verify
  exact if_pos (hsign account haccount _ signature hsigned)

/-- An unsigned sender submits nothing before `NextUnsignedAt` and without a price. -/
theorem recorded_sendUnsigned {host : Offchain T Pool}
    {submit : UInt32 → Pool × List (Call T) → (Pool × List (Call T)) × Except String Unit}
    {call : Call T}
    (hsubmit : ∀ price, call ∈ (submit price (pool, [])).1.2 →
      call.claim = some n ∧ call.price = price)
    (hcall : call ∈ (sendUnsigned s host.recording n submit (pool, [])).1.2) :
    s.nextUnsignedAt ≤ n ∧ call.claim = some n ∧ host.fetchPrice = .ok call.price := by
  unfold sendUnsigned at hcall
  split_ifs at hcall with hearly
  · cases hcall
  · have hfetch : host.recording.fetchPrice = host.fetchPrice := rfl
    rw [hfetch] at hcall
    rcases hprice : host.fetchPrice with e | price
    · rw [hprice] at hcall
      cases hcall
    · rw [hprice] at hcall
      obtain ⟨hclaim, rfl⟩ := hsubmit price hcall
      exact ⟨BitVec.not_lt.mp hearly, hclaim, rfl⟩

/-- Signed transactions are not among the unsigned calls. -/
theorem recorded_signed (host : SigningHost T Pool Tx) :
    (fetchPriceAndSendSigned host.recording (pool, [])).1.2 = [] := by
  have hevery : ∀ (price : UInt32) (accounts : List T.Public) (p : Pool × List (Call T)),
      (every host.recording.submitTransaction (fun account =>
        host.recording.createTransaction account (.submitPrice price)) accounts p).1.2 = p.2 := by
    intro price accounts
    induction accounts with
    | nil => exact fun _ => rfl
    | cons account accounts ih =>
        intro p
        unfold every
        split
        · exact ih p
        · exact ih _
  unfold fetchPriceAndSendSigned
  split_ifs
  · rfl
  · split
    · rfl
    · exact hevery _ _ _

/-- **What a run submits**: unsigned calls with the block and the fetched price, if it is not too
early. -/
theorem recorded_send {host : SigningHost T Pool Tx} (hsign : host.toOffchain.SignsTruly)
    {mode : TransactionType} {call : Call T}
    (hcall : call ∈ (send s host.recording n mode (pool, [])).1.2) :
    s.nextUnsignedAt ≤ n ∧ call.claim = some n ∧ host.fetchPrice = .ok call.price := by
  unfold send at hcall
  cases mode with
  | signed =>
      rw [recorded_signed] at hcall
      cases hcall
  | unsignedForAny =>
      apply recorded_sendUnsigned ?_ hcall
      intro price hmem
      apply claim_of_request hsign
      rw [sendForAnyAccount_eq_first] at hmem
      -- what was recorded is the first request
      have hrecord : first (recorded host.submitUnsignedTransaction)
          (host.request (payloadFor n price)) host.accounts (pool, []) = _ :=
        first_recorded host.accounts pool []
      split at hmem <;> rename_i hfirst <;>
        · have hcalls := congrArg (fun r => r.1.2) (hfirst.symm.trans hrecord)
          dsimp only at hcalls hmem
          rw [hcalls, List.nil_append, Option.mem_toList] at hmem
          exact List.mem_of_mem_head? hmem
  | unsignedForAll =>
      apply recorded_sendUnsigned ?_ hcall
      intro price hmem
      apply claim_of_request hsign
      have hrecord : every (recorded host.submitUnsignedTransaction)
          (host.request (payloadFor n price)) host.accounts (pool, []) = _ :=
        every_recorded host.accounts pool []
      have hcalls : (sendForAllAccounts host.recording.toOffchain
          (fun account => ⟨n, price, account⟩) host.recording.accounts (pool, [])).1.2 =
          host.accounts.filterMap (host.request (payloadFor n price)) := by
        rw [sendForAllAccounts_eq_every]
        exact congrArg (fun r => r.1.2) hrecord
      rw [← hcalls]
      dsimp only at hmem
      split_ifs at hmem <;> exact hmem
  | raw =>
      apply recorded_sendUnsigned ?_ hcall
      intro price hmem
      have hcalls : call ∈ [Call.submitPriceUnsigned n price] := by
        split at hmem <;> rename_i hsubmit <;>
          · have hrecord := congrArg (fun r => r.1.2) hsubmit
            dsimp only at hrecord hmem
            rw [← hrecord] at hmem
            exact hmem
      rw [List.mem_singleton.mp hcalls]
      exact ⟨rfl, rfl⟩
  | none => cases hcall

/-- Without an unsigned call, `NextUnsignedAt` stays. -/
theorem nextUnsignedAt_of_run {tr : List (Label T)} {t : Storage T}
    (hbounded : s.prices.length ≤ MAX_LEN) (hrun : run chainStep s tr = some t)
    (hnone : appliedUnsigned tr = []) :
    t.prices.length ≤ MAX_LEN ∧ s.blockNumber ≤ t.blockNumber ∧
      t.nextUnsignedAt = s.nextUnsignedAt := by
  have hinv : t.prices.length ≤ MAX_LEN ∧ s.blockNumber ≤ t.blockNumber ∧
      (appliedUnsigned tr = [] → t.nextUnsignedAt = s.nextUnsignedAt) := by
    refine run_history (P := fun tr t => t.prices.length ≤ MAX_LEN ∧
      s.blockNumber ≤ t.blockNumber ∧
      (appliedUnsigned tr = [] → t.nextUnsignedAt = s.nextUnsignedAt))
      ⟨hbounded, BitVec.le_refl _, fun _ => rfl⟩ ?_ hrun
    rintro tr t l u ⟨ht, hle, hsame⟩ hstep
    have hu := step_bounded ht (step_of_chainStep hstep)
    have hsplit : appliedUnsigned (tr ++ [l]) = appliedUnsigned tr ++ appliedUnsigned [l] :=
      List.filterMap_append
    rw [hsplit, List.append_eq_nil_iff]
    have hinv := (step_eq_some ht).mp (step_of_chainStep hstep)
    cases l with
    | beginBlock n =>
        obtain ⟨hlt, rfl⟩ := hinv
        exact ⟨hu, BitVec.le_trans hle (BitVec.le_of_lt hlt), fun h => hsame h.1⟩
    | dispatch block origin call result =>
        rcases hinv with ⟨rfl, ⟨-, rfl, rfl⟩ | ⟨who, hwho, rfl, rfl⟩⟩
        · exact ⟨hu, hle, fun h => hsame h.1⟩
        · refine ⟨hu, hle, ?_⟩
          rintro ⟨hbefore, hnow⟩
          cases origin with
          | root => cases call <;> cases hwho
          | none => cases hnow
          | signed who' =>
              -- a signed call is none of the unsigned ones
              cases call with
              | submitPrice price => exact hsame hbefore
              | submitPriceUnsigned b price => cases hwho
              | submitPriceUnsignedWithSignedPayload p sig => cases hwho
  exact ⟨hinv.1, hinv.2.1, hinv.2.2 hnone⟩

/-- **The worker submits what is valid.** After any run of the chain from empty storage, whatever
the worker finds in the local storage and on its host, with a keystore whose signatures verify:
every unsigned call of the worker is for the block of the worker and has the price it has fetched,
and it is valid in every later state of the chain, up to the first unsigned call that is applied.
Source: `offchain_worker`, `fetch_price_and_send_raw_unsigned`,
`fetch_price_and_send_unsigned_for_any_account`, `fetch_price_and_send_unsigned_for_all_accounts` -/
theorem worker_calls_valid {b₀ : T.BlockNumber} {tr : List (Label T)} {profile : Profile}
    {host : SigningHost T Pool Tx} {read cell cell' : RawValue} {pool' : Pool}
    {calls : List (Call T)} {result : Except String Unit}
    (hrun : run chainStep (Storage.empty b₀) tr = some s) (hsign : host.toOffchain.SignsTruly)
    (hworker : offchainWorker profile s host.recording s.blockNumber read cell (pool, []) =
      .ok (cell', (pool', calls), result)) :
    ∀ call ∈ calls, call.claim = some s.blockNumber ∧ host.fetchPrice = .ok call.price ∧
      ∀ tr' t, run chainStep s tr' = some t → appliedUnsigned tr' = [] →
        ∃ v, validateUnsigned t call = .ok (.ok v) := by
  have hbounded : s.prices.length ≤ MAX_LEN :=
    run_induction (fun _ _ _ h hstep => step_bounded h (step_of_chainStep hstep))
      (Nat.zero_le _) hrun
  have hsent : (send s host.recording s.blockNumber
      (chooseTransactionType s.blockNumber read cell).2 (pool, [])) = ((pool', calls), result) := by
    obtain ⟨parent, -, hworker⟩ := bind_eq_ok.mp hworker
    obtain ⟨average, -, hworker⟩ := bind_eq_ok.mp hworker
    exact congrArg Prod.snd (Except.ok.inj hworker)
  intro call hcall
  have hmem : call ∈ (send s host.recording s.blockNumber
      (chooseTransactionType s.blockNumber read cell).2 (pool, [])).1.2 := by
    rw [hsent]
    exact hcall
  obtain ⟨hnext, hclaim, hprice⟩ := recorded_send hsign hmem
  refine ⟨hclaim, hprice, ?_⟩
  intro tr' t hrun' hnone
  obtain ⟨hbounded', hle, hsame⟩ := nextUnsignedAt_of_run hbounded hrun' hnone
  exact ⟨_, (validateUnsigned_eq_valid_iff hbounded').mpr
    ⟨s.blockNumber, hclaim, hsame ▸ hnext, hle, rfl⟩⟩

end submits

/-- A worker with the one key of which a signature is known, for the price 100 in block 1. -/
def oneKeyHost : SigningHost (exampleOffchainWorker verifyOne) Unit Unit where
  fetchPrice := .ok 100
  accounts := [.sr25519 key]
  sign _ message := if message = signedBytes then some (.sr25519 signature) else none
  submitUnsignedTransaction pool _ := (pool, .ok ())
  createTransaction _ _ := none
  submitTransaction pool _ := (pool, .error ())

theorem oneKeyHost_signsTruly : oneKeyHost.SignsTruly := by
  intro account haccount message sig hsigned
  obtain rfl := List.mem_singleton.mp haccount
  simp only [oneKeyHost, Option.ite_none_right_eq_some] at hsigned
  obtain ⟨rfl, hsig⟩ := hsigned
  cases hsig
  show verifyOne signedBytes key signature = true
  decide

/-- In block 1, the price is valid at once. -/
theorem worker_calls_valid_oneKey :
    ∃ lastSend call, offchainWorker .debug atBlockOne oneKeyHost.recording 1 none none ((), []) =
        .ok (lastSend, ((), [call]), .ok ()) ∧
      call.price = 100 ∧ ∃ v, validateUnsigned atBlockOne call = .ok (.ok v) := by
  obtain ⟨lastSend, call, hworker, hprice⟩ : ∃ lastSend call,
      offchainWorker .debug atBlockOne oneKeyHost.recording 1 none none ((), []) =
        .ok (lastSend, ((), [call]), .ok ()) ∧ call.price = 100 := ⟨_, _, rfl, rfl⟩
  obtain ⟨-, -, hvalid⟩ := worker_calls_valid (run_nil atBlockOne) oneKeyHost_signsTruly hworker
    call (List.mem_singleton_self call)
  exact ⟨lastSend, call, hworker, hprice, hvalid [] atBlockOne (run_nil atBlockOne) rfl⟩

end OffchainPallets.ExampleOffchainWorker
