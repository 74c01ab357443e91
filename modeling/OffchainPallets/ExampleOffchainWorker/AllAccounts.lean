import OffchainPallets.ExampleOffchainWorker.Chain
import OffchainPallets.ExampleOffchainWorker.Senders
import OffchainPallets.Lib.TagPool
import OffchainPallets.Runtime

/-!
# Sending for all accounts

`fetch_price_and_send_unsigned_for_all_accounts` against a pool that validates with
`validate_unsigned` and keeps its transactions apart by their tags (`Lib.TagPool`). The transactions
of one worker have one price, so they have one priority, and one tag.

* `all_accounts_one_spot` — the pool accepts the transaction of the first account and refuses all
  others, and the sender succeeds for one account only.
-/

namespace OffchainPallets.ExampleOffchainWorker

open Lib OffchainPallets.Runtime

variable {T : Config}

/-- A pool that holds unsigned calls. -/
abbrev CallPool (T : Config) := List (TagPool.Entry (Call T) TransactionTag ℕ)

/-- How a pool validates a call on a state: priority and tags of a valid call. -/
def validityIn (s : Storage T) (call : Call T) : Option (ℕ × List TransactionTag) :=
  match validateUnsigned s call with
  | .ok (.ok v) => some (v.priority.toNat, v.provides)
  | _ => none

theorem validityIn_eq_some {s : Storage T} {call : Call T} {v : ValidTransaction}
    (hv : validateUnsigned s call = .ok (.ok v)) :
    validityIn s call = some (v.priority.toNat, v.provides) := by
  unfold validityIn
  rw [hv]

/-- How a pool validates a call after a block: on the state of this block, as the next one begins.
Priority and tags of a valid call. -/
def poolValidity (s : Storage T) (call : Call T) : Option (ℕ × List TransactionTag) :=
  match validateUnsigned (s.beginBlock (s.blockNumber + 1)) call with
  | .ok (.ok v) => some (v.priority.toNat, v.provides)
  | _ => none

theorem poolValidity_eq (s : Storage T) :
    poolValidity s = validityIn (s.beginBlock (s.blockNumber + 1)) := rfl

/-- A host that has fetched a price, with some accounts and such a pool. -/
def poolHost (s : Storage T) (price : UInt32) (accounts : List T.Public)
    (sign : T.Public → List UInt8 → Option T.Signature) : Offchain T (CallPool T) where
  fetchPrice := .ok price
  accounts := accounts
  sign := sign
  submitUnsignedTransaction := TagPool.submit (poolValidity s)

/-- Every account signs, and the signature verifies. -/
def SignsFor (T : Config) (accounts : List T.Public)
    (sign : T.Public → List UInt8 → Option T.Signature) : Prop :=
  ∀ account ∈ accounts, ∀ message, ∃ signature,
    sign account message = some signature ∧ T.authorityVerify message account signature = true

variable {s : Storage T} {accounts : List T.Public}
  {sign : T.Public → List UInt8 → Option T.Signature}

/-- Every account gives a call, and all of them are valid with one priority and one tag. -/
theorem requests_alike (price : UInt32) (hbounded : s.prices.length ≤ MAX_LEN)
    (hblock : s.blockNumber < s.blockNumber + 1) (hnext : s.nextUnsignedAt ≤ s.blockNumber)
    (hsign : SignsFor T accounts sign) {account : T.Public} (haccount : account ∈ accounts) :
    ∃ call, (poolHost s price accounts sign).request (payloadFor s.blockNumber price) account =
        some call ∧
      poolValidity s call =
        some ((validTransaction s price).priority.toNat, [providedTag s.nextUnsignedAt]) := by
  set payload := payloadFor s.blockNumber price account with hpayload
  obtain ⟨signature, hsigned, hverify⟩ := hsign account haccount payload.encode
  refine ⟨.submitPriceUnsignedWithSignedPayload payload signature, ?_, ?_⟩
  · simp [Offchain.request, poolHost, ← hpayload, hsigned]
  · have hclaim : (Call.submitPriceUnsignedWithSignedPayload payload signature).claim =
        some s.blockNumber := by
      rw [Call.claim, PricePayload.verify]
      exact if_pos hverify
    have hbounded' : (s.beginBlock (s.blockNumber + 1)).prices.length ≤ MAX_LEN := hbounded
    have hvalid := (validateUnsigned_eq_valid_iff hbounded').mpr
      ⟨s.blockNumber, hclaim, hnext, BitVec.le_of_lt hblock, rfl⟩
    rw [poolValidity_eq, validityIn_eq_some hvalid]
    rfl

/-- What the pool answers. -/
theorem all_accounts_log (price : UInt32) (hbounded : s.prices.length ≤ MAX_LEN)
    (hblock : s.blockNumber < s.blockNumber + 1) (hnext : s.nextUnsignedAt ≤ s.blockNumber)
    (hsign : SignsFor T accounts sign) (hsome : accounts ≠ []) :
    answers (TagPool.submit (poolValidity s))
        (accounts.filterMap
          ((poolHost s price accounts sign).request (payloadFor s.blockNumber price))) [] =
      .ok () :: List.replicate (accounts.length - 1) (.error ()) := by
  set request := (poolHost s price accounts sign).request (payloadFor s.blockNumber price)
  have halike {account : T.Public} (h : account ∈ accounts) :=
    requests_alike price hbounded hblock hnext hsign h
  have hlength : (accounts.filterMap request).length = accounts.length := by
    rw [List.filterMap_length_eq_length]
    intro account h
    obtain ⟨call, hcall, -⟩ := halike h
    exact Option.isSome_iff_exists.mpr ⟨call, hcall⟩
  have hvalid : ∀ call ∈ accounts.filterMap request, poolValidity s call =
      some ((validTransaction s price).priority.toNat, [providedTag s.nextUnsignedAt]) := by
    intro call hcall
    obtain ⟨account, h, hrequest⟩ := List.mem_filterMap.mp hcall
    obtain ⟨call', hcall', hvalidity⟩ := halike h
    rw [Option.some.inj (hrequest.symm.trans hcall')]
    exact hvalidity
  rcases hcalls : accounts.filterMap request with _ | ⟨call, calls⟩
  · rw [hcalls] at hlength
    exact absurd (List.eq_nil_of_length_eq_zero hlength.symm) hsome
  · rw [hcalls] at hlength hvalid
    rw [TagPool.answers_alike (List.cons_ne_nil _ _) hvalid, ← hlength, List.length_cons,
      Nat.add_sub_cancel]

/-- **One spot for all accounts.** After any run of the chain from empty storage, in a block whose
number is at least `NextUnsignedAt` and not the last one, with any price and at least one account,
all of which sign: the empty pool accepts the transaction of the first account and refuses those of
all others, which compete for one tag with one priority. The sender returns `Ok` exactly when there
are no others.
Source: `fetch_price_and_send_unsigned_for_all_accounts`, `validate_transaction_parameters` -/
theorem all_accounts_one_spot {b₀ : T.BlockNumber} {tr : List (Label T)} (price : UInt32)
    (hrun : run chainStep (Storage.empty b₀) tr = some s)
    (hblock : s.blockNumber < s.blockNumber + 1) (hnext : s.nextUnsignedAt ≤ s.blockNumber)
    (hsign : SignsFor T accounts sign) (hsome : accounts ≠ []) :
    (fetchPriceAndSendUnsignedForAllAccounts s (poolHost s price accounts sign).logged
        s.blockNumber ([], [])).1.2 =
        .ok () :: List.replicate (accounts.length - 1) (.error ()) ∧
      (fetchPriceAndSendUnsignedForAllAccounts s (poolHost s price accounts sign)
        s.blockNumber []).2 =
        if accounts.length = 1 then .ok () else .error "Unable to submit transaction" := by
  have hbounded : s.prices.length ≤ MAX_LEN :=
    run_induction (fun _ _ _ h hstep => step_bounded h (step_of_chainStep hstep))
      (Nat.zero_le _) hrun
  have hlog := all_accounts_log price hbounded hblock hnext hsign hsome
  refine ⟨(forAllAccounts_log hnext rfl []).trans hlog, ?_⟩
  apply (forAllAccounts_result hnext rfl []).trans
  have hanswers : answers (poolHost s price accounts sign).submitUnsignedTransaction
      ((poolHost s price accounts sign).accounts.filterMap
        ((poolHost s price accounts sign).request (payloadFor s.blockNumber price))) [] =
      .ok () :: List.replicate (accounts.length - 1) (.error ()) := hlog
  rw [hanswers]
  rcases accounts with _ | ⟨account, _ | ⟨account', accounts⟩⟩
  · exact absurd rfl hsome
  · rfl
  · -- the second answer is a refusal
    simp [List.replicate_succ, Except.toOption]

/-- A key of a local account. -/
def localKey (b : UInt8) : MultiSigner := .sr25519 (List.Vector.replicate 32 b)

/-- A keystore that signs for every key. -/
def signsEverything (_ : MultiSigner) (_ : List UInt8) : Option MultiSignature :=
  some (.sr25519 (List.Vector.replicate 64 0))

/-- The runtime, in which the signatures of the keystore verify. -/
abbrev localRuntime : Config := exampleOffchainWorker fun _ _ _ => true

theorem signsFor_localKeys (keys : List UInt8) :
    SignsFor localRuntime (keys.map localKey) signsEverything := by
  intro account haccount message
  obtain ⟨b, -, rfl⟩ := List.mem_map.mp haccount
  exact ⟨_, rfl, rfl⟩

/-- A session that ends with a submission in block 1, and the next one up to block 4. -/
def oneSession : List (Label localRuntime) :=
  [.dispatch 1 .none (.submitPriceUnsigned 1 100) (.ok ()), .beginBlock 4]

/-- Three accounts compete in the next session. -/
theorem all_accounts_one_spot_threeKeys :
    ∃ s, run chainStep (Storage.empty 1) oneSession = some s ∧
      (fetchPriceAndSendUnsignedForAllAccounts s
        (poolHost s 200 ([0, 1, 2].map localKey) signsEverything).logged s.blockNumber
          ([], [])).1.2 = [.ok (), .error (), .error ()] ∧
      (fetchPriceAndSendUnsignedForAllAccounts s
        (poolHost s 200 ([0, 1, 2].map localKey) signsEverything) s.blockNumber []).2 =
        .error "Unable to submit transaction" := by
  obtain ⟨s, hrun, hblock, hnext⟩ : ∃ s, run chainStep (Storage.empty 1) oneSession = some s ∧
      s.blockNumber < s.blockNumber + 1 ∧ s.nextUnsignedAt ≤ s.blockNumber :=
    ⟨_, rfl, by decide, by decide⟩
  obtain ⟨hlog, hresult⟩ := all_accounts_one_spot 200 hrun hblock hnext
    (signsFor_localKeys [0, 1, 2]) (List.cons_ne_nil _ _)
  exact ⟨s, hrun, hlog, hresult⟩

/-- **Two accounts are too many.** With two keys, the second transaction is refused and the sender
fails.
Source: `fetch_price_and_send_unsigned_for_all_accounts` -/
theorem two_accounts_refused :
    localKey 0 ≠ localKey 1 ∧
      (fetchPriceAndSendUnsignedForAllAccounts (.empty 1)
        (poolHost (T := localRuntime) (.empty 1) 100 [localKey 0, localKey 1] signsEverything)
          1 []).2 = .error "Unable to submit transaction" ∧
      (fetchPriceAndSendUnsignedForAllAccounts (.empty 1)
        (poolHost (T := localRuntime) (.empty 1) 100 [localKey 0, localKey 1]
          signsEverything).logged 1 ([], [])).1.2 = [.ok (), .error ()] := by
  refine ⟨by decide, ?_, ?_⟩
  · rfl
  · exact (forAllAccounts_log (by decide) rfl []).trans
      (all_accounts_log 100 (by decide) (by decide) (by decide) (signsFor_localKeys [0, 1])
        (List.cons_ne_nil _ _))

end OffchainPallets.ExampleOffchainWorker
