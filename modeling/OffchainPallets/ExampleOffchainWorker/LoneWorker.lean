import OffchainPallets.ExampleOffchainWorker.OffchainWorker

/-!
# A lone worker and its chain

A closed system: a worker runs once after every block, with an empty local storage at first, and
what it has submitted to the pool is in the next block; nobody else submits anything. Its fetch of
the price never fails, and its accounts sign what the pallet verifies. Two clocks decide when a
price gets in: the grace period of the worker, after which it is told to send, and the cool-down of
the chain, before the end of which its senders give up, and the worker has to wait for the next end
of the grace period.

* `lone_worker_period` — a worker that is told to send unsigned transactions has one in the pool
  after every `P`-th block and after no other, for the least multiple `P` of `GracePeriod` that is
  more than `UnsignedInterval`. In the runtime, where both are 3, this is every sixth block: every
  second time it is told to send it is too early.
-/

namespace OffchainPallets.ExampleOffchainWorker

open Lib OffchainPallets.Runtime

variable {T : Config}

/-- The number of blocks from one price of a lone worker to the next. -/
def sendingPeriod (T : Config) : ℕ := roundUp T.gracePeriod.toNat (T.unsignedInterval.toNat + 1)

section system

variable (price : T.BlockNumber → UInt32) (accounts : List T.Public)
  (sign : T.Public → List UInt8 → Option T.Signature)

/-- The host of the worker after a block: a price for the block, the accounts, and an empty pool
that validates on the state after the block. -/
def loneHost (s : Storage T) : SigningHost T (CallPool T) Unit where
  toOffchain := poolHost s (price s.blockNumber) accounts sign
  createTransaction _ _ := none
  submitTransaction pool _ := (pool, .error ())

/-- The run of the worker after a block. -/
def loneWorker (s : Storage T) (lastSend : RawValue) :
    Except Panic (RawValue × CallPool T × Except String Unit) :=
  offchainWorker .release s (loneHost price accounts sign s) s.blockNumber lastSend lastSend []

/-- The next block, with all that is in the pool. -/
def blockWith (s : Storage T) (pool : CallPool T) : List (Label T) :=
  .beginBlock (s.blockNumber + 1) ::
    pool.map fun e => .dispatch (s.blockNumber + 1) .none e.request (.ok ())

/-- The worker runs, then the next block is built: the chain, with the value of
`example_ocw::last_send`. -/
def loneRound (x : Storage T × RawValue) : Option (Storage T × RawValue) :=
  match loneWorker price accounts sign x.1 x.2 with
  | .ok (lastSend, pool, _) =>
      (run chainStep x.1 (blockWith x.1 pool)).map fun s => (s, lastSend)
  | .error _ => none

/-- The chain after so many rounds, from a state of it and an empty local storage. -/
def loneRounds (s₀ : Storage T) : ℕ → Option (Storage T × RawValue)
  | 0 => some (s₀, none)
  | k + 1 => (loneRounds s₀ k).bind (loneRound price accounts sign)

variable {price accounts sign}

/-! ## One round -/

/-- A valid call is applied. -/
theorem chainStep_of_valid {s : Storage T} {call : Call T} {v : ValidTransaction}
    (hbounded : s.prices.length ≤ MAX_LEN) (hvalid : validateUnsigned s call = .ok (.ok v)) :
    chainStep s (.dispatch s.blockNumber .none call (.ok ())) =
      some (s.submitted call T.defaultAccountId) := by
  obtain ⟨b, hb, -⟩ := (validateUnsigned_eq_valid_iff hbounded).mp hvalid
  have hwho : call.recordedFor .none = some T.defaultAccountId := by
    cases call with
    | submitPrice price => cases hb
    | submitPriceUnsigned b price => rfl
    | submitPriceUnsignedWithSignedPayload payload signature => rfl
  have hpre : preDispatch s call .none = true := by
    unfold preDispatch
    rw [hvalid]
  rw [chainStep, if_pos hpre, step_dispatch_eq_some.mpr ⟨rfl, ?_⟩]
  rw [dispatch_eq_ok hbounded, hwho]
  rfl

/-- A block without transactions. -/
theorem run_blockWith_nil {s : Storage T} (hblock : s.blockNumber < s.blockNumber + 1) :
    run chainStep s (blockWith s []) = some (s.beginBlock (s.blockNumber + 1)) := by
  apply run_cons_eq_some.mpr
  exact ⟨_, step_beginBlock_eq_some.mpr ⟨hblock, rfl⟩, run_nil _⟩

/-- A block with one call that the pool has found valid. -/
theorem run_blockWith_singleton {s : Storage T} {e : TagPool.Entry (Call T) TransactionTag ℕ}
    (hbounded : s.prices.length ≤ MAX_LEN) (hblock : s.blockNumber < s.blockNumber + 1)
    (hvalid : (poolValidity s e.request).isSome) :
    ∃ s', run chainStep s (blockWith s [e]) = some s' ∧
      s'.blockNumber = s.blockNumber + 1 ∧ s'.prices.length ≤ MAX_LEN ∧
      s'.nextUnsignedAt = s.blockNumber + 1 + T.unsignedInterval := by
  have hbounded' : (s.beginBlock (s.blockNumber + 1)).prices.length ≤ MAX_LEN := hbounded
  obtain ⟨v, hv⟩ : ∃ v, validateUnsigned (s.beginBlock (s.blockNumber + 1)) e.request =
      .ok (.ok v) := by
    unfold poolValidity at hvalid
    split at hvalid
    · exact ⟨_, ‹_›⟩
    · cases hvalid
  obtain ⟨b, hb, -⟩ := (validateUnsigned_eq_valid_iff hbounded').mp hv
  have hstep := chainStep_of_valid hbounded' hv
  refine ⟨_, run_cons_eq_some.mpr ⟨_, step_beginBlock_eq_some.mpr ⟨hblock, rfl⟩,
    run_cons_eq_some.mpr ⟨_, hstep, run_nil _⟩⟩, rfl, ?_, ?_⟩
  · exact step_bounded hbounded' (step_of_chainStep hstep)
  · exact if_pos (Call.isUnsigned_of_claim hb)

section worker

variable {s : Storage T} {mode : TransactionType}

/-- The senders give up before `NextUnsignedAt`, and only then. -/
theorem send_tooEarly_iff (hmode : mode = .unsignedForAny ∨ mode = .unsignedForAll)
    (pool : CallPool T) :
    (send s (loneHost price accounts sign s) s.blockNumber mode pool).2 = tooEarly ↔
      s.blockNumber < s.nextUnsignedAt := by
  rcases hmode with rfl | rfl
  · exact fetchPriceAndSendUnsignedForAnyAccount_tooEarly_iff pool
  · exact fetchPriceAndSendUnsignedForAllAccounts_tooEarly_iff pool

/-- Then the pool stays empty. -/
theorem pool_of_early (hmode : mode = .unsignedForAny ∨ mode = .unsignedForAll)
    (hearly : s.blockNumber < s.nextUnsignedAt) :
    (send s (loneHost price accounts sign s) s.blockNumber mode []).1 = [] := by
  rcases hmode with rfl | rfl
  · exact congrArg Prod.fst (if_pos hearly)
  · exact congrArg Prod.fst (if_pos hearly)

/-- What the accounts submit after a block. -/
def loneRequest (price : T.BlockNumber → UInt32) (accounts : List T.Public)
    (sign : T.Public → List UInt8 → Option T.Signature) (s : Storage T) :
    T.Public → Option (Call T) :=
  (poolHost s (price s.blockNumber) accounts sign).request
    (payloadFor s.blockNumber (price s.blockNumber))

theorem pool_forAnyAccount (hopen : ¬ s.blockNumber < s.nextUnsignedAt) :
    (send s (loneHost price accounts sign s) s.blockNumber .unsignedForAny []).1 =
      (first (TagPool.submit (poolValidity s)) (loneRequest price accounts sign s) accounts
        []).1 := by
  have hfirst := sendForAnyAccount_eq_first (poolHost s (price s.blockNumber) accounts sign)
    (payloadFor s.blockNumber (price s.blockNumber)) accounts []
  refine Eq.trans ?_ (congrArg Prod.fst hfirst)
  have hfetch : (loneHost price accounts sign s).fetchPrice = .ok (price s.blockNumber) := rfl
  simp only [send, fetchPriceAndSendUnsignedForAnyAccount, sendUnsigned, if_neg hopen, hfetch]
  -- whatever is made of the answer, the pool is what it is
  split <;> rename_i h <;> exact congrArg Prod.fst h.symm

theorem pool_forAllAccounts (hopen : ¬ s.blockNumber < s.nextUnsignedAt) :
    (send s (loneHost price accounts sign s) s.blockNumber .unsignedForAll []).1 =
      (every (TagPool.submit (poolValidity s)) (loneRequest price accounts sign s) accounts
        []).1 := by
  have hevery := sendForAllAccounts_eq_every (poolHost s (price s.blockNumber) accounts sign)
    (payloadFor s.blockNumber (price s.blockNumber)) accounts []
  unfold send fetchPriceAndSendUnsignedForAllAccounts sendUnsigned
  rw [if_neg hopen]
  refine Eq.trans ?_ (congrArg Prod.fst hevery)
  exact apply_ite Prod.fst _ _ _ |>.trans (ite_self _)

/-- Otherwise one valid call is left in the pool, whatever the number of accounts. -/
theorem pool_of_open (hbounded : s.prices.length ≤ MAX_LEN)
    (hblock : s.blockNumber < s.blockNumber + 1) (hnext : s.nextUnsignedAt ≤ s.blockNumber)
    (hsign : SignsFor T accounts sign) (hsome : accounts ≠ [])
    (hmode : mode = .unsignedForAny ∨ mode = .unsignedForAll) :
    ∃ e, (send s (loneHost price accounts sign s) s.blockNumber mode []).1 = [e] ∧
      (poolValidity s e.request).isSome := by
  have hopen : ¬ s.blockNumber < s.nextUnsignedAt := BitVec.not_lt.mpr hnext
  set rank := (validTransaction s (price s.blockNumber)).priority.toNat
  have halike {account : T.Public} (h : account ∈ accounts) :
      ∃ call, loneRequest price accounts sign s account = some call ∧
        poolValidity s call = some (rank, [providedTag s.nextUnsignedAt]) :=
    requests_alike (price s.blockNumber) hbounded hblock hnext hsign h
  obtain ⟨account, others, haccounts⟩ := List.exists_cons_of_ne_nil hsome
  obtain ⟨call, hcall, hvalid⟩ := halike (haccounts ▸ List.mem_cons_self)
  rcases hmode with rfl | rfl
  · -- the first account submits, to an empty pool
    refine ⟨⟨call, rank, [providedTag s.nextUnsignedAt]⟩, ?_, by rw [hvalid]; rfl⟩
    rw [pool_forAnyAccount hopen]
    nth_rewrite 2 [haccounts]
    unfold first TagPool.submit
    rw [hcall]
    dsimp only
    rw [hvalid]
    exact congrArg Prod.fst (TagPool.insert_nil _)
  · -- all accounts submit, and one of the calls wins
    have hall : ∀ call ∈ accounts.filterMap (loneRequest price accounts sign s),
        poolValidity s call = some (rank, [providedTag s.nextUnsignedAt]) := by
      intro call' hcall'
      obtain ⟨account', haccount', hrequest⟩ := List.mem_filterMap.mp hcall'
      obtain ⟨call'', hcall'', hvalid'⟩ := halike haccount'
      rw [Option.some.inj (hrequest.symm.trans hcall'')]
      exact hvalid'
    have hne : accounts.filterMap (loneRequest price accounts sign s) ≠ [] :=
      List.ne_nil_of_mem (List.mem_filterMap.mpr ⟨account, haccounts ▸ List.mem_cons_self, hcall⟩)
    obtain ⟨winner, hwinner, hpool, -⟩ :=
      TagPool.exists_winner (List.cons_ne_nil _ _) hne hall
    refine ⟨⟨winner, rank, [providedTag s.nextUnsignedAt]⟩, ?_, by rw [hall winner hwinner]; rfl⟩
    rw [pool_forAllAccounts hopen, TagPool.every_eq_submitAll]
    exact hpool

end worker

/-! ## Many rounds -/

/-- The system after `k` rounds from the block `b`, when the last price is from the last multiple of
the period. -/
structure Lone (b : T.BlockNumber) (k : ℕ) (x : Storage T × RawValue) : Prop where
  block : x.1.blockNumber = b + BitVec.ofNat _ k
  bounded : x.1.prices.length ≤ MAX_LEN
  lastSend : x.2 = lastSendBefore b k
  cooling : ∀ l ∈ lastFiring (sendingPeriod T) b.toNat k,
    x.1.nextUnsignedAt.toNat = l + (T.unsignedInterval.toNat + 1)
  fresh : lastFiring (sendingPeriod T) b.toNat k = none → x.1.nextUnsignedAt ≤ x.1.blockNumber

/-- Block numbers have room for one more block and both periods. -/
def Room (b : T.BlockNumber) (k : ℕ) : Prop :=
  b.toNat + k + 1 + T.unsignedInterval.toNat < 2 ^ (8 * T.blockNumberBytes) ∧
    b.toNat + k + 1 + T.gracePeriod.toNat < 2 ^ (8 * T.blockNumberBytes)

section rounds

variable {b : T.BlockNumber} {k : ℕ} {x : Storage T × RawValue}

theorem Lone.toNat_block (h : Lone b k x) (hroom : Room b k) :
    x.1.blockNumber.toNat = b.toNat + k := by
  rw [h.block]
  exact toNat_add_ofNat (by have := hroom.1; omega)

theorem Lone.toNat_next_block (h : Lone b k x) (hroom : Room b k) :
    (x.1.blockNumber + 1).toNat = b.toNat + (k + 1) := by
  have hlt := hroom.1
  have hblock := h.toNat_block hroom
  rw [toNat_add_one (by omega), hblock]
  omega

theorem Lone.next_block (h : Lone b k x) (hroom : Room b k) :
    x.1.blockNumber + 1 = b + BitVec.ofNat _ (k + 1) := by
  have hlt := hroom.1
  apply BitVec.eq_of_toNat_eq
  rw [h.toNat_next_block hroom, toNat_add_ofNat (by omega)]

theorem Lone.lt_next_block (h : Lone b k x) (hroom : Room b k) :
    x.1.blockNumber < x.1.blockNumber + 1 := by
  rw [BitVec.lt_def, h.toNat_next_block hroom, h.toNat_block hroom]
  omega

/-- The chain is open for a price exactly if its last one has cooled down. -/
theorem Lone.open_iff (h : Lone b k x) (hroom : Room b k) :
    x.1.nextUnsignedAt ≤ x.1.blockNumber ↔
      Due (T.unsignedInterval.toNat + 1) (lastFiring (sendingPeriod T) b.toNat k)
        (b.toNat + k) := by
  cases hlast : lastFiring (sendingPeriod T) b.toNat k with
  | none =>
      apply iff_of_true (h.fresh hlast)
      simp [Due]
  | some l =>
      rw [BitVec.le_def, h.toNat_block hroom, h.cooling l hlast]
      simp [Due]

variable (price) in
/-- **The worker in a round**: after a multiple of the grace period it is told to send, and after a
multiple of the sending period this leaves a call in the pool. -/
theorem Lone.worker (h : Lone b k x) (hroom : Room b k) (hgrace : 0 < T.gracePeriod.toNat)
    (hthree : 3 ∣ T.gracePeriod.toNat) (hmode : b.toNat % 3 ≠ 0)
    (hsign : SignsFor T accounts sign) (hsome : accounts ≠ []) :
    ∃ pool result, loneWorker price accounts sign x.1 x.2 =
        .ok (lastSendBefore b (k + 1), pool, result) ∧
      (¬ sendingPeriod T ∣ k → pool = []) ∧
      (sendingPeriod T ∣ k → ∃ e, pool = [e] ∧ (poolValidity x.1 e.request).isSome) ∧
      (result = tooEarly ↔ T.gracePeriod.toNat ∣ k ∧ ¬ sendingPeriod T ∣ k) := by
  have hlt := hroom.2
  have hmodeAt := modeAt_of_three_dvd (s := b) (k := k) hgrace (by omega) hthree
  have hworker : loneWorker price accounts sign x.1 x.2 =
      .ok (lastSendBefore b (k + 1),
        send x.1 (loneHost price accounts sign x.1) x.1.blockNumber (modeAt b k) []) := by
    unfold loneWorker
    rw [offchainWorker_eq_ok h.bounded (Or.inl rfl), h.block, h.lastSend]
    rfl
  rw [hworker, hmodeAt]
  by_cases hdvd : T.gracePeriod.toNat ∣ k
  · rw [if_pos hdvd]
    have hunsigned : modeOf b = .unsignedForAny ∨ modeOf b = .unsignedForAll := by
      rw [modeOf_eq, if_neg hmode]
      split_ifs <;> simp
    have hopen : x.1.nextUnsignedAt ≤ x.1.blockNumber ↔ sendingPeriod T ∣ k :=
      (h.open_iff hroom).trans (cooled_iff hgrace (Nat.succ_pos _) b.toNat hdvd)
    have hearly : (send x.1 (loneHost price accounts sign x.1) x.1.blockNumber (modeOf b) []).2 =
        tooEarly ↔ ¬ sendingPeriod T ∣ k := by
      rw [send_tooEarly_iff hunsigned, ← hopen, BitVec.not_le]
    refine ⟨_, _, rfl, ?_, ?_, ?_⟩
    · intro hnot
      apply pool_of_early hunsigned
      exact BitVec.not_le.mp (hopen.not.mpr hnot)
    · intro hperiod
      exact pool_of_open h.bounded (h.lt_next_block hroom) (hopen.mpr hperiod) hsign hsome
        hunsigned
    · refine hearly.trans ?_
      simp [hdvd]
  · rw [if_neg hdvd]
    have hnot : ¬ sendingPeriod T ∣ k := fun hperiod =>
      hdvd ((dvd_roundUp _ _).trans hperiod)
    refine ⟨[], .ok (), rfl, fun _ => rfl, fun hperiod => absurd hperiod hnot, ?_⟩
    simp [tooEarly, hdvd]

/-- **One round.** -/
theorem Lone.round (h : Lone b k x) (hroom : Room b k) (hgrace : 0 < T.gracePeriod.toNat)
    (hthree : 3 ∣ T.gracePeriod.toNat) (hmode : b.toNat % 3 ≠ 0)
    (hsign : SignsFor T accounts sign) (hsome : accounts ≠ []) :
    ∃ x', loneRound price accounts sign x = some x' ∧ Lone b (k + 1) x' := by
  have hperiod : 0 < sendingPeriod T :=
    (Nat.succ_pos _).trans_le (le_roundUp hgrace)
  obtain ⟨pool, result, hworker, hempty, hone, -⟩ :=
    h.worker price hroom hgrace hthree hmode hsign hsome
  unfold loneRound
  rw [hworker]
  dsimp only
  by_cases hdvd : sendingPeriod T ∣ k
  · -- the call in the pool starts a new cool-down
    obtain ⟨e, rfl, hvalid⟩ := hone hdvd
    obtain ⟨s', hrun, hblock, hbounded, hnext⟩ :=
      run_blockWith_singleton h.bounded (h.lt_next_block hroom) hvalid
    have hlast : lastFiring (sendingPeriod T) b.toNat (k + 1) = some (b.toNat + k) :=
      if_pos ((due_iff_dvd hperiod b.toNat k).mpr hdvd)
    refine ⟨_, by rw [hrun]; rfl, ?_, hbounded, rfl, ?_, ?_⟩
    · rw [hblock, h.next_block hroom]
    · intro l hl
      rw [hlast, Option.mem_some_iff] at hl
      have hlt := hroom.1
      rw [hnext, BitVec.toNat_add, h.toNat_next_block hroom, Nat.mod_eq_of_lt (by omega)]
      omega
    · intro hnone
      rw [hlast] at hnone
      cases hnone
  · -- the block is empty
    obtain rfl := hempty hdvd
    have hlast : lastFiring (sendingPeriod T) b.toNat (k + 1) =
        lastFiring (sendingPeriod T) b.toNat k :=
      if_neg ((due_iff_dvd hperiod b.toNat k).not.mpr hdvd)
    refine ⟨(x.1.beginBlock (x.1.blockNumber + 1), lastSendBefore b (k + 1)),
      by rw [run_blockWith_nil (h.lt_next_block hroom)]; rfl, ?_, h.bounded, rfl, ?_, ?_⟩
    · exact h.next_block hroom
    · rw [hlast]
      exact h.cooling
    · rw [hlast]
      intro hnone
      exact BitVec.le_trans (h.fresh hnone) (BitVec.le_of_lt (h.lt_next_block hroom))

variable (price) in
/-- **Whole runs** of the system. -/
theorem lone_of_loneRounds {s₀ : Storage T} (hgrace : 0 < T.gracePeriod.toNat)
    (hthree : 3 ∣ T.gracePeriod.toNat) (hmode : s₀.blockNumber.toNat % 3 ≠ 0)
    (hbounded : s₀.prices.length ≤ MAX_LEN) (hnext : s₀.nextUnsignedAt ≤ s₀.blockNumber)
    (hsign : SignsFor T accounts sign) (hsome : accounts ≠ [])
    (hroom : Room s₀.blockNumber k) :
    ∃ x, loneRounds price accounts sign s₀ k = some x ∧ Lone s₀.blockNumber k x := by
  induction k with
  | zero =>
      refine ⟨_, rfl, ?_, hbounded, rfl, ?_, fun _ => hnext⟩
      · simp
      · intro l hl
        cases hl
  | succ k ih =>
      have hroom' : Room s₀.blockNumber k := by
        unfold Room at hroom ⊢
        omega
      obtain ⟨x, hx, h⟩ := ih hroom'
      obtain ⟨x', hx', h'⟩ := h.round hroom' hgrace hthree hmode hsign hsome
      exact ⟨x', by rw [loneRounds, hx]; exact hx', h'⟩

/-- **The period of a lone worker.** Let the grace period be a positive multiple of three, and the
first block one for an unsigned mode, in a state in which an unsigned call may be applied; let the
fetch of the price succeed in every round, and let there be an account, and every account sign what
the pallet verifies. Then the system goes on as long as block numbers have room, and in every round
`k`:
the worker is told to send exactly if `GracePeriod` divides `k`;
it leaves one valid call in the pool exactly if the least multiple of `GracePeriod` that is more
than `UnsignedInterval` divides `k`, and otherwise none;
and when it is told to send and does not, it reports that it is too early.
Source: `offchain_worker`, `choose_transaction_type`,
`fetch_price_and_send_unsigned_for_any_account`, `fetch_price_and_send_unsigned_for_all_accounts` -/
theorem lone_worker_period (s₀ : Storage T) (hgrace : 0 < T.gracePeriod.toNat)
    (hthree : 3 ∣ T.gracePeriod.toNat) (hmode : s₀.blockNumber.toNat % 3 ≠ 0)
    (hbounded : s₀.prices.length ≤ MAX_LEN) (hnext : s₀.nextUnsignedAt ≤ s₀.blockNumber)
    (hsign : SignsFor T accounts sign) (hsome : accounts ≠ [])
    (hroom : Room s₀.blockNumber k) :
    ∃ s lastSend lastSend' mode pool result,
      loneRounds price accounts sign s₀ k = some (s, lastSend) ∧
      s.blockNumber.toNat = s₀.blockNumber.toNat + k ∧
      loneWorker price accounts sign s lastSend = .ok (lastSend', pool, result) ∧
      chooseTransactionType s.blockNumber lastSend lastSend = (lastSend', mode) ∧
      (mode ≠ .none ↔ T.gracePeriod.toNat ∣ k) ∧
      pool.length = (if sendingPeriod T ∣ k then 1 else 0) ∧
      (∀ e ∈ pool, (poolValidity s e.request).isSome) ∧
      (result = tooEarly ↔ T.gracePeriod.toNat ∣ k ∧ ¬ sendingPeriod T ∣ k) := by
  obtain ⟨x, hx, h⟩ := lone_of_loneRounds price hgrace hthree hmode hbounded hnext hsign hsome hroom
  obtain ⟨pool, result, hworker, hempty, hone, hearly⟩ :=
    h.worker price hroom hgrace hthree hmode hsign hsome
  have hchoice : chooseTransactionType x.1.blockNumber x.2 x.2 =
      (lastSendBefore s₀.blockNumber (k + 1), modeAt s₀.blockNumber k) := by
    rw [h.block, h.lastSend]
    rfl
  refine ⟨x.1, x.2, _, _, pool, result, hx, h.toNat_block hroom, hworker, hchoice, ?_, ?_, ?_,
    hearly⟩
  · have hlt := hroom.2
    rw [modeAt_of_three_dvd hgrace (by omega) hthree]
    by_cases hdvd : T.gracePeriod.toNat ∣ k
    · rw [if_pos hdvd]
      apply iff_of_true ?_ hdvd
      rw [modeOf_eq, if_neg hmode]
      split_ifs <;> simp
    · simp [hdvd]
  · by_cases hdvd : sendingPeriod T ∣ k
    · obtain ⟨e, rfl, -⟩ := hone hdvd
      rw [if_pos hdvd]
      rfl
    · rw [hempty hdvd, if_neg hdvd]
      rfl
  · intro e he
    by_cases hdvd : sendingPeriod T ∣ k
    · obtain ⟨e', rfl, hvalid⟩ := hone hdvd
      rwa [List.mem_singleton.mp he]
    · rw [hempty hdvd] at he
      cases he

end rounds

end system

/-- The runtime of block 1, with two local accounts: after the third round the worker is told to
send, but it is too early. -/
theorem lone_worker_period_thirdRound :
    ∃ s lastSend lastSend' mode pool,
      loneRounds (fun _ => 100) [localKey 0, localKey 1] signsEverything
        (Storage.empty (T := localRuntime) 1) 3 = some (s, lastSend) ∧
      loneWorker (fun _ => 100) [localKey 0, localKey 1] signsEverything s lastSend =
        .ok (lastSend', pool, tooEarly) ∧
      chooseTransactionType (T := localRuntime) s.blockNumber lastSend lastSend =
        (lastSend', mode) ∧
      mode ≠ .none ∧ pool.length = 0 := by
  have hroom : Room (1 : localRuntime.BlockNumber) 3 := by
    unfold Room
    decide
  have hnot : ¬ sendingPeriod localRuntime ∣ 3 := by decide
  obtain ⟨s, lastSend, lastSend', mode, pool, result, hrounds, -, hworker, hchoice, hmode, hlength,
    -, hearly⟩ :=
    lone_worker_period (T := localRuntime) (k := 3) (Storage.empty 1) (by decide) (by decide)
      (by decide) (by decide) (by decide) (signsFor_localKeys [0, 1]) (List.cons_ne_nil _ _) hroom
  rw [if_neg hnot] at hlength
  obtain rfl := hearly.mpr ⟨by decide, hnot⟩
  exact ⟨s, lastSend, lastSend', mode, pool, hrounds, hworker, hchoice, hmode.mpr (by decide),
    hlength⟩

end OffchainPallets.ExampleOffchainWorker
