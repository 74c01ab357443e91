import OffchainPallets.Ocw.Progress
import OffchainPallets.Ocw.Replay
import OffchainPallets.Ocw.Senders

/-!
# `offchain_worker` of `pallet-ocw`

The entry point: after a block the worker uses one of four techniques, in turn. Three of them
submit the number of the block, the fourth fetches the remote info.

* `toNat_modu` — the technique is the block number modulo 4, as long as the block number is a
  `usize`; beyond that there is none.
* `lone_worker_numbers`, `lone_worker_info` — a worker that runs once after every block, on a chain
  on which what it has submitted is in the next block and nobody else submits anything: `Numbers`
  holds the last ten numbers of the blocks that are not for fetching, exactly, and the events all of
  them; the local storage keeps the first info that can be fetched.
-/

namespace OffchainPallets.Ocw

open Lib OffchainPallets.Runtime

variable {T : Config} {Pool Tx : Type}

/-- Source: `TX_TYPES` -/
def TX_TYPES : UInt32 := 4

/-- The technique, when a `usize` has so many bits.
Source: `offchain_worker` -/
def modu (usizeBits : ℕ) (blockNumber : T.BlockNumber) : UInt32 :=
  if blockNumber.toNat < 2 ^ usizeBits then UInt32.ofNat blockNumber.toNat % TX_TYPES
  else TX_TYPES

/-- A run of the worker after a block, over the pool and the local storage. The result is the one of
which the worker logs an error.
Source: `offchain_worker` -/
def offchainWorker (usizeBits : ℕ) (fromStr : String → Option HackerNewsInfo)
    (host : Offchain T Pool Tx) (remote : Remote) (blockNumber : T.BlockNumber)
    (x : Pool × FetchShared T) : (Pool × FetchShared T) × Except Error Unit :=
  match modu usizeBits blockNumber with
  | 0 =>
      let (pool, result) := offchainSignedTx host blockNumber x.1
      ((pool, x.2), result)
  | 1 =>
      let (pool, result) := offchainUnsignedTx host blockNumber x.1
      ((pool, x.2), result)
  | 2 =>
      let (pool, result) := offchainUnsignedTxSignedPayload host blockNumber x.1
      ((pool, x.2), result)
  | 3 =>
      let env : FetchEnv T T.BlockNumber := ⟨id, fromStr⟩
      let (shared, result) := fetchRemoteInfo env blockNumber remote x.2
      ((x.1, shared), result)
  | _ => (x, .error .UnknownOffchainMux)

/-- **The techniques take turns**: the cast to `u32` does not change the remainder. -/
theorem toNat_modu (usizeBits : ℕ) (n : T.BlockNumber) :
    (modu usizeBits n).toNat = if n.toNat < 2 ^ usizeBits then n.toNat % 4 else 4 := by
  unfold modu
  split_ifs with hfits
  · rw [UInt32.toNat_mod, UInt32.toNat_ofNat']
    have hfour : TX_TYPES.toNat = 4 := rfl
    rw [hfour]
    omega
  · rfl

/-- The technique determines the remainder. -/
theorem fits_of_modu {usizeBits : ℕ} {n : T.BlockNumber} {m : UInt32} (hm : m.toNat < 4)
    (h : modu usizeBits n = m) : n.toNat < 2 ^ usizeBits ∧ n.toNat % 4 = m.toNat := by
  have hmodu := toNat_modu usizeBits n
  rw [h] at hmodu
  split_ifs at hmodu with hlt
  · exact ⟨hlt, hmodu.symm⟩
  · omega

/-- There is a technique for every block number that fits. -/
theorem modu_cases {usizeBits : ℕ} {n : T.BlockNumber} (hn : n.toNat < 2 ^ usizeBits) :
    modu usizeBits n = 0 ∨ modu usizeBits n = 1 ∨ modu usizeBits n = 2 ∨
      modu usizeBits n = 3 := by
  have hmodu := toNat_modu usizeBits n
  rw [if_pos hn] at hmodu
  simp only [← UInt32.toNat_inj, UInt32.reduceToNat]
  omega

/-- A block number that is a `usize` is a `u64`, so `unwrap_or(0)` makes no difference where a
number is submitted. -/
theorem numberOf_of_lt {usizeBits : ℕ} (hbits : usizeBits ≤ 64) {n : T.BlockNumber}
    (hn : n.toNat < 2 ^ usizeBits) : numberOf n = UInt64.ofNat n.toNat := by
  have hpow : 2 ^ usizeBits ≤ 2 ^ 64 := Nat.pow_le_pow_right (by decide) hbits
  exact if_pos (hn.trans_le hpow)

/-! ## A lone worker -/

section system

variable (usizeBits : ℕ) (fromStr : String → Option HackerNewsInfo)
  (idOf : T.Public → T.AccountId) (accounts : List T.Public)
  (sign : T.Public → List UInt8 → Option T.Signature) (remote : T.BlockNumber → Remote)
  (clock : T.BlockNumber → Timestamp)

/-- Transactions with their origins. -/
abbrev TransactionPool (T : Config) := List (RawOrigin T.AccountId × Call T)

/-- The host of the worker: signed transactions are accepted, and unsigned ones that are valid. -/
def loneHost : Offchain T (TransactionPool T) (T.AccountId × Call T) where
  accounts := accounts
  sign := sign
  createTransaction account call := some (idOf account, call)
  submitTransaction pool tx := (pool ++ [(.signed tx.1, tx.2)], .ok ())
  submitUnsignedTransaction pool call :=
    match validateUnsigned call with
    | .ok _ => (pool ++ [(.none, call)], .ok ())
    | .error _ => (pool, .error ())

/-- The next block, with all that is in the pool. -/
def blockWith (s : Storage T) (pool : TransactionPool T) : List (Label T) :=
  .beginBlock (s.blockNumber + 1) :: pool.map fun x => .dispatch x.1 x.2 (.ok ())

/-- The run of the worker after a block, with an empty pool. -/
def loneWorker (x : Storage T × FetchShared T) :
    (TransactionPool T × FetchShared T) × Except Error Unit :=
  offchainWorker usizeBits fromStr (loneHost idOf accounts sign) (remote x.1.blockNumber)
    x.1.blockNumber ([], x.2.atTime (clock x.1.blockNumber))

/-- The worker runs, then the next block is built. -/
def loneRound (x : Storage T × FetchShared T) : Option (Storage T × FetchShared T) :=
  let r := loneWorker usizeBits fromStr idOf accounts sign remote clock x
  (run chainStep x.1 (blockWith x.1 r.1.1)).map fun s => (s, r.1.2)

/-- The system after so many rounds. -/
def loneRounds (x₀ : Storage T × FetchShared T) : ℕ → Option (Storage T × FetchShared T)
  | 0 => some x₀
  | k + 1 =>
      (loneRounds x₀ k).bind (loneRound usizeBits fromStr idOf accounts sign remote clock)

/-- A number is submitted after this block. -/
def Submits (usizeBits n : ℕ) : Prop := n < 2 ^ usizeBits ∧ n % 4 ≠ 3

instance (usizeBits n : ℕ) : Decidable (Submits usizeBits n) :=
  inferInstanceAs (Decidable (_ ∧ _))

/-- The numbers that are submitted after so many blocks from `b` on. -/
def numbersFrom (b k : ℕ) : List ℕ :=
  ((List.range k).map (b + ·)).filter fun n => Submits usizeBits n

/-- What `fetch_n_parse` returns after this block, if it is one for fetching. -/
def fetchedAfter (n : ℕ) : Option (Except Error HackerNewsInfo) :=
  if n < 2 ^ usizeBits ∧ n % 4 = 3 then
    some (fetchNParseFrom fromStr (remote (BitVec.ofNat _ n)) (clock (BitVec.ofNat _ n)))
  else none

/-- The infos that can be fetched after so many blocks from `b` on. -/
def infosFrom (b k : ℕ) : List HackerNewsInfo :=
  ((List.range k).map (b + ·)).filterMap fun n =>
    (fetchedAfter usizeBits fromStr remote clock n).bind Except.toOption

/-- Every account signs, and the signature verifies. -/
def SignsFor (T : Config) (accounts : List T.Public)
    (sign : T.Public → List UInt8 → Option T.Signature) : Prop :=
  ∀ account ∈ accounts, ∀ message, ∃ signature,
    sign account message = some signature ∧ T.authorityVerify message account signature = true

/-- Every fourth number is submitted by an account. -/
def submitter (who : T.AccountId) (n : ℕ) : Option T.AccountId :=
  if n % 4 = 0 then some who else none

variable {usizeBits fromStr idOf accounts sign remote clock}

/-- The next number comes after the others. -/
theorem numbersFrom_succ (b k : ℕ) :
    numbersFrom usizeBits b (k + 1) = numbersFrom usizeBits b k ++
      if Submits usizeBits (b + k) then [b + k] else [] := by
  unfold numbersFrom
  rw [List.range_succ, List.map_append, List.filter_append]
  congr 1
  simp only [List.map_cons, List.map_nil, List.filter_cons, List.filter_nil, decide_eq_true_eq]

theorem fetchedAfter_of_ne {n : ℕ} (hn : n % 4 ≠ 3) :
    fetchedAfter usizeBits fromStr remote clock n = none :=
  if_neg fun h => hn h.2

/-- The next info comes after the others. -/
theorem head?_infosFrom_succ (b k : ℕ) :
    (infosFrom usizeBits fromStr remote clock b (k + 1)).head? =
      (infosFrom usizeBits fromStr remote clock b k).head?.or
        ((fetchedAfter usizeBits fromStr remote clock (b + k)).bind Except.toOption) := by
  unfold infosFrom
  rw [List.range_succ, List.map_append, List.filterMap_append, List.head?_append]
  congr 1
  rw [List.map_cons, List.map_nil, List.filterMap_cons, List.filterMap_nil]
  cases (fetchedAfter usizeBits fromStr remote clock (b + k)).bind Except.toOption with
  | none => rfl
  | some info => rfl

/-- What is cached, if anything. -/
def cache (cached : Option HackerNewsInfo) : RawValue := cached.map HackerNewsInfo.codec.encode

theorem get_cache (cached : Option HackerNewsInfo) :
    StorageValueRef.get HackerNewsInfo.codec (cache cached) = .ok cached := by
  cases cached with
  | none => rfl
  | some info => exact StorageValueRef.get_set HackerNewsInfo.codec info

/-- What can be said of a call that goes into the next block. -/
structure Applies (who : Option T.AccountId) (n : ℕ) (origin : RawOrigin T.AccountId)
    (call : Call T) : Prop where
  number : call.number = UInt64.ofNat n
  valid : preDispatch call origin = true
  recorded : call.recordedFor origin = some who

/-! Each sender, on the host of the lone worker. -/

section senders

variable {account : T.Public} {others : List T.Public} {n : T.BlockNumber}

/-- The first account signs. -/
theorem offchainSignedTx_loneHost :
    offchainSignedTx (loneHost idOf (account :: others) sign) n [] =
      ([(.signed (idOf account), .submitNumberSigned (numberOf n))], .ok ()) := by
  simp [offchainSignedTx, first, loneHost]

/-- A bare number is always valid. -/
theorem offchainUnsignedTx_loneHost :
    offchainUnsignedTx (loneHost idOf (account :: others) sign) n [] =
      ([(.none, .submitNumberUnsigned (numberOf n))], .ok ()) := by
  simp [offchainUnsignedTx, loneHost, validateUnsigned, validTx, ValidTransactionBuilder.build]

variable (idOf n) in
/-- The first account signs the payload, and the call that carries it is valid. -/
theorem offchainUnsignedTxSignedPayload_loneHost (hsign : SignsFor T (account :: others) sign) :
    ∃ signature, preDispatch
        (.submitNumberUnsignedWithSignedPayload ⟨numberOf n, account⟩ signature) .none = true ∧
      offchainUnsignedTxSignedPayload (loneHost idOf (account :: others) sign) n [] =
        ([(.none, .submitNumberUnsignedWithSignedPayload ⟨numberOf n, account⟩ signature)],
          .ok ()) := by
  obtain ⟨signature, hsigned, hver⟩ := hsign account List.mem_cons_self
    (Payload.encode ⟨numberOf n, account⟩)
  obtain ⟨v, hv⟩ := validateUnsigned_signed_iff.mpr
    (show Payload.verify ⟨numberOf n, account⟩ signature = true from hver)
  refine ⟨signature, ?_, ?_⟩
  · simp [preDispatch, hv]
  · simp [offchainUnsignedTxSignedPayload, first, loneHost, Offchain.request, hsigned, hv]

end senders

/-- What the worker leaves after block `n`, with what is cached before and what can be fetched. -/
structure LoneOutcome (usizeBits : ℕ) (who : T.AccountId) (n : ℕ) (cached : Option HackerNewsInfo)
    (fetched : Option (Except Error HackerNewsInfo)) (pool : TransactionPool T)
    (shared : FetchShared T) (result : Except Error Unit) : Prop where
  submitted : Submits usizeBits n →
    ∃ origin call, pool = [(origin, call)] ∧ Applies (submitter who n) n origin call
  silent : ¬ Submits usizeBits n → pool = []
  unlocked : shared.lock = none
  info : shared.info = cache (cached.or (fetched.bind Except.toOption))
  error_iff : ∀ e, result = .error e ↔
    (e = .UnknownOffchainMux ∧ 2 ^ usizeBits ≤ n) ∨ (cached = none ∧ fetched = some (.error e))

/-- A call and no error, where a number has to be submitted. -/
theorem LoneOutcome.of_applies {who : T.AccountId} {n : ℕ} {cached : Option HackerNewsInfo}
    {fetched : Option (Except Error HackerNewsInfo)} {origin : RawOrigin T.AccountId}
    {call : Call T} {shared : FetchShared T} (hn : Submits usizeBits n) (hfetched : fetched = none)
    (hlock : shared.lock = none) (hinfo : shared.info = cache cached)
    (h : Applies (submitter who n) n origin call) :
    LoneOutcome usizeBits who n cached fetched [(origin, call)] shared (.ok ()) where
  submitted _ := ⟨origin, call, rfl, h⟩
  silent hnot := absurd hn hnot
  unlocked := hlock
  info := by simp [hfetched, hinfo]
  error_iff e := by simp [hfetched, hn.1]

/-- Without a lock, the worker fetches unless there is an info already. -/
theorem fetchRemoteInfo_of_cache {env : FetchEnv T T.BlockNumber} {n : T.BlockNumber}
    {remote : Remote} {shared : FetchShared T} {cached : Option HackerNewsInfo}
    (hlock : shared.lock = none) (hinfo : shared.info = cache cached) :
    fetchRemoteInfo env n remote shared =
      if cached = none then shared.conclude (fetchNParseFrom env.fromStr remote shared.now)
      else (shared, .ok ()) := by
  unfold fetchRemoteInfo
  rw [hinfo, get_cache, hlock]
  cases cached with
  | none => rfl
  | some info => rfl

variable (fromStr idOf remote clock) in
/-- **What the worker does after a block**: it submits its number, with a call that can be applied,
or fetches what is not yet cached. -/
theorem loneOutcome_loneWorker (hbits : usizeBits ≤ 64) (hsign : SignsFor T accounts sign)
    {account : T.Public} {others : List T.Public} (haccounts : accounts = account :: others)
    {x : Storage T × FetchShared T} {cached : Option HackerNewsInfo} (hlock : x.2.lock = none)
    (hinfo : x.2.info = cache cached) :
    LoneOutcome usizeBits (idOf account) x.1.blockNumber.toNat cached
      (fetchedAfter usizeBits fromStr remote clock x.1.blockNumber.toNat)
      (loneWorker usizeBits fromStr idOf accounts sign remote clock x).1.1
      (loneWorker usizeBits fromStr idOf accounts sign remote clock x).1.2
      (loneWorker usizeBits fromStr idOf accounts sign remote clock x).2 := by
  subst haccounts
  unfold loneWorker offchainWorker
  generalize x.1.blockNumber = n
  have hlock' : (x.2.atTime (clock n)).lock = none := hlock
  have hinfo' : (x.2.atTime (clock n)).info = cache cached := hinfo
  have hnow : (x.2.atTime (clock n)).now = clock n := rfl
  generalize x.2.atTime (clock n) = shared at hlock' hinfo' hnow ⊢
  -- one case per technique, in the order of the source
  split
  · rename_i hzero
    obtain ⟨hlt, (hmod : n.toNat % 4 = 0)⟩ := fits_of_modu (by decide) hzero
    rw [offchainSignedTx_loneHost]
    apply LoneOutcome.of_applies ⟨hlt, by omega⟩ (fetchedAfter_of_ne (by omega)) hlock' hinfo'
    refine ⟨numberOf_of_lt hbits hlt, rfl, ?_⟩
    rw [submitter, if_pos hmod]
    rfl
  · rename_i hone
    obtain ⟨hlt, (hmod : n.toNat % 4 = 1)⟩ := fits_of_modu (by decide) hone
    rw [offchainUnsignedTx_loneHost]
    apply LoneOutcome.of_applies ⟨hlt, by omega⟩ (fetchedAfter_of_ne (by omega)) hlock' hinfo'
    refine ⟨numberOf_of_lt hbits hlt, rfl, ?_⟩
    rw [submitter, if_neg (by omega)]
    rfl
  · rename_i htwo
    obtain ⟨hlt, (hmod : n.toNat % 4 = 2)⟩ := fits_of_modu (by decide) htwo
    obtain ⟨signature, hvalid, hsender⟩ :=
      offchainUnsignedTxSignedPayload_loneHost idOf n hsign
    rw [hsender]
    apply LoneOutcome.of_applies ⟨hlt, by omega⟩ (fetchedAfter_of_ne (by omega)) hlock' hinfo'
    refine ⟨numberOf_of_lt hbits hlt, hvalid, ?_⟩
    rw [submitter, if_neg (by omega)]
    rfl
  · rename_i hthree
    obtain ⟨hlt, (hmod : n.toNat % 4 = 3)⟩ := fits_of_modu (by decide) hthree
    dsimp only
    rw [fetchRemoteInfo_of_cache hlock' hinfo', hnow, fetchedAfter, if_pos ⟨hlt, hmod⟩,
      BitVec.ofNat_toNat, BitVec.setWidth_eq]
    have hnot : ¬ Submits usizeBits n.toNat := fun h => h.2 hmod
    cases cached with
    | some info =>
        exact {
          submitted := fun h => absurd h hnot
          silent := fun _ => rfl
          unlocked := hlock'
          info := hinfo'
          error_iff := fun e => by simp [hlt] }
    | none =>
        rw [if_pos rfl]
        generalize fetchNParseFrom fromStr (remote n) (clock n) = fetched
        cases fetched with
        | ok info =>
            exact {
              submitted := fun h => absurd h hnot
              silent := fun _ => rfl
              unlocked := rfl
              info := rfl
              error_iff := fun e => by simp [FetchShared.conclude, hlt] }
        | error err =>
            exact {
              submitted := fun h => absurd h hnot
              silent := fun _ => rfl
              unlocked := rfl
              info := hinfo'
              error_iff := fun e => by simp [FetchShared.conclude, hlt] }
  · rename_i hzero hone htwo hthree
    have hlarge : 2 ^ usizeBits ≤ n.toNat := by
      by_contra hlt
      rcases modu_cases (not_le.mp hlt) with h | h | h | h
      · exact hzero h
      · exact hone h
      · exact htwo h
      · exact hthree h
    have hfetched : ¬ (n.toNat < 2 ^ usizeBits ∧ n.toNat % 4 = 3) := by omega
    rw [fetchedAfter, if_neg hfetched]
    exact {
      submitted := fun hsubmits => absurd hsubmits.1 (not_lt.mpr hlarge)
      silent := fun _ => rfl
      unlocked := hlock'
      info := by simp [hinfo']
      error_iff := fun e => by simp [hlarge, eq_comm] }

/-! Rounds. -/

/-- The event for a number of the worker. -/
def newNumber (who : T.AccountId) (n : ℕ) : Event T :=
  .NewNumber (submitter who n) (UInt64.ofNat n)

/-- The system after so many rounds from block `b` on. -/
structure Lone (usizeBits : ℕ) (fromStr : String → Option HackerNewsInfo)
    (remote : T.BlockNumber → Remote) (clock : T.BlockNumber → Timestamp) (who : T.AccountId)
    (b k : ℕ) (x : Storage T × FetchShared T) : Prop where
  block : x.1.blockNumber.toNat = b + k
  numbers : x.1.numbers = ((numbersFrom usizeBits b k).map UInt64.ofNat).rtake NUM_VEC_LEN
  events : x.1.events = (numbersFrom usizeBits b k).map (newNumber who)
  unlocked : x.2.lock = none
  info : x.2.info = cache (infosFrom usizeBits fromStr remote clock b k).head?

/-- What the next block makes of the pool. -/
theorem run_blockWith {who : T.AccountId} {s : Storage T} {pool : TransactionPool T}
    (hroom : s.blockNumber.toNat + 1 < 2 ^ (8 * T.blockNumberBytes))
    (hsubmitted : Submits usizeBits s.blockNumber.toNat →
      ∃ origin call, pool = [(origin, call)] ∧
        Applies (submitter who s.blockNumber.toNat) s.blockNumber.toNat origin call)
    (hsilent : ¬ Submits usizeBits s.blockNumber.toNat → pool = []) :
    run chainStep s (blockWith s pool) = some {
      blockNumber := s.blockNumber + 1
      numbers := if Submits usizeBits s.blockNumber.toNat then
        pushBounded NUM_VEC_LEN s.numbers (UInt64.ofNat s.blockNumber.toNat) else s.numbers
      events := s.events ++ if Submits usizeBits s.blockNumber.toNat then
        [newNumber who s.blockNumber.toNat] else [] } := by
  have hnext := toNat_add_one hroom
  have hlt : s.blockNumber < s.blockNumber + 1 := by
    rw [BitVec.lt_def, hnext]
    omega
  have hbegin : chainStep s (.beginBlock (s.blockNumber + 1)) =
      some { s with blockNumber := s.blockNumber + 1 } := if_pos hlt
  by_cases hsubmits : Submits usizeBits s.blockNumber.toNat
  · obtain ⟨origin, call, rfl, happlies⟩ := hsubmitted hsubmits
    have hne : s.blockNumber + 1 ≠ 0 := by
      intro hzero
      rw [hzero] at hlt
      exact BitVec.not_lt_zero hlt
    rw [blockWith, run_cons, hbegin, Option.bind_some, List.map_cons, List.map_nil, run_cons]
    rw [chainStep, if_pos happlies.valid, step, dispatch_eq, happlies.recorded,
      Option.elim_some, if_pos rfl, Option.bind_some, run_nil, happlies.number, if_pos hsubmits,
      if_pos hsubmits, Storage.submitted, depositEvent_of_ne_zero hne, newNumber]
  · obtain rfl := hsilent hsubmits
    rw [blockWith, run_cons, hbegin, Option.bind_some, List.map_nil, run_nil, if_neg hsubmits,
      if_neg hsubmits, List.append_nil]

/-- **One round**: the number of the block is pushed, or what can be fetched is cached. -/
theorem Lone.round (hbits : usizeBits ≤ 64) (hsign : SignsFor T accounts sign)
    {account : T.Public} {others : List T.Public} (haccounts : accounts = account :: others)
    {b k : ℕ} {x : Storage T × FetchShared T}
    (h : Lone usizeBits fromStr remote clock (idOf account) b k x)
    (hroom : b + (k + 1) < 2 ^ (8 * T.blockNumberBytes)) :
    ∃ x', loneRound usizeBits fromStr idOf accounts sign remote clock x = some x' ∧
      Lone usizeBits fromStr remote clock (idOf account) b (k + 1) x' := by
  have hworker := loneOutcome_loneWorker fromStr idOf remote clock hbits hsign haccounts
    h.unlocked h.info
  have hblock := run_blockWith (by rw [h.block]; omega) hworker.submitted hworker.silent
  unfold loneRound
  dsimp only
  rw [hblock]
  refine ⟨_, rfl, ?_, ?_, ?_, hworker.unlocked, ?_⟩
  · show (x.1.blockNumber + 1).toNat = b + (k + 1)
    rw [toNat_add_one (by rw [h.block]; omega), h.block]
    omega
  · dsimp only
    rw [h.block, h.numbers, numbersFrom_succ, List.map_append]
    split_ifs
    · exact pushBounded_rtake (by decide) _ _
    · rw [List.map_nil, List.append_nil]
  · dsimp only
    rw [h.block, h.events, numbersFrom_succ, List.map_append]
    congr 1
    split_ifs
    · rfl
    · rfl
  · rw [hworker.info, h.block, head?_infosFrom_succ]

variable (fromStr idOf remote clock) in
/-- **Whole runs** of the system. -/
theorem lone_of_loneRounds (hbits : usizeBits ≤ 64) (hsign : SignsFor T accounts sign)
    {account : T.Public} {others : List T.Public} (haccounts : accounts = account :: others)
    {b : T.BlockNumber} {k : ℕ} (hroom : b.toNat + k < 2 ^ (8 * T.blockNumberBytes))
    (now : Timestamp) :
    ∃ x, loneRounds usizeBits fromStr idOf accounts sign remote clock
        (Storage.empty b, ⟨now, none, none⟩) k = some x ∧
      Lone usizeBits fromStr remote clock (idOf account) b.toNat k x := by
  induction k with
  | zero => exact ⟨_, rfl, rfl, rfl, rfl, rfl, rfl⟩
  | succ k ih =>
      obtain ⟨x, hx, h⟩ := ih (by omega)
      obtain ⟨x', hx', h'⟩ := h.round hbits hsign haccounts hroom
      exact ⟨x', by rw [loneRounds, hx]; exact hx', h'⟩

/-- **The numbers of a lone worker.** Let there be an account, and every account sign what the
pallet verifies, and let a `usize` have at most 64 bits. As long as block numbers have room,
`Numbers` holds the last ten numbers of the blocks that are not for fetching, and the event log all
of them, every fourth one with the account of the worker. No number is submitted of a block that is
not a `usize`.
Source: `offchain_worker`, `offchain_signed_tx`, `offchain_unsigned_tx`,
`offchain_unsigned_tx_signed_payload` -/
theorem lone_worker_numbers (hbits : usizeBits ≤ 64) (hsign : SignsFor T accounts sign)
    {account : T.Public} {others : List T.Public} (haccounts : accounts = account :: others)
    {b : T.BlockNumber} {k : ℕ} (hroom : b.toNat + k < 2 ^ (8 * T.blockNumberBytes))
    (now : Timestamp) :
    ∃ s shared, loneRounds usizeBits fromStr idOf accounts sign remote clock
        (Storage.empty b, ⟨now, none, none⟩) k = some (s, shared) ∧
      s.blockNumber.toNat = b.toNat + k ∧
      s.numbers = ((numbersFrom usizeBits b.toNat k).map UInt64.ofNat).rtake NUM_VEC_LEN ∧
      s.events = (numbersFrom usizeBits b.toNat k).map (newNumber (idOf account)) := by
  obtain ⟨x, hx, h⟩ := lone_of_loneRounds fromStr idOf remote clock hbits hsign
    haccounts hroom now
  exact ⟨x.1, x.2, hx, h.block, h.numbers, h.events⟩

/-- **The info of a lone worker.** Under the same assumptions, and whether its host can fetch or
not, it keeps the first info it can fetch for ever, and releases the lock after every round. The
errors it logs are those of `fetch_n_parse` before that, and `UnknownOffchainMux` from the first
block number on that is not a `usize`.
Source: `offchain_worker`, `fetch_remote_info`, `fetch_n_parse` -/
theorem lone_worker_info (hbits : usizeBits ≤ 64) (hsign : SignsFor T accounts sign)
    {account : T.Public} {others : List T.Public} (haccounts : accounts = account :: others)
    {b : T.BlockNumber} {k : ℕ} (hroom : b.toNat + k < 2 ^ (8 * T.blockNumberBytes))
    (now : Timestamp) :
    ∃ s shared, loneRounds usizeBits fromStr idOf accounts sign remote clock
        (Storage.empty b, ⟨now, none, none⟩) k = some (s, shared) ∧
      shared.lock = none ∧
      StorageValueRef.get HackerNewsInfo.codec shared.info =
        .ok (infosFrom usizeBits fromStr remote clock b.toNat k).head? ∧
      ∀ e, (loneWorker usizeBits fromStr idOf accounts sign remote clock (s, shared)).2 =
          .error e ↔
        (e = .UnknownOffchainMux ∧ 2 ^ usizeBits ≤ b.toNat + k) ∨
          (infosFrom usizeBits fromStr remote clock b.toNat k = [] ∧
            fetchedAfter usizeBits fromStr remote clock (b.toNat + k) = some (.error e)) := by
  obtain ⟨x, hx, h⟩ := lone_of_loneRounds fromStr idOf remote clock hbits hsign
    haccounts hroom now
  have hworker := loneOutcome_loneWorker fromStr idOf remote clock hbits hsign haccounts
    h.unlocked h.info
  refine ⟨x.1, x.2, hx, h.unlocked, ?_, ?_⟩
  · rw [h.info, get_cache]
  · intro e
    have herror := hworker.error_iff e
    rwa [h.block, List.head?_eq_none_iff] at herror

end system

/-! ## The runtime -/

/-- The runtime, in which the signatures of the keystore verify. -/
abbrev localRuntime : Config := ocw fun _ _ _ => true

/-- The key of the only local account. -/
def localKey : MultiSigner := .sr25519 (List.Vector.replicate 32 1)

/-- The account of a key: an `sr25519` key is its own account. -/
def accountOf : MultiSigner → List.Vector UInt8 32
  | .sr25519 key => key
  | _ => List.Vector.replicate 32 0

/-- A keystore that signs for every key. -/
def signsEverything (_ : MultiSigner) (_ : List UInt8) : Option MultiSignature :=
  some (.sr25519 (List.Vector.replicate 64 0))

theorem signsFor_localKey : SignsFor localRuntime [localKey] signsEverything := by
  intro account haccount message
  obtain rfl := List.mem_singleton.mp haccount
  exact ⟨_, rfl, rfl⟩

/-- Fourteen rounds from block 1 on: eleven numbers are submitted, and the first one is dropped. -/
theorem lone_worker_numbers_fourteen :
    ∃ s shared, loneRounds 64 twoWorkers.fromStr accountOf [localKey] signsEverything
        (fun _ => answering) (fun _ => 0) (Storage.empty (T := localRuntime) 1, ⟨0, none, none⟩)
        14 = some (s, shared) ∧
      s.numbers = [2, 4, 5, 6, 8, 9, 10, 12, 13, 14] := by
  obtain ⟨s, shared, hrounds, -, hnumbers, -⟩ := lone_worker_numbers (T := localRuntime) (k := 14)
    (b := 1) le_rfl signsFor_localKey rfl (by decide) 0
  have hfourteen : numbersFrom 64 (1 : localRuntime.BlockNumber).toNat 14 =
      [1, 2, 4, 5, 6, 8, 9, 10, 12, 13, 14] := by decide
  rw [hfourteen] at hnumbers
  exact ⟨s, shared, hrounds, hnumbers⟩

/-- Three rounds from block 1 on: the item is fetched after block 3. -/
theorem lone_worker_info_three :
    ∃ s shared, loneRounds 64 twoWorkers.fromStr accountOf [localKey] signsEverything
        (fun _ => answering) (fun _ => 0) (Storage.empty (T := localRuntime) 1, ⟨0, none, none⟩)
        3 = some (s, shared) ∧
      StorageValueRef.get HackerNewsInfo.codec shared.info = .ok (some item) := by
  obtain ⟨s, shared, hrounds, -, hinfo, -⟩ := lone_worker_info (T := localRuntime) (k := 3)
    (b := 1) le_rfl signsFor_localKey rfl (by decide) 0
  exact ⟨s, shared, hrounds, hinfo⟩

end OffchainPallets.Ocw
