import Mathlib.Data.Fintype.Basic
import OffchainPallets.Host
import OffchainPallets.Lib.Lease
import OffchainPallets.Ocw.Pallet

/-!
# `fetch_remote_info` in concurrent workers

The offchain workers of a node share the cache `offchain-demo::hn-info`, the lock
`offchain-demo::lock` and the clock of the host. `fetchAct` is `fetch_remote_info` cut into its
atomic steps, and `fetchNParse` the part of it in `fetch_n_parse`, with `fetch_from_remote`.
`fetchStep` lets the workers and the clock interleave. A call to the host that was given a deadline
returns by then, so the clock waits for it; everything else, the reading of the body of the response
among it, may take any time.

`fetchAct_eq_some` says everything a worker can do. Seen from the lock, the workers are those of
`Lease` (`leaseOf_step`): a `try_lock` that finds a deadline of which both parts have passed
overtakes the worker that stored it.
-/

namespace OffchainPallets.Ocw

open Lib

variable {T : Config}

/-- Source: `FETCH_TIMEOUT_PERIOD` -/
def FETCH_TIMEOUT_PERIOD : UInt64 := 3000

/-- Source: `LOCK_TIMEOUT_EXPIRATION` -/
def LOCK_TIMEOUT_EXPIRATION : UInt64 := FETCH_TIMEOUT_PERIOD + 1000

/-- Source: `LOCK_BLOCK_EXPIRATION` -/
def LOCK_BLOCK_EXPIRATION : UInt32 := 3

/-- Source: `Error` -/
inductive Error where
  | UnknownOffchainMux
  | NoLocalAcctForSigning
  | OffchainSignedTxError
  | OffchainUnsignedTxError
  | OffchainUnsignedTxSignedPayloadError
  | HttpFetchingError
  | DeserializeToObjError
  | DeserializeToStrError
  deriving DecidableEq, Repr

/-- Source: `HackerNewsInfo` -/
structure HackerNewsInfo where
  «by» : Codec.Bytes
  title : Codec.Bytes
  url : Codec.Bytes
  descendants : UInt32
  deriving DecidableEq

/-- The derived SCALE encoding: the fields in order.
Source: `HackerNewsInfo` -/
def HackerNewsInfo.codec : Codec HackerNewsInfo :=
  (Codec.bytes.pair (Codec.bytes.pair (Codec.bytes.pair Codec.u32))).map
    (fun x => (x.by, x.title, x.url, x.descendants)) (fun x => ⟨x.1, x.2.1, x.2.2.1, x.2.2.2⟩)
    fun _ => rfl

/-! ## What the workers share, and where they stand -/

/-- What the workers share. -/
structure FetchShared (T : Config) where
  /-- `sp_io::offchain::timestamp()`. -/
  now : Timestamp
  /-- The raw value of `offchain-demo::hn-info`. -/
  info : RawValue
  /-- The deadline under `offchain-demo::lock`. -/
  lock : Option (BlockAndTimeDeadline T.toSystem)

/-- Where a worker with a guard stands. -/
inductive Stage where
  /-- At the beginning of `fetch_n_parse`. -/
  | entered
  /-- With the deadline for the calls to come. -/
  | timed (timeout : Timestamp)
  /-- In `send`, with its deadline. -/
  | sending (timeout : Timestamp)
  /-- Between `send` and `try_wait`. -/
  | pending (timeout : Timestamp)
  /-- In `try_wait`, with its deadline. -/
  | waiting (timeout : Timestamp)
  /-- In `response.body().collect()`. -/
  | reading
  /-- After `fetch_n_parse`. -/
  | returned (result : Except Error HackerNewsInfo)
  /-- After `s_info.set`. -/
  | stored
  deriving DecidableEq

/-- Where a worker stands. -/
inductive FetchPhase where
  | start
  /-- After the test of the cache, before `try_lock`. -/
  | missed
  | guarded (stage : Stage)
  | finished (result : Except Error Unit)
  deriving DecidableEq

/-- An atomic step of a worker; the results of the calls to the host stand in it. -/
inductive FetchAct where
  | readCache
  | tryLock
  /-- Read the time. -/
  | timestamp
  /-- Call `send`. -/
  | request
  | sent (result : Except HttpError Unit)
  /-- Call `try_wait`. -/
  | wait
  /-- `try_wait` returns, `none` at its deadline; a response has a status code. -/
  | waited (result : Option (Except Http.Error UInt16))
  | body (bytes : List UInt8)
  | store
  /-- Drop the guard and return. -/
  | release

/-- A step of `fetch_n_parse`. -/
def FetchAct.fetches : FetchAct → Bool
  | .timestamp => true
  | .request => true
  | .sent _ => true
  | .wait => true
  | .waited _ => true
  | .body _ => true
  | _ => false

/-- Inside `fetch_n_parse`. -/
def Stage.inside : Stage → Bool
  | .returned _ => false
  | .stored => false
  | _ => true

/-- Inside `fetch_n_parse`. -/
def FetchPhase.inside : FetchPhase → Bool
  | .guarded stage => stage.inside
  | _ => false

/-- Between a successful `try_lock` and the drop of its guard. -/
def FetchPhase.holdsGuard : FetchPhase → Bool
  | .guarded _ => true
  | _ => false

/-- The host still owes the worker nothing at this time: no call has passed its deadline. -/
def FetchPhase.allows (now : Timestamp) : FetchPhase → Bool
  | .guarded (.sending timeout) => now ≤ timeout
  | .guarded (.waiting timeout) => now ≤ timeout
  | _ => true

/-! ## The steps -/

/-- What `fetch_n_parse` makes of the body, with `serde_json::from_str` as a parameter.
Source: `fetch_n_parse` -/
def parseInfo (fromStr : String → Option HackerNewsInfo) (bytes : List UInt8) :
    Except Error HackerNewsInfo :=
  match String.fromUTF8? ⟨bytes.toArray⟩ with
  | none => .error .DeserializeToStrError
  | some s =>
      match fromStr s with
      | none => .error .DeserializeToObjError
      | some info => .ok info

/-- Source: `fetch_n_parse`, `fetch_from_remote` -/
def fetchNParse (fromStr : String → Option HackerNewsInfo) (now : Timestamp) :
    Stage → FetchAct → Option Stage
  | .entered, .timestamp => some (.timed (now.add FETCH_TIMEOUT_PERIOD))
  | .timed timeout, .request => some (.sending timeout)
  | .sending _, .sent (.error _) => some (.returned (.error .HttpFetchingError))
  | .sending timeout, .sent (.ok ()) => some (.pending timeout)
  | .pending timeout, .wait => some (.waiting timeout)
  | .waiting _, .waited none => some (.returned (.error .HttpFetchingError))
  | .waiting _, .waited (some (.error _)) => some (.returned (.error .HttpFetchingError))
  | .waiting _, .waited (some (.ok code)) =>
      if code ≠ 200 then some (.returned (.error .HttpFetchingError)) else some .reading
  | .reading, .body bytes => some (.returned (parseInfo fromStr bytes))
  | _, _ => none

/-- What the workers run with. -/
structure FetchEnv (T : Config) (ι : Type) where
  /-- `current_block_number()`: the block after which the worker runs. -/
  blockNumber : ι → T.BlockNumber
  /-- `serde_json::from_str::<HackerNewsInfo>`. -/
  fromStr : String → Option HackerNewsInfo

section workers

variable {ι : Type} (env : FetchEnv T ι)

/-- The deadline that `StorageLock::with_block_and_time_deadline` gives the lock of a worker.
Source: `fetch_remote_info` -/
def newDeadline (i : ι) (now : Timestamp) : BlockAndTimeDeadline T.toSystem :=
  .ofOffset now (env.blockNumber i) (BitVec.ofNat _ LOCK_BLOCK_EXPIRATION.toNat)
    LOCK_TIMEOUT_EXPIRATION

theorem newDeadline_timestamp (i : ι) (now : Timestamp) :
    (newDeadline env i now).timestamp = now.add LOCK_TIMEOUT_EXPIRATION := by
  rw [newDeadline, BlockAndTimeDeadline.ofOffset]

/-- Source: `fetch_remote_info` -/
def fetchAct (i : ι) (sh : FetchShared T) :
    FetchPhase → FetchAct → Option (FetchShared T × FetchPhase)
  | .start, .readCache =>
      match StorageValueRef.get HackerNewsInfo.codec sh.info with
      | .ok (some _) => some (sh, .finished (.ok ()))
      | _ => some (sh, .missed)
  | .missed, .tryLock =>
      match BlockAndTimeDeadline.tryLock sh.now (env.blockNumber i) (newDeadline env i sh.now)
          sh.lock with
      | some d => some ({ sh with lock := some d }, .guarded .entered)
      | none => some (sh, .finished (.ok ()))
  | .guarded (.returned (.ok info)), .store =>
      some ({ sh with info := StorageValueRef.set HackerNewsInfo.codec info }, .guarded .stored)
  | .guarded (.returned (.error e)), .release =>
      some ({ sh with lock := none }, .finished (.error e))
  | .guarded .stored, .release => some ({ sh with lock := none }, .finished (.ok ()))
  | .guarded stage, a => (fetchNParse env.fromStr sh.now stage a).map fun stage =>
      (sh, .guarded stage)
  | _, _ => none

/-- The workers of a node. -/
abbrev Fetching (T : Config) (ι : Type) := Workers ι (FetchShared T) FetchPhase

/-- Time passes, or a worker takes a step. -/
inductive FetchLabel (ι : Type) where
  | tick (now : Timestamp)
  | act (i : ι) (a : FetchAct)

/-- One step of the node. -/
def fetchStep [DecidableEq ι] [Fintype ι] (w : Fetching T ι) : FetchLabel ι → Option (Fetching T ι)
  | .tick now =>
      if w.shared.now ≤ now ∧ ∀ i, (w.phase i).allows now then
        some { w with shared := { w.shared with now := now } }
      else none
  | .act i a => Workers.step (fetchAct env) w (i, a)

/-! ## Everything a step can do -/

/-- The branches of `fetchAct`, by name. -/
inductive FetchActs (i : ι) (sh : FetchShared T) :
    FetchPhase → FetchAct → FetchShared T → FetchPhase → Prop
  /-- The cache holds a value. -/
  | hit (info : HackerNewsInfo)
      (h : StorageValueRef.get HackerNewsInfo.codec sh.info = .ok (some info)) :
      FetchActs i sh .start .readCache sh (.finished (.ok ()))
  /-- The cache holds no value that decodes. -/
  | miss (h : ∀ info, StorageValueRef.get HackerNewsInfo.codec sh.info ≠ .ok (some info)) :
      FetchActs i sh .start .readCache sh .missed
  /-- The lock is set and has not expired. -/
  | refused (d : BlockAndTimeDeadline T.toSystem) (hd : sh.lock = some d)
      (h : d.hasExpired sh.now (env.blockNumber i) = false) :
      FetchActs i sh .missed .tryLock sh (.finished (.ok ()))
  /-- The lock is not set or has expired. -/
  | locked (h : ∀ d, sh.lock = some d → d.hasExpired sh.now (env.blockNumber i) = true) :
      FetchActs i sh .missed .tryLock { sh with lock := some (newDeadline env i sh.now) }
        (.guarded .entered)
  /-- One step of `fetch_n_parse`. -/
  | fetch (stage stage' : Stage) (a : FetchAct)
      (h : fetchNParse env.fromStr sh.now stage a = some stage') :
      FetchActs i sh (.guarded stage) a sh (.guarded stage')
  | store (info : HackerNewsInfo) :
      FetchActs i sh (.guarded (.returned (.ok info))) .store
        { sh with info := StorageValueRef.set HackerNewsInfo.codec info } (.guarded .stored)
  | failed (e : Error) :
      FetchActs i sh (.guarded (.returned (.error e))) .release { sh with lock := none }
        (.finished (.error e))
  | done :
      FetchActs i sh (.guarded .stored) .release { sh with lock := none } (.finished (.ok ()))

variable {env} {i : ι} {sh sh' : FetchShared T} {p p' : FetchPhase} {a : FetchAct}

theorem fetchActs_of_eq_some (h : fetchAct env i sh p a = some (sh', p')) :
    FetchActs env i sh p a sh' p' := by
  unfold fetchAct at h
  split at h
  · split at h
    · rename_i info hinfo
      cases h
      exact .hit info hinfo
    · rename_i hmiss
      cases h
      exact .miss fun info hinfo => hmiss info hinfo
  · split at h
    · rename_i d hd
      cases h
      obtain ⟨rfl, hexp⟩ := BlockAndTimeDeadline.tryLock_eq_some.mp hd
      exact .locked hexp
    · rename_i hnone
      cases h
      obtain ⟨d, hd, hexp⟩ := BlockAndTimeDeadline.tryLock_eq_none.mp hnone
      exact .refused d hd hexp
  · cases h
    exact .store _
  · cases h
    exact .failed _
  · cases h
    exact .done
  · rw [Option.map_eq_some_iff] at h
    obtain ⟨stage', hstage, h⟩ := h
    cases h
    exact .fetch _ stage' _ hstage
  · cases h

/-- `fetch_n_parse` takes its steps inside and ends with a result. -/
theorem fetchNParse_eq_some {fromStr : String → Option HackerNewsInfo} {now : Timestamp}
    {stage stage' : Stage} (h : fetchNParse fromStr now stage a = some stage') :
    a.fetches = true ∧ stage.inside = true ∧
      (stage'.inside = true ∨ ∃ result, stage' = .returned result) := by
  unfold fetchNParse at h
  split at h
  · cases h; exact ⟨rfl, rfl, Or.inl rfl⟩
  · cases h; exact ⟨rfl, rfl, Or.inl rfl⟩
  · cases h; exact ⟨rfl, rfl, Or.inr ⟨_, rfl⟩⟩
  · cases h; exact ⟨rfl, rfl, Or.inl rfl⟩
  · cases h; exact ⟨rfl, rfl, Or.inl rfl⟩
  · cases h; exact ⟨rfl, rfl, Or.inr ⟨_, rfl⟩⟩
  · cases h; exact ⟨rfl, rfl, Or.inr ⟨_, rfl⟩⟩
  · split_ifs at h with hcode <;> cases h
    · exact ⟨rfl, rfl, Or.inr ⟨_, rfl⟩⟩
    · exact ⟨rfl, rfl, Or.inl rfl⟩
  · cases h; exact ⟨rfl, rfl, Or.inr ⟨_, rfl⟩⟩
  · cases h

section step

variable [DecidableEq ι] [Fintype ι] {w w' : Fetching T ι}

theorem fetchStep_tick {now : Timestamp} (h : fetchStep env w (.tick now) = some w') :
    w' = { w with shared := { w.shared with now := now } } := by
  simp only [fetchStep, Option.ite_none_right_eq_some, Option.some.injEq] at h
  exact h.2.symm

/-- A step of a worker is one of its branches. -/
theorem fetchStep_act (h : fetchStep env w (.act i a) = some w') :
    ∃ sh p, FetchActs env i w.shared (w.phase i) a sh p ∧
      w' = ⟨sh, Function.update w.phase i p⟩ := by
  obtain ⟨sh, p, hact, rfl⟩ := Workers.step_eq_some.mp h
  exact ⟨sh, p, fetchActs_of_eq_some hact, rfl⟩

end step

/-! ## The workers, seen from the lock -/

/-- Who holds a guard, and whether a deadline is stored. -/
def leaseOf (w : Fetching T ι) : Lease ι := ⟨fun i => (w.phase i).holdsGuard, w.shared.lock.isSome⟩

theorem held_of_guarded {w : Fetching T ι} {i : ι} {stage : Stage}
    (h : w.phase i = .guarded stage) : (leaseOf w).held i = true := by
  show (w.phase i).holdsGuard = true
  simp [h, FetchPhase.holdsGuard]

/-- A step in a state as a step of the lock. -/
def leaseLabel (env : FetchEnv T ι) (w : Fetching T ι) : FetchLabel ι → Lease.Label ι
  | .act i .tryLock =>
      match w.shared.lock with
      | none => .acquire i
      | some d => if d.hasExpired w.shared.now (env.blockNumber i) then .overtake i else .other
  | .act i .release => .release i
  | _ => .other

theorem leaseLabel_of_fetches (env : FetchEnv T ι) (w : Fetching T ι) (i : ι)
    (ha : a.fetches = true) : leaseLabel env w (.act i a) = .other := by
  cases a <;> first | rfl | cases ha

variable [DecidableEq ι] {w w' : Fetching T ι} {l : FetchLabel ι}

theorem leaseOf_update (w : Fetching T ι) (sh : FetchShared T) (i : ι) (p : FetchPhase) :
    leaseOf ⟨sh, Function.update w.phase i p⟩ =
      ⟨Function.update (leaseOf w).held i p.holdsGuard, sh.lock.isSome⟩ := by
  rw [leaseOf, Lease.mk.injEq]
  refine ⟨?_, rfl⟩
  funext j
  exact Function.apply_update (fun _ => FetchPhase.holdsGuard) w.phase i p j

/-- A worker that keeps its guard, or goes on without one, does nothing to the lock. -/
theorem leaseOf_update_of_eq {sh : FetchShared T} (hlock : sh.lock = w.shared.lock)
    (hp : p.holdsGuard = (w.phase i).holdsGuard) :
    leaseOf ⟨sh, Function.update w.phase i p⟩ = leaseOf w := by
  rw [leaseOf_update, hp, hlock]
  exact congrArg (Lease.mk · _) (Function.update_eq_self i (leaseOf w).held)

/-- **The lock is a lease.** Every step of the node is a step of the lock. -/
theorem leaseOf_step [Fintype ι] (h : fetchStep env w l = some w') :
    Lease.step (leaseOf w) (leaseLabel env w l) = some (leaseOf w') := by
  cases l with
  | tick now =>
      rw [fetchStep_tick h]
      rfl
  | act i a =>
      obtain ⟨sh, p, hact, rfl⟩ := fetchStep_act h
      have hheld : (leaseOf w).held i = (w.phase i).holdsGuard := rfl
      have hlocked : (leaseOf w).locked = w.shared.lock.isSome := rfl
      generalize hp : w.phase i = p₀ at hact hheld
      cases hact with
      | hit info hinfo =>
          rw [leaseOf_update_of_eq rfl (by simp [hp, FetchPhase.holdsGuard])]
          rfl
      | miss hmiss =>
          rw [leaseOf_update_of_eq rfl (by simp [hp, FetchPhase.holdsGuard])]
          rfl
      | refused d hd hexp =>
          rw [leaseOf_update_of_eq rfl (by simp [hp, FetchPhase.holdsGuard]), leaseLabel, hd]
          simp only [hexp, Bool.false_eq_true, if_false]
          rfl
      | locked hexp =>
          rw [leaseOf_update, leaseLabel]
          cases hd : w.shared.lock with
          | none => exact Lease.step_eq_some.mpr ⟨by rw [hlocked, hd]; rfl, hheld, rfl⟩
          | some d' =>
              dsimp only
              rw [if_pos (hexp d' hd)]
              exact Lease.step_eq_some.mpr ⟨by rw [hlocked, hd]; rfl, hheld, rfl⟩
      | fetch stage stage' a hfetch =>
          rw [leaseOf_update_of_eq rfl (by simp [hp, FetchPhase.holdsGuard]),
            leaseLabel_of_fetches env w i (fetchNParse_eq_some hfetch).1]
          rfl
      | store info =>
          have hsame : leaseOf ⟨{ w.shared with
              info := StorageValueRef.set HackerNewsInfo.codec info },
              Function.update w.phase i (.guarded .stored)⟩ = leaseOf w :=
            leaseOf_update_of_eq rfl (by simp [hp, FetchPhase.holdsGuard])
          rw [hsame]
          rfl
      | failed e =>
          rw [leaseOf_update]
          exact Lease.step_eq_some.mpr ⟨hheld, rfl⟩
      | done =>
          rw [leaseOf_update]
          exact Lease.step_eq_some.mpr ⟨hheld, rfl⟩

end workers

end OffchainPallets.Ocw
