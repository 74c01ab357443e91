import OffchainPallets.Ocw.Progress

/-!
# A worker that never drops its guard

A worker may stop for good while it holds the lock of `fetch_remote_info`. Nobody drops its guard
then, and the workers that come are refused. But the deadline in the lock is not more than
`LOCK_TIMEOUT_EXPIRATION` ahead of the time at which somebody took the lock, nor more than
`LOCK_BLOCK_EXPIRATION` ahead of that worker's block.

* `lock_of_run` — whose deadline is stored.
* `fetch_recovers` — when both have passed, the next worker goes on as if the lock were free.
-/

namespace OffchainPallets.Ocw

open Lib

set_option linter.unusedSectionVars false

variable {T : Config} {ι : Type} {env : FetchEnv T ι} [DecidableEq ι] [Fintype ι]
  {w₀ w w' : Fetching T ι} {tr : List (FetchLabel ι)} {i : ι}

/-! ## The stored deadline -/

/-- A step in which a worker takes the lock, for the first time or from somebody else. -/
def Takes (env : FetchEnv T ι) (i : ι) (w : Fetching T ι) (l : FetchLabel ι) : Prop :=
  l = .act i .tryLock ∧
    ∀ d, w.shared.lock = some d → d.hasExpired w.shared.now (env.blockNumber i) = true

/-- **One step** leaves the lock, or clears it, or puts the deadline of the worker that takes it. -/
theorem lock_of_step {l : FetchLabel ι} (h : fetchStep env w l = some w') :
    w.shared.now.toNat ≤ w'.shared.now.toNat ∧
      (w'.shared.lock = w.shared.lock ∨ w'.shared.lock = none ∨
        ∃ i, Takes env i w l ∧ w'.shared.lock = some (newDeadline env i w.shared.now)) := by
  cases l with
  | tick now =>
      rw [fetchStep_tick h]
      simp only [fetchStep, Option.ite_none_right_eq_some] at h
      exact ⟨UInt64.le_iff_toNat_le.mp h.1.1, Or.inl rfl⟩
  | act i a =>
      obtain ⟨sh, p, hact, rfl⟩ := fetchStep_act h
      generalize w.phase i = p₀ at hact
      cases hact with
      | locked hexpired => exact ⟨le_rfl, Or.inr (Or.inr ⟨i, ⟨rfl, hexpired⟩, rfl⟩)⟩
      | failed e => exact ⟨le_rfl, Or.inr (Or.inl rfl)⟩
      | done => exact ⟨le_rfl, Or.inr (Or.inl rfl)⟩
      | _ => exact ⟨le_rfl, Or.inl rfl⟩

/-- **Whole runs.** A lock that is not from before the run has the deadline of a worker that has
taken it in the run. -/
theorem lock_of_run (hrun : run (fetchStep env) w tr = some w') :
    w'.shared.lock = w.shared.lock ∨ w'.shared.lock = none ∨
      ∃ p ∈ stepsOf (fetchStep env) w tr, ∃ i, Takes env i p.1 p.2 ∧
        p.1.shared.now.toNat ≤ w'.shared.now.toNat ∧
        w'.shared.lock = some (newDeadline env i p.1.shared.now) := by
  induction tr generalizing w with
  | nil =>
      obtain rfl := Option.some.inj hrun
      exact Or.inl rfl
  | cons l tr ih =>
      obtain ⟨v, hstep, hrest⟩ := run_cons_eq_some.mp hrun
      have hnow : w.shared.now.toNat ≤ w'.shared.now.toNat :=
        run_mono (f := fun w : Fetching T ι => w.shared.now.toNat)
          (fun _ _ _ h => (lock_of_step h).1) hrun
      rw [stepsOf_cons_of_some tr hstep]
      rcases ih hrest with hsame | hnone | ⟨p, hp, htaken⟩
      · -- the lock is the one that the first step leaves
        rw [hsame]
        rcases (lock_of_step hstep).2 with hlock | hlock | ⟨i, htakes, hlock⟩
        · exact Or.inl hlock
        · exact Or.inr (Or.inl hlock)
        · exact Or.inr (Or.inr ⟨(w, l), List.mem_cons_self, i, htakes, hnow, hlock⟩)
      · exact Or.inr (Or.inl hnone)
      · exact Or.inr (Or.inr ⟨p, List.mem_cons_of_mem _ hp, htaken⟩)

/-! ## Its expiry -/

/-- A deadline has expired when its time has passed and its block is over. -/
theorem hasExpired_newDeadline {j : ι} {t now : Timestamp} {block : T.BlockNumber}
    (htime : t.toNat + LOCK_TIMEOUT_EXPIRATION.toNat < now.toNat)
    (hblock : (env.blockNumber j).toNat + LOCK_BLOCK_EXPIRATION.toNat < block.toNat) :
    (newDeadline env j t).hasExpired now block = true := by
  unfold newDeadline BlockAndTimeDeadline.ofOffset BlockAndTimeDeadline.hasExpired
  rw [Bool.and_eq_true, decide_eq_true_eq, decide_eq_true_eq]
  constructor
  · have hroom : t.toNat + LOCK_TIMEOUT_EXPIRATION.toNat < 2 ^ 64 := htime.trans now.toNat_lt
    rw [UInt64.lt_iff_toNat_lt, Timestamp.add, saturatingAdd64, if_pos hroom, UInt64.toNat_add,
      Nat.mod_eq_of_lt hroom]
    exact htime
  · rw [BitVec.lt_def, BitVec.toNat_add, BitVec.toNat_ofNat]
    have hsum : ∀ m, ((env.blockNumber j).toNat + LOCK_BLOCK_EXPIRATION.toNat % m) % m ≤
        (env.blockNumber j).toNat + LOCK_BLOCK_EXPIRATION.toNat := fun m =>
      (Nat.mod_le _ _).trans (Nat.add_le_add_left (Nat.mod_le _ _) _)
    exact (hsum _).trans_lt hblock

/-- How a worker ends that finds no lock, or one that has expired. -/
def endsUnlocked (env : FetchEnv T ι) (remote : Remote) (sh : FetchShared T) :
    FetchShared T × Except Error Unit :=
  match StorageValueRef.get HackerNewsInfo.codec sh.info with
  | .ok (some _) => (sh, .ok ())
  | _ => sh.conclude (fetchNParseFrom env.fromStr remote sh.now)

theorem fetchRemoteInfo_of_expired {sh : FetchShared T}
    (hexpired : ∀ d, sh.lock = some d → d.hasExpired sh.now (env.blockNumber i) = true)
    (remote : Remote) : fetchRemoteInfo env i remote sh = endsUnlocked env remote sh := by
  have hlock : BlockAndTimeDeadline.tryLock sh.now (env.blockNumber i) (newDeadline env i sh.now)
      sh.lock = some (newDeadline env i sh.now) :=
    BlockAndTimeDeadline.tryLock_eq_some.mpr ⟨rfl, hexpired⟩
  rcases hinfo : StorageValueRef.get HackerNewsInfo.codec sh.info with e | _ | info
  · simp only [fetchRemoteInfo, endsUnlocked, hinfo, hlock]
  · simp only [fetchRemoteInfo, endsUnlocked, hinfo, hlock]
  · simp only [fetchRemoteInfo, endsUnlocked, hinfo]

/-- Such a worker returns `Ok` only when there is an info. -/
theorem cached_of_endsUnlocked {remote : Remote} {sh : FetchShared T}
    (h : (endsUnlocked env remote sh).2 = .ok ()) :
    ∃ info, StorageValueRef.get HackerNewsInfo.codec (endsUnlocked env remote sh).1.info =
      .ok (some info) := by
  unfold endsUnlocked at h ⊢
  split at h
  · rename_i info hinfo
    exact ⟨info, hinfo⟩
  · generalize fetchNParseFrom env.fromStr remote sh.now = result at h ⊢
    rcases result with e | info
    · cases h
    · exact ⟨info, StorageValueRef.get_set _ _⟩

/-- **The lock recovers.** Let anything happen from a free lock on; then let nobody take the lock
for more than `LOCK_TIMEOUT_EXPIRATION`, and let a worker begin that runs more than
`LOCK_BLOCK_EXPIRATION` blocks after all that have taken it before. Whoever still holds a guard, it
ends, alone, as it would without a lock: with the info that is cached, or with what the host lets
`fetch_n_parse` return. So it returns `Ok` only when there is an info in the cache.
Source: `fetch_remote_info` -/
theorem fetch_recovers {v : Fetching T ι} {tr' : List (FetchLabel ι)}
    {x : FetchShared T × Except Error Unit} (hfree : w₀.shared.lock = none)
    (hrun : run (fetchStep env) w₀ tr = some v) (hrun' : run (fetchStep env) v tr' = some w)
    (hquiet : ∀ p ∈ stepsOf (fetchStep env) v tr', ∀ j, ¬ Takes env j p.1 p.2)
    (htime : v.shared.now.toNat + LOCK_TIMEOUT_EXPIRATION.toNat < w.shared.now.toNat)
    (hblocks : ∀ p ∈ stepsOf (fetchStep env) w₀ tr, ∀ j, Takes env j p.1 p.2 →
      (env.blockNumber j).toNat + LOCK_BLOCK_EXPIRATION.toNat < (env.blockNumber i).toNat)
    (hstart : w.phase i = .start) :
    ((∃ tr'', Alone i tr'' ∧ run (fetchStep env) w tr'' = some (ended w i x)) ↔
      ∃ remote, x = endsUnlocked env remote w.shared) ∧
    ((∃ tr'', Alone i tr'' ∧ run (fetchStep env) w tr'' = some (ended w i x)) → x.2 = .ok () →
      ∃ info, StorageValueRef.get HackerNewsInfo.codec x.1.info = .ok (some info)) := by
  have hexpired : ∀ d, w.shared.lock = some d →
      d.hasExpired w.shared.now (env.blockNumber i) = true := by
    intro d hd
    have hbefore : v.shared.lock = some d := by
      rcases lock_of_run hrun' with hsame | hnone | ⟨p, hp, j, htakes, -⟩
      · exact hsame ▸ hd
      · rw [hnone] at hd
        cases hd
      · exact absurd htakes (hquiet p hp j)
    rcases lock_of_run hrun with hsame | hnone | ⟨p, hp, j, htakes, ht, hlock⟩
    · rw [hsame, hfree] at hbefore
      cases hbefore
    · rw [hnone] at hbefore
      cases hbefore
    · obtain rfl := Option.some.inj (hlock.symm.trans hbefore)
      apply hasExpired_newDeadline _ (hblocks p hp j htakes)
      omega
  have hends : (∃ tr'', Alone i tr'' ∧ run (fetchStep env) w tr'' = some (ended w i x)) ↔
      ∃ remote, x = endsUnlocked env remote w.shared := by
    rw [← canEnd_iff, hstart]
    apply exists_congr
    intro remote
    rw [fetchRemoteInfo_of_expired hexpired]
  refine ⟨hends, ?_⟩
  intro halone hok
  obtain ⟨remote, rfl⟩ := hends.mp halone
  exact cached_of_endsUnlocked hok

/-- The first worker takes the lock and stops. -/
def crashedRun : List (FetchLabel Bool) := [.act false .readCache, .act false .tryLock]

/-- Four seconds later the second worker can fetch the item, with the guard of the first one
held. -/
theorem fetch_recovers_crashedRun :
    ∃ w tr, run (fetchStep twoWorkers) atStart (crashedRun ++ [.tick 4001]) = some w ∧
      (leaseOf w).held false = true ∧ Alone true tr ∧ run (fetchStep twoWorkers) w tr =
        some (ended w true (⟨4001, some (HackerNewsInfo.codec.encode item), none⟩, .ok ())) := by
  obtain ⟨v, w, hrun, hrun', hall, hheld, hv, hw⟩ :
      ∃ v w, run (fetchStep twoWorkers) atStart crashedRun = some v ∧
        run (fetchStep twoWorkers) v [.tick 4001] = some w ∧
        run (fetchStep twoWorkers) atStart (crashedRun ++ [.tick 4001]) = some w ∧
        (leaseOf w).held false = true ∧ v.shared.now = 0 ∧
        w.shared = ⟨4001, none, some ⟨4000, (4 : BitVec 32)⟩⟩ ∧ w.phase true = .start :=
    ⟨_, _, rfl, rfl, rfl, rfl, rfl, rfl, rfl⟩
  have hquiet : ∀ p ∈ stepsOf (fetchStep twoWorkers) v [.tick 4001], ∀ j,
      ¬ Takes twoWorkers j p.1 p.2 := by
    intro p hp j htakes
    have hmem := snd_mem_of_mem_stepsOf hp
    rw [htakes.1, List.mem_singleton] at hmem
    cases hmem
  have htime : v.shared.now.toNat + LOCK_TIMEOUT_EXPIRATION.toNat < w.shared.now.toNat := by
    rw [hv, hw.1]
    decide
  have hblocks : ∀ p ∈ stepsOf (fetchStep twoWorkers) atStart crashedRun, ∀ j,
      Takes twoWorkers j p.1 p.2 →
      (twoWorkers.blockNumber j).toNat + LOCK_BLOCK_EXPIRATION.toNat <
        (twoWorkers.blockNumber true).toNat := by
    intro p hp j htakes
    have hmem := snd_mem_of_mem_stepsOf hp
    rw [htakes.1] at hmem
    obtain rfl : j = false := by simpa [crashedRun] using hmem
    decide
  obtain ⟨tr, halone, hrecovered⟩ :=
    (fetch_recovers rfl hrun hrun' hquiet htime hblocks hw.2).1.mpr ⟨answering, rfl⟩
  refine ⟨w, tr, hall, hheld, halone, ?_⟩
  rw [hrecovered, hw.1]
  rfl

end OffchainPallets.Ocw
