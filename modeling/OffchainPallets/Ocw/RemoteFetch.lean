import OffchainPallets.Ocw.FetchRemoteInfo
import OffchainPallets.Runtime

/-!
# What the lock and the cache of `fetch_remote_info` give

Runs of any number of workers, after any blocks, under any interleaving and passage of time, from a
state in which no worker has begun.

* `fetch_exclusive` — two workers are never inside `fetch_n_parse` together, as long as no worker
  is overtaken (`OvertakesNobody`). Nothing bounds the time a worker needs to read the body of the
  response, so it can be (`fetch_not_exclusive`). Nobody is overtaken while every guard is dropped
  before the time of its lock is over (`fetchesAlone_of_inTime`).
* `fetched_once` — even if no held lock is taken over, the info is fetched at most once only as long
  as no worker stands between its test of the cache and its `try_lock` when a worker that has stored
  the info drops its guard (`WindowClosed`): the cache is not tested again under the lock
  (`fetched_twice`).
-/

namespace OffchainPallets.Ocw

open Lib OffchainPallets.Runtime

set_option linter.unusedSectionVars false

variable {T : Config} {ι : Type} [DecidableEq ι] [Fintype ι] {env : FetchEnv T ι}
  {w₀ w w' : Fetching T ι} {l : FetchLabel ι} {tr : List (FetchLabel ι)}

/-! ## Exclusion -/

/-- A `try_lock` does not take over an expired deadline while a guard is still held. -/
def OvertakesNobody (env : FetchEnv T ι) (w : Fetching T ι) : FetchLabel ι → Prop
  | .act i .tryLock => ∀ d ∈ w.shared.lock,
      d.hasExpired w.shared.now (env.blockNumber i) = true → ∀ j, (w.phase j).holdsGuard = false
  | _ => True

instance : Decidable (OvertakesNobody env w l) := by
  unfold OvertakesNobody
  split <;> infer_instance

theorem OvertakesNobody.lease (h : OvertakesNobody env w l) :
    (leaseOf w).OvertakesNobody (leaseLabel env w l) := by
  cases l with
  | tick now => trivial
  | act i a =>
      cases a with
      | tryLock =>
          rw [leaseLabel]
          cases hd : w.shared.lock with
          | none => trivial
          | some d =>
              dsimp only
              split_ifs with hexp
              · exact h d hd hexp
              · trivial
      | _ => trivial

/-- At most one worker holds a guard, and the lock is set while one does. -/
abbrev Exclusive (w : Fetching T ι) : Prop := (leaseOf w).Exclusive

theorem Exclusive.of_start (h : ∀ i, w.phase i = .start) : Exclusive w := by
  apply Lease.Exclusive.of_free
  intro i
  show (w.phase i).holdsGuard = false
  simp [h i, FetchPhase.holdsGuard]

/-- While the lock is free nobody holds a guard. -/
theorem holdsGuard_eq_false_of_free (hw : Exclusive w) (hlock : w.shared.lock = none) (j : ι) :
    (w.phase j).holdsGuard = false := by
  by_contra hj
  have hlocked : w.shared.lock.isSome = true := hw.locked j (by simpa [leaseOf] using hj)
  simp [hlock] at hlocked

theorem Exclusive.fetchStep (hw : Exclusive w) (hl : OvertakesNobody env w l)
    (h : fetchStep env w l = some w') : Exclusive w' :=
  Lease.Exclusive.step hw hl.lease (leaseOf_step h)

theorem exclusive_of_run (hw : Exclusive w)
    (hcond : ∀ x ∈ stepsOf (fetchStep env) w tr, OvertakesNobody env x.1 x.2)
    (hrun : run (fetchStep env) w tr = some w') : Exclusive w' :=
  run_induction_of_steps (fun _ _ _ => Exclusive.fetchStep) hcond hw hrun

theorem FetchPhase.holdsGuard_of_inside {p : FetchPhase} (h : p.inside = true) :
    p.holdsGuard = true := by
  cases p with
  | guarded stage => rfl
  | _ => simp [FetchPhase.inside] at h

/-- No two workers are inside `fetch_n_parse`. -/
def FetchesAlone (w : Fetching T ι) : Prop :=
  ∀ i j, (w.phase i).inside = true → (w.phase j).inside = true → i = j

theorem Exclusive.fetchesAlone (hw : Exclusive w) : FetchesAlone w := by
  intro i j hi hj
  apply hw.single i j
  · exact FetchPhase.holdsGuard_of_inside hi
  · exact FetchPhase.holdsGuard_of_inside hj

/-- A `try_lock` that finds an expired deadline enters `fetch_n_parse`, whoever is there. -/
theorem inside_of_overtake {i j : ι} {d : BlockAndTimeDeadline T.toSystem}
    (hi : (w.phase i).inside = true) (hd : w.shared.lock = some d)
    (hexp : d.hasExpired w.shared.now (env.blockNumber j) = true)
    (h : fetchStep env w (.act j .tryLock) = some w') :
    i ≠ j ∧ (w'.phase i).inside = true ∧ (w'.phase j).inside = true := by
  have hne : i ≠ j := by
    have hlease := leaseOf_step h
    simp only [leaseLabel, hd, hexp, if_true] at hlease
    exact (Lease.held_of_overtake (FetchPhase.holdsGuard_of_inside hi) hlease).1
  obtain ⟨sh, p, hact, rfl⟩ := fetchStep_act h
  generalize w.phase j = p₀ at hact
  refine ⟨hne, by simpa [Function.update_of_ne hne] using hi, ?_⟩
  cases hact with
  | refused d' hd' hexp' =>
      obtain rfl : d = d' := by simpa [hd] using hd'
      simp [hexp] at hexp'
  | locked _ => simp [FetchPhase.inside, Stage.inside]
  | fetch stage stage' _ hfetch => simpa [FetchAct.fetches] using (fetchNParse_eq_some hfetch).1

/-- **Mutual exclusion of the remote fetch.** In a run that overtakes no worker, no two workers are
inside `fetch_n_parse` in any state; and a `try_lock` that takes over the deadline of a worker
inside puts a second one there.
Source: `fetch_remote_info`, `fetch_from_remote` -/
theorem fetch_exclusive (hstart : ∀ i, w₀.phase i = .start)
    (hrun : run (fetchStep env) w₀ tr = some w) :
    ((∀ x ∈ stepsOf (fetchStep env) w₀ tr, OvertakesNobody env x.1 x.2) →
      ∀ v ∈ visited (fetchStep env) w₀ tr, FetchesAlone v) ∧
    (∀ v ∈ visited (fetchStep env) w₀ tr, ∀ i j d v', (v.phase i).inside = true →
      v.shared.lock = some d → d.hasExpired v.shared.now (env.blockNumber j) = true →
      fetchStep env v (.act j .tryLock) = some v' →
      i ≠ j ∧ (v'.phase i).inside = true ∧ (v'.phase j).inside = true) := by
  constructor
  · intro hcond v hv
    obtain ⟨tr₁, tr₂, rfl, h₁, -⟩ := exists_prefix_of_mem_visited hrun hv
    have hexcl : Exclusive v :=
      exclusive_of_run (.of_start hstart) (steps_of_append_left h₁ hcond) h₁
    exact hexcl.fetchesAlone
  · intro v _ i j d v' hi hd hexp hstep
    exact inside_of_overtake hi hd hexp hstep

/-- The text of an item. -/
def itemText : String :=
  "\x7b\"by\":\"a\",\"title\":\"b\",\"url\":\"c\",\"descendants\":0\x7d"

/-- The item. -/
def item : HackerNewsInfo where
  «by» := ⟨[97], by decide⟩
  title := ⟨[98], by decide⟩
  url := ⟨[99], by decide⟩
  descendants := 0

/-- Two workers, after the blocks 1 and 5, and an endpoint that answers with one item. -/
def twoWorkers : FetchEnv noSignaturesOcw Bool where
  blockNumber := fun second => if second then 5 else 1
  fromStr := fun s => if s = itemText then some item else none

/-- Nobody has begun: no item is cached and the lock is free. -/
def atStart : Fetching noSignaturesOcw Bool := ⟨⟨0, none, none⟩, fun _ => .start⟩

/-- The second worker comes while the first one waits for its response, and is refused. -/
def refusedRun : List (FetchLabel Bool) :=
  [.act false .readCache, .act false .tryLock, .act false .timestamp, .act false .request,
    .act false (.sent (.ok ())), .tick 100, .act true .readCache, .act true .tryLock,
    .act false .wait]

theorem fetch_exclusive_refusedRun :
    ∃ w, run (fetchStep twoWorkers) atStart refusedRun = some w ∧ FetchesAlone w := by
  obtain ⟨w, hrun⟩ : ∃ w, run (fetchStep twoWorkers) atStart refusedRun = some w := ⟨_, rfl⟩
  exact ⟨w, hrun, (fetch_exclusive (fun _ => rfl) hrun).1 (by decide) w (mem_visited_of_run hrun)⟩

/-- The first worker reads the body of its response for longer than its lock lasts. -/
def slowBody : List (FetchLabel Bool) :=
  [.act false .readCache, .act false .tryLock, .act false .timestamp, .act false .request,
    .act false (.sent (.ok ())), .act false .wait, .act false (.waited (some (.ok 200))),
    .tick 4001, .act true .readCache, .act true .tryLock]

theorem fetch_not_exclusive :
    ∃ w, run (fetchStep twoWorkers) atStart slowBody = some w ∧ ¬ FetchesAlone w := by
  refine ⟨_, rfl, fun h => ?_⟩
  exact Bool.false_ne_true (h false true rfl rfl)

/-- The clock does not pass the timestamp of the lock while a guard is held. -/
def InTime (w : Fetching T ι) : FetchLabel ι → Prop
  | .tick now => (∃ i, (w.phase i).holdsGuard = true) → ∀ d ∈ w.shared.lock, now ≤ d.timestamp
  | _ => True

/-- The lock has not expired while a guard is held. -/
def Unexpired (w : Fetching T ι) : Prop :=
  (∃ i, (w.phase i).holdsGuard = true) → ∀ d ∈ w.shared.lock, w.shared.now ≤ d.timestamp

/-- An unexpired lock is not taken over. -/
theorem Unexpired.overtakesNobody (hw : Unexpired w) (l : FetchLabel ι) :
    OvertakesNobody env w l := by
  unfold OvertakesNobody
  split
  · intro d hd hexp j
    by_contra hj
    rw [Bool.not_eq_false] at hj
    have hnow := hw ⟨j, hj⟩ d hd
    simp only [BlockAndTimeDeadline.hasExpired, Bool.and_eq_true, decide_eq_true_eq] at hexp
    exact absurd hnow (UInt64.not_le.mpr hexp.1)
  · trivial

theorem Unexpired.fetchStep (hw : Unexpired w) (hl : InTime w l)
    (h : fetchStep env w l = some w') : Unexpired w' := by
  cases l with
  | tick now =>
      rw [fetchStep_tick h]
      exact hl
  | act i a =>
      obtain ⟨sh, p, hact, rfl⟩ := fetchStep_act h
      -- who holds a guard afterwards held one before, except the worker that takes the lock
      have hheld : (w.phase i).holdsGuard = p.holdsGuard →
          (∃ j, (Function.update w.phase i p j).holdsGuard = true) →
            ∃ j, (w.phase j).holdsGuard = true := by
        rintro hp ⟨j, hj⟩
        refine ⟨j, ?_⟩
        by_cases hji : j = i
        · subst hji
          simpa [hp] using hj
        · simpa [Function.update_of_ne hji] using hj
      generalize hp : w.phase i = p₀ at hact hheld
      cases hact with
      | locked _ =>
          rintro - d hd
          obtain rfl : newDeadline env i w.shared.now = d := by simpa using hd
          rw [newDeadline_timestamp]
          exact Timestamp.le_add w.shared.now LOCK_TIMEOUT_EXPIRATION
      | failed e => exact fun _ d hd => by simp at hd
      | done => exact fun _ d hd => by simp at hd
      | _ => exact fun hj => hw (hheld rfl hj)

/-- **Mutual exclusion, on time.** In a run in which every guard is dropped before the time of its
lock is over, no two workers are inside `fetch_n_parse` in any state. -/
theorem fetchesAlone_of_inTime (hstart : ∀ i, w₀.phase i = .start)
    (hrun : run (fetchStep env) w₀ tr = some w)
    (htime : ∀ x ∈ stepsOf (fetchStep env) w₀ tr, InTime x.1 x.2) :
    ∀ v ∈ visited (fetchStep env) w₀ tr, FetchesAlone v := by
  intro v hv
  obtain ⟨tr₁, tr₂, rfl, h₁, -⟩ := exists_prefix_of_mem_visited hrun hv
  have hstart' : Unexpired w₀ := by
    rintro ⟨i, hi⟩
    simp [hstart i, FetchPhase.holdsGuard] at hi
  obtain ⟨hexcl, -⟩ : Exclusive v ∧ Unexpired v :=
    run_induction_of_steps (P := fun v => Exclusive v ∧ Unexpired v)
      (fun _ _ _ hv hl hs => ⟨hv.1.fetchStep (hv.2.overtakesNobody _) hs, hv.2.fetchStep hl hs⟩)
      (steps_of_append_left h₁ htime) ⟨.of_start hstart, hstart'⟩ h₁
  exact hexcl.fetchesAlone

/-! ## One fetch -/

/-- When a worker that has stored the info drops its guard, no worker stands between its test of the
cache and its `try_lock`. -/
def WindowClosed (w : Fetching T ι) : FetchLabel ι → Prop
  | .act i .release => w.phase i = .guarded .stored → ∀ j, w.phase j ≠ .missed
  | _ => True

instance : Decidable (WindowClosed w l) := by
  unfold WindowClosed
  split <;> infer_instance

/-- The assumption and the condition together. -/
def Orderly (env : FetchEnv T ι) (w : Fetching T ι) (l : FetchLabel ι) : Prop :=
  OvertakesNobody env w l ∧ WindowClosed w l

/-- The info is cached, and while no guard is held no worker is left that missed it. -/
structure Settled (w : Fetching T ι) : Prop where
  cached : ∃ info, StorageValueRef.get HackerNewsInfo.codec w.shared.info = .ok (some info)
  stored : ∀ i stage, w.phase i = .guarded stage → stage = .stored
  closed : (∀ i, (w.phase i).holdsGuard = false) → ∀ i, w.phase i ≠ .missed

/-- A fetch has succeeded: its info is about to be stored, or it was stored. -/
def Fetched (w : Fetching T ι) : Prop :=
  (∃ i info, w.phase i = .guarded (.returned (.ok info))) ∨ Settled w

/-- A worker returns: the info stays cached, and the others stand where they stood. -/
theorem Settled.finish (hw : Settled w) {sh : FetchShared T} {i : ι} {result : Except Error Unit}
    (hinfo : sh.info = w.shared.info)
    (hclosed : (∀ j, j ≠ i → (w.phase j).holdsGuard = false) → ∀ j, j ≠ i → w.phase j ≠ .missed) :
    Settled ⟨sh, Function.update w.phase i (.finished result)⟩ where
  cached := by rw [hinfo]; exact hw.cached
  stored j stage hj := by
    rw [Workers.phase_update] at hj
    split_ifs at hj with hji
    exact hw.stored j stage hj
  closed hfree j := by
    rw [Workers.phase_update]
    split_ifs with hji
    · exact nofun
    · refine hclosed (fun k hki => ?_) j hji
      have hk := hfree k
      rwa [Workers.phase_update, if_neg hki] at hk

/-- A worker without a guard returns. -/
theorem Settled.leave (hw : Settled w) {i : ι} {result : Except Error Unit}
    (hi : (w.phase i).holdsGuard = false) :
    Settled ⟨w.shared, Function.update w.phase i (.finished result)⟩ := by
  refine hw.finish rfl fun hfree j _ => hw.closed (fun k => ?_) j
  by_cases hki : k = i
  · rw [hki, hi]
  · exact hfree k hki

/-- **One step after the info was stored.** Nobody takes the lock any more. -/
theorem Settled.step (hw : Settled w) (hexcl : Exclusive w) (hl : Orderly env w l)
    (h : fetchStep env w l = some w') : Settled w' := by
  cases l with
  | tick now =>
      rw [fetchStep_tick h]
      exact ⟨hw.cached, hw.stored, hw.closed⟩
  | act i a =>
      obtain ⟨sh, p, hact, rfl⟩ := fetchStep_act h
      generalize hp : w.phase i = p₀ at hact
      cases hact with
      | hit info hinfo => exact hw.leave (by simp [hp, FetchPhase.holdsGuard])
      | miss hmiss =>
          obtain ⟨info, hinfo⟩ := hw.cached
          exact absurd hinfo (hmiss info)
      | refused d hd hexp => exact hw.leave (by simp [hp, FetchPhase.holdsGuard])
      | locked hfree =>
          -- no guard is held, so no worker is left that could call `try_lock`
          refine absurd hp (hw.closed (fun j => ?_) i)
          cases hd : w.shared.lock with
          | none => exact holdsGuard_eq_false_of_free hexcl hd j
          | some d' => exact hl.1 d' hd (hfree d' hd) j
      | fetch stage stage' a hfetch =>
          obtain rfl := hw.stored i stage hp
          simpa [Stage.inside] using (fetchNParse_eq_some hfetch).2.1
      | store info => cases hw.stored i _ hp
      | failed e => cases hw.stored i _ hp
      | done => exact hw.finish rfl fun _ j _ => hl.2 hp j

/-- The info that has been fetched is stored: its worker is the only one with a guard. -/
theorem Settled.of_store (hw : Exclusive w) {i : ι} {info : HackerNewsInfo}
    (hi : w.phase i = .guarded (.returned (.ok info))) :
    Settled ⟨{ w.shared with info := StorageValueRef.set HackerNewsInfo.codec info },
      Function.update w.phase i (.guarded .stored)⟩ where
  cached := ⟨info, StorageValueRef.get_set _ _⟩
  stored j stage hj := by
    rw [Workers.phase_update] at hj
    split_ifs at hj with hji
    · cases hj
      rfl
    · exact absurd (hw.single j i (held_of_guarded hj) (held_of_guarded hi)) hji
  closed hfree := by
    have hi' := hfree i
    simp [FetchPhase.holdsGuard] at hi'

/-- **One step after a successful fetch.** -/
theorem Fetched.step (hw : Fetched w) (hexcl : Exclusive w) (hl : Orderly env w l)
    (h : fetchStep env w l = some w') : Fetched w' := by
  rcases hw with ⟨i, info, hi⟩ | hsettled
  · cases l with
    | tick now =>
        rw [fetchStep_tick h]
        exact Or.inl ⟨i, info, hi⟩
    | act j a =>
        by_cases hji : j = i
        · -- the only thing this worker can do is to store the info
          subst hji
          obtain ⟨sh, p, hact, rfl⟩ := fetchStep_act h
          rw [hi] at hact
          cases hact with
          | fetch stage stage' a hfetch =>
              simpa [Stage.inside] using (fetchNParse_eq_some hfetch).2.1
          | store info => exact Or.inr (.of_store hexcl hi)
        · have hsame := Workers.phase_of_ne h (Ne.symm hji)
          exact Or.inl ⟨i, info, hsame.trans hi⟩
  · exact Or.inr (hsettled.step hexcl hl h)

/-- After a successful fetch no worker is inside `fetch_n_parse`. -/
theorem Fetched.not_inside (hw : Fetched w) (hexcl : Exclusive w) (j : ι) :
    (w.phase j).inside = false := by
  by_contra hj
  rw [Bool.not_eq_false] at hj
  have hheld := FetchPhase.holdsGuard_of_inside hj
  rcases hw with ⟨i, info, hi⟩ | hsettled
  · obtain rfl : i = j := hexcl.single i j (held_of_guarded hi) hheld
    simp [hi, FetchPhase.inside, Stage.inside] at hj
  · cases hphase : w.phase j with
    | guarded stage =>
        obtain rfl := hsettled.stored j stage hphase
        simp [hphase, FetchPhase.inside, Stage.inside] at hj
    | _ => simp [hphase, FetchPhase.inside] at hj

/-- The fetches of a run that give an info. -/
def successfulFetches (fromStr : String → Option HackerNewsInfo) (tr : List (FetchLabel ι)) :
    List HackerNewsInfo :=
  tr.filterMap fun
    | .act _ (.body bytes) => (parseInfo fromStr bytes).toOption
    | _ => none

/-- No request is sent after the info was stored, and at most one fetch gives an info. -/
def FetchedOnce (env : FetchEnv T ι) (tr : List (FetchLabel ι)) : Prop :=
  (∀ tr₁ i tr₂, tr = tr₁ ++ .act i .store :: tr₂ → ∀ j, .act j .request ∉ tr₂) ∧
    (successfulFetches env.fromStr tr).length ≤ 1

theorem inside_of_fetches {i : ι} {a : FetchAct} (ha : a.fetches = true)
    (h : fetchStep env w (.act i a) = some w') : (w.phase i).inside = true := by
  obtain ⟨sh, p, hact, rfl⟩ := fetchStep_act h
  generalize w.phase i = p₀ at hact
  cases hact with
  | fetch stage stage' a hfetch => exact (fetchNParse_eq_some hfetch).2.1
  | _ => simp [FetchAct.fetches] at ha

theorem returned_of_body {i : ι} {bytes : List UInt8}
    (h : fetchStep env w (.act i (.body bytes)) = some w') :
    w'.phase i = .guarded (.returned (parseInfo env.fromStr bytes)) := by
  obtain ⟨sh, p, hact, rfl⟩ := fetchStep_act h
  generalize w.phase i = p₀ at hact
  cases hact with
  | fetch stage stage' a hfetch =>
      rw [Workers.phase_update, if_pos rfl]
      cases stage <;> cases hfetch
      rfl

theorem returned_of_store {i : ι} (h : fetchStep env w (.act i .store) = some w') :
    ∃ info, w.phase i = .guarded (.returned (.ok info)) := by
  obtain ⟨sh, p, hact, rfl⟩ := fetchStep_act h
  generalize w.phase i = p₀ at hact
  cases hact with
  | fetch stage stage' a hfetch => simpa [FetchAct.fetches] using (fetchNParse_eq_some hfetch).1
  | store info => exact ⟨info, rfl⟩

/-- After a successful fetch no step of `fetch_n_parse` is taken. -/
theorem not_mem_of_fetched (hw : Exclusive w ∧ Fetched w)
    (hcond : ∀ x ∈ stepsOf (fetchStep env) w tr, Orderly env x.1 x.2)
    (hrun : run (fetchStep env) w tr = some w') (j : ι) {a : FetchAct} (ha : a.fetches = true) :
    .act j a ∉ tr := by
  intro hmem
  obtain ⟨tr₁, tr₂, rfl⟩ := List.append_of_mem hmem
  obtain ⟨v, h₁, hrest⟩ := run_append_eq_some.mp hrun
  obtain ⟨v', hstep, -⟩ := run_cons_eq_some.mp hrest
  obtain ⟨hexcl, hfetched⟩ : Exclusive v ∧ Fetched v :=
    run_induction_of_steps (P := fun v => Exclusive v ∧ Fetched v)
      (fun _ _ _ hv hl hs => ⟨hv.1.fetchStep hl.1 hs, hv.2.step hv.1 hl hs⟩)
      (steps_of_append_left h₁ hcond) hw h₁
  have hin := inside_of_fetches ha hstep
  simp [hfetched.not_inside hexcl j] at hin

theorem successfulFetches_eq_nil (hw : Exclusive w ∧ Fetched w)
    (hcond : ∀ x ∈ stepsOf (fetchStep env) w tr, Orderly env x.1 x.2)
    (hrun : run (fetchStep env) w tr = some w') : successfulFetches env.fromStr tr = [] := by
  rw [successfulFetches, List.filterMap_eq_nil_iff]
  intro l hl
  split
  · exact absurd hl (not_mem_of_fetched hw hcond hrun _ rfl)
  · rfl

theorem length_successfulFetches_le_one (hw : Exclusive w)
    (hcond : ∀ x ∈ stepsOf (fetchStep env) w tr, Orderly env x.1 x.2)
    (hrun : run (fetchStep env) w tr = some w') :
    (successfulFetches env.fromStr tr).length ≤ 1 := by
  induction tr generalizing w with
  | nil => exact Nat.zero_le 1
  | cons l tr ih =>
      obtain ⟨v, hv, hrest⟩ := run_cons_eq_some.mp hrun
      rw [stepsOf_cons_of_some tr hv, List.forall_mem_cons] at hcond
      obtain ⟨hl, hcond⟩ := hcond
      have hexcl := hw.fetchStep hl.1 hv
      rw [successfulFetches, List.filterMap_cons]
      split
      · exact ih hexcl hcond hrest
      · rename_i info hinfo
        split at hinfo
        · rename_i i bytes
          -- this fetch succeeds, so no later one does
          cases hparse : parseInfo env.fromStr bytes with
          | error e =>
              simp [hparse, Except.toOption] at hinfo
          | ok info' =>
              have hreturned := returned_of_body hv
              rw [hparse] at hreturned
              have hnil :=
                successfulFetches_eq_nil ⟨hexcl, Or.inl ⟨i, info', hreturned⟩⟩ hcond hrest
              rw [successfulFetches] at hnil
              rw [hnil]
              exact le_rfl
        · cases hinfo

/-- A worker that has stored the info took the step that stores it. -/
theorem store_mem_of_stored (hstart : ∀ i, w₀.phase i = .start)
    (hrun : run (fetchStep env) w₀ tr = some w) {i : ι} (hi : w.phase i = .guarded .stored) :
    .act i .store ∈ tr := by
  refine run_history (P := fun tr v => v.phase i = .guarded .stored → .act i .store ∈ tr)
    ?_ ?_ hrun hi
  · intro h
    simp [hstart i] at h
  · intro tr v l v' hv hstep hstored
    rw [List.mem_append, List.mem_singleton]
    cases l with
    | tick now =>
        rw [fetchStep_tick hstep] at hstored
        exact Or.inl (hv hstored)
    | act j a =>
        by_cases hij : i = j
        · subst hij
          obtain ⟨sh, p, hact, rfl⟩ := fetchStep_act hstep
          rw [Workers.phase_update, if_pos rfl] at hstored
          subst hstored
          generalize v.phase i = p₀ at hact
          cases hact with
          | fetch stage stage' a hfetch =>
              simpa [Stage.inside] using (fetchNParse_eq_some hfetch).2.2
          | store info => exact Or.inr rfl
        · rw [Workers.phase_of_ne hstep hij] at hstored
          exact Or.inl (hv hstored)

/-- A worker drops its guard, and another one takes the lock and fetches. -/
def refetch (i j : ι) : List (FetchLabel ι) :=
  [.act i .release, .act j .tryLock, .act j .timestamp, .act j .request]

/-- A worker that missed the cache takes the lock when another one drops it, and fetches. -/
theorem exists_run_of_missed {i j : ι} (hi : w.phase i = .guarded .stored)
    (hj : w.phase j = .missed) :
    ∃ w', run (fetchStep env) w (refetch i j) = some w' ∧
      ∀ x ∈ stepsOf (fetchStep env) w (refetch i j), OvertakesNobody env x.1 x.2 := by
  have hne : j ≠ i := by
    rintro rfl
    simp [hi] at hj
  obtain ⟨w₁, h₁, hlock, hj₁⟩ : ∃ w₁, fetchStep env w (.act i .release) = some w₁ ∧
      w₁.shared.lock = none ∧ w₁.phase j = .missed := by
    refine ⟨_, Workers.step_eq_some.mpr ⟨_, _, by rw [hi]; rfl, rfl⟩, rfl, ?_⟩
    rw [Workers.phase_update, if_neg hne, hj]
  obtain ⟨w₂, h₂, hj₂⟩ : ∃ w₂, fetchStep env w₁ (.act j .tryLock) = some w₂ ∧
      w₂.phase j = .guarded .entered := by
    refine ⟨_, Workers.step_eq_some.mpr ⟨_, _, by rw [hj₁, fetchAct, hlock]; rfl, rfl⟩, ?_⟩
    rw [Workers.phase_update, if_pos rfl]
  obtain ⟨w₃, h₃, hj₃⟩ : ∃ w₃, fetchStep env w₂ (.act j .timestamp) = some w₃ ∧
      ∃ timeout, w₃.phase j = .guarded (.timed timeout) := by
    refine ⟨_, Workers.step_eq_some.mpr ⟨_, _, by rw [hj₂]; rfl, rfl⟩,
      w₂.shared.now.add FETCH_TIMEOUT_PERIOD, ?_⟩
    rw [Workers.phase_update, if_pos rfl]
  obtain ⟨timeout, hj₃⟩ := hj₃
  obtain ⟨w₄, h₄⟩ : ∃ w₄, fetchStep env w₃ (.act j .request) = some w₄ :=
    ⟨_, Workers.step_eq_some.mpr ⟨_, _, by rw [hj₃]; rfl, rfl⟩⟩
  refine ⟨w₄, by simp [refetch, run_cons, h₁, h₂, h₃, h₄], ?_⟩
  rw [refetch, stepsOf_cons_of_some _ h₁, stepsOf_cons_of_some _ h₂, stepsOf_cons_of_some _ h₃,
    stepsOf_cons_of_some _ h₄]
  simp [stepsOf, OvertakesNobody, hlock]

/-- **The info is fetched at most once, when the window is closed.** In a run in which no held lock
is taken over: if no worker stands between its test of the cache and its `try_lock` whenever a
worker that has stored the info drops its guard, no request is sent after the info was stored, and
at most one fetch gives an info; and if one stands there when the run has come to the drop of the
guard, the run can go on to a second request.
Source: `fetch_remote_info` -/
theorem fetched_once (hstart : ∀ i, w₀.phase i = .start)
    (hrun : run (fetchStep env) w₀ tr = some w)
    (hexp : ∀ x ∈ stepsOf (fetchStep env) w₀ tr, OvertakesNobody env x.1 x.2) :
    ((∀ x ∈ stepsOf (fetchStep env) w₀ tr, WindowClosed x.1 x.2) → FetchedOnce env tr) ∧
    (∀ i j, w.phase i = .guarded .stored → w.phase j = .missed →
      ∃ tr' w', run (fetchStep env) w₀ (tr ++ tr') = some w' ∧
        (∀ x ∈ stepsOf (fetchStep env) w₀ (tr ++ tr'), OvertakesNobody env x.1 x.2) ∧
        ¬ FetchedOnce env (tr ++ tr')) := by
  constructor
  · intro hclosed
    have hcond : ∀ x ∈ stepsOf (fetchStep env) w₀ tr, Orderly env x.1 x.2 :=
      fun x hx => ⟨hexp x hx, hclosed x hx⟩
    refine ⟨?_, length_successfulFetches_le_one (.of_start hstart) hcond hrun⟩
    rintro tr₁ i tr₂ rfl j
    obtain ⟨v, h₁, hrest⟩ := run_append_eq_some.mp hrun
    have hexcl : Exclusive v :=
      exclusive_of_run (.of_start hstart) (steps_of_append_left h₁ hexp) h₁
    obtain ⟨v', hstore, -⟩ := run_cons_eq_some.mp hrest
    obtain ⟨info, hinfo⟩ := returned_of_store hstore
    intro hmem
    exact not_mem_of_fetched ⟨hexcl, Or.inl ⟨i, info, hinfo⟩⟩ (steps_of_append_right h₁ hcond) hrest
      j rfl (List.mem_cons_of_mem _ hmem)
  · intro i j hi hj
    obtain ⟨w', hrun', hexp'⟩ := exists_run_of_missed hi hj
    refine ⟨_, w', run_append_eq_some.mpr ⟨w, hrun, hrun'⟩, ?_, ?_⟩
    · rw [stepsOf_append _ hrun]
      intro x hx
      rcases List.mem_append.mp hx with hx | hx
      · exact hexp x hx
      · exact hexp' x hx
    · rintro ⟨hrequest, -⟩
      obtain ⟨tr₁, tr₂, rfl⟩ := List.append_of_mem (store_mem_of_stored hstart hrun hi)
      refine hrequest tr₁ i (tr₂ ++ refetch i j) (by rw [List.append_assoc, List.cons_append]) j ?_
      simp [refetch]

/-- A worker fetches and stores the item. -/
def fetchItem (i : Bool) : List (FetchLabel Bool) :=
  [.act i .tryLock, .act i .timestamp, .act i .request, .act i (.sent (.ok ())), .act i .wait,
    .act i (.waited (some (.ok 200))), .act i (.body itemText.toUTF8.data.toList), .act i .store,
    .act i .release]

/-- The second worker comes after the first one and finds the item. -/
def cachedRun : List (FetchLabel Bool) :=
  .act false .readCache :: fetchItem false ++ [.act true .readCache]

theorem fetched_once_cachedRun : FetchedOnce twoWorkers cachedRun := by
  obtain ⟨w, hrun⟩ : ∃ w, run (fetchStep twoWorkers) atStart cachedRun = some w := ⟨_, rfl⟩
  exact (fetched_once (fun _ => rfl) hrun (by decide)).1 (by decide)

/-- Both workers test the cache before the first one fetches. -/
def staleTest : List (FetchLabel Bool) :=
  [.act false .readCache, .act true .readCache] ++ fetchItem false ++ fetchItem true

theorem fetched_twice :
    ∃ w, run (fetchStep twoWorkers) atStart staleTest = some w ∧
      (∀ x ∈ stepsOf (fetchStep twoWorkers) atStart staleTest, OvertakesNobody twoWorkers x.1 x.2) ∧
      ¬ FetchedOnce twoWorkers staleTest := by
  refine ⟨_, rfl, by decide, ?_⟩
  rintro ⟨-, hlength⟩
  revert hlength
  decide

end OffchainPallets.Ocw
