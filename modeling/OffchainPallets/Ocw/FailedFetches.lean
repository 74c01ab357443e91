import OffchainPallets.Ocw.RemoteFetch

/-!
# What `fetch_remote_info` leaves behind

Runs of any number of workers from any cache and a free lock. The calls to the host inside
`fetch_n_parse` may fail in any way; `FetchAct.outcome` is the result of the fetch, where a step
decides it.

`failed_fetches_leave_no_trace`: the lock is free when no guard is held; the cache changes only to
an info that was fetched; a worker whose fetch failed returns the error and has left the cache as
it found it, and one that finds the lock taken returns without touching anything.
-/

namespace OffchainPallets.Ocw

open Lib OffchainPallets.Runtime

set_option linter.unusedSectionVars false

variable {T : Config} {ι : Type} [DecidableEq ι] [Fintype ι] {env : FetchEnv T ι}
  {w₀ w w' : Fetching T ι} {l : FetchLabel ι} {tr : List (FetchLabel ι)} {i : ι}

/-! ## The result of a fetch -/

/-- The result of the fetch, where a step decides it.
Source: `fetch_n_parse`, `fetch_from_remote` -/
def FetchAct.outcome (fromStr : String → Option HackerNewsInfo) :
    FetchAct → Option (Except Error HackerNewsInfo)
  | .sent (.error _) => some (.error .HttpFetchingError)
  | .waited none => some (.error .HttpFetchingError)
  | .waited (some (.error _)) => some (.error .HttpFetchingError)
  | .waited (some (.ok code)) => if code ≠ 200 then some (.error .HttpFetchingError) else none
  | .body bytes => some (parseInfo fromStr bytes)
  | _ => none

/-- `fetch_n_parse` returns exactly where the result is decided, and with it. -/
theorem returned_iff_outcome {fromStr : String → Option HackerNewsInfo} {now : Timestamp}
    {stage stage' : Stage} {a : FetchAct} (h : fetchNParse fromStr now stage a = some stage')
    (result : Except Error HackerNewsInfo) :
    stage' = .returned result ↔ a.outcome fromStr = some result := by
  unfold fetchNParse at h
  split at h
  · cases h; simp [FetchAct.outcome]
  · cases h; simp [FetchAct.outcome]
  · cases h; simp [FetchAct.outcome]
  · cases h; simp [FetchAct.outcome]
  · cases h; simp [FetchAct.outcome]
  · cases h; simp [FetchAct.outcome]
  · cases h; simp [FetchAct.outcome]
  · split_ifs at h with hcode <;> cases h
    · simp [FetchAct.outcome, hcode]
    · simp [FetchAct.outcome, hcode]
  · cases h; simp [FetchAct.outcome]
  · cases h

theorem fetches_of_outcome {fromStr : String → Option HackerNewsInfo} {a : FetchAct}
    {result : Except Error HackerNewsInfo} (h : a.outcome fromStr = some result) :
    a.fetches = true := by
  cases a <;> first | rfl | simp [FetchAct.outcome] at h

/-- A fetch succeeds only with a body that parses. -/
theorem body_of_outcome_ok {fromStr : String → Option HackerNewsInfo} {a : FetchAct}
    {info : HackerNewsInfo} (h : a.outcome fromStr = some (.ok info)) :
    ∃ bytes, a = .body bytes ∧ parseInfo fromStr bytes = .ok info := by
  unfold FetchAct.outcome at h
  split at h
  · simp at h
  · simp at h
  · simp at h
  · split_ifs at h
    simp at h
  · exact ⟨_, rfl, Option.some.inj h⟩
  · simp at h

/-- The step that decides the result of a fetch ends it. -/
theorem returned_of_outcome {a : FetchAct} {result : Except Error HackerNewsInfo}
    (hout : a.outcome env.fromStr = some result)
    (h : fetchStep env w (.act i a) = some w') : w'.phase i = .guarded (.returned result) := by
  have ha := fetches_of_outcome hout
  obtain ⟨sh, p, hact, rfl⟩ := fetchStep_act h
  rw [Workers.phase_update, if_pos rfl]
  generalize w.phase i = p₀ at hact
  cases hact with
  | fetch stage stage' a hfetch => rw [(returned_iff_outcome hfetch result).mpr hout]
  | _ => simp [FetchAct.fetches] at ha

/-- A result that a worker has was decided by one of its steps. -/
theorem outcome_mem_of_returned (hstart : ∀ i, w₀.phase i = .start)
    (hrun : run (fetchStep env) w₀ tr = some w) {result : Except Error HackerNewsInfo}
    (hi : w.phase i = .guarded (.returned result)) :
    ∃ a, .act i a ∈ tr ∧ a.outcome env.fromStr = some result := by
  refine run_history (P := fun tr v => v.phase i = .guarded (.returned result) →
    ∃ a, .act i a ∈ tr ∧ a.outcome env.fromStr = some result) ?_ ?_ hrun hi
  · intro h
    simp [hstart i] at h
  · intro tr v l v' hv hstep hreturned
    have hbefore : v.phase i = .guarded (.returned result) →
        ∃ a, .act i a ∈ tr ++ [l] ∧ a.outcome env.fromStr = some result := by
      intro h
      obtain ⟨a, ha, hout⟩ := hv h
      exact ⟨a, List.mem_append_left _ ha, hout⟩
    cases l with
    | tick now =>
        rw [fetchStep_tick hstep] at hreturned
        exact hbefore hreturned
    | act j a =>
        by_cases hij : i = j
        · subst hij
          obtain ⟨sh, p, hact, rfl⟩ := fetchStep_act hstep
          rw [Workers.phase_update, if_pos rfl] at hreturned
          subst hreturned
          generalize v.phase i = p₀ at hact
          cases hact with
          | fetch stage stage' a hfetch =>
              exact ⟨a, by simp, (returned_iff_outcome hfetch result).mp rfl⟩
        · exact hbefore (by rwa [Workers.phase_of_ne hstep hij] at hreturned)

/-! ## The lock -/

/-- The lock is set only while a guard is held. -/
abbrev Owned (w : Fetching T ι) : Prop := (leaseOf w).Owned

theorem owned_of_run (hfree : w₀.shared.lock = none)
    (hrun : run (fetchStep env) w₀ tr = some w) : Owned w := by
  refine run_induction (P := Owned) (fun v l v' hv hstep => ?_) ?_ hrun
  · exact Lease.Owned.step hv (leaseOf_step hstep)
  · intro hlocked
    simp [leaseOf, hfree] at hlocked

/-- A worker that finds the lock taken returns, and touches nothing. -/
theorem refused_of_locked (hw : Owned w) (hl : OvertakesNobody env w (.act i .tryLock))
    (hlock : w.shared.lock ≠ none) (h : fetchStep env w (.act i .tryLock) = some w') :
    w'.shared = w.shared ∧ w'.phase i = .finished (.ok ()) := by
  obtain ⟨sh, p, hact, rfl⟩ := fetchStep_act h
  rw [Workers.phase_update, if_pos rfl]
  generalize w.phase i = p₀ at hact
  cases hact with
  | refused d hd hexp => exact ⟨rfl, rfl⟩
  | locked hexp =>
      -- the lock is somebody's, so it is not taken over
      obtain ⟨d, hd⟩ := Option.ne_none_iff_exists'.mp hlock
      obtain ⟨j, hj⟩ := hw (by simp [leaseOf, hd])
      have hnobody := hl d hd (hexp d hd) j
      simp [leaseOf, hnobody] at hj
  | fetch stage stage' a hfetch => simpa [FetchAct.fetches] using (fetchNParse_eq_some hfetch).1

/-! ## The cache -/

/-- Only a worker that has fetched an info writes the cache. -/
theorem info_eq_or_store (h : fetchStep env w l = some w') :
    w'.shared.info = w.shared.info ∨ ∃ i info, l = .act i .store ∧
      w.phase i = .guarded (.returned (.ok info)) ∧
      w'.shared.info = StorageValueRef.set HackerNewsInfo.codec info := by
  cases l with
  | tick now =>
      rw [fetchStep_tick h]
      exact Or.inl rfl
  | act i a =>
      obtain ⟨sh, p, hact, rfl⟩ := fetchStep_act h
      generalize hp : w.phase i = p₀ at hact
      cases hact with
      | store info => exact Or.inr ⟨i, info, rfl, hp, rfl⟩
      | _ => exact Or.inl rfl

/-- The worker has a guard and has not stored anything, and the cache holds `info`; or its time with
the guard is over. -/
def Untouched (i : ι) (info : RawValue) (w : Fetching T ι) : Prop :=
  (∃ stage, w.phase i = .guarded stage ∧ stage ≠ .stored ∧ w.shared.info = info) ∨
    w.phase i = .guarded .stored ∨ ∃ result, w.phase i = .finished result

/-- While a worker has a guard nobody else writes the cache. -/
theorem Untouched.fetchStep {info : RawValue} (hw : Untouched i info w) (hexcl : Exclusive w)
    (h : fetchStep env w l = some w') : Untouched i info w' := by
  have hinfo := info_eq_or_store h
  cases l with
  | tick now =>
      rw [fetchStep_tick h]
      exact hw
  | act j a =>
      by_cases hij : i = j
      · subst hij
        obtain ⟨sh, p, hact, rfl⟩ := fetchStep_act h
        unfold Untouched at hw ⊢
        rw [Workers.phase_update, if_pos rfl]
        generalize w.phase i = p₀ at hact hw
        cases hact with
        | fetch stage stage' a hfetch =>
            obtain ⟨-, hinside, hstage'⟩ := fetchNParse_eq_some hfetch
            have hsame : w.shared.info = info := by
              rcases hw with ⟨_, -, -, hsame⟩ | hstored | ⟨_, hfinished⟩
              · exact hsame
              · cases hstored
                simp [Stage.inside] at hinside
              · cases hfinished
            refine Or.inl ⟨stage', rfl, ?_, hsame⟩
            rintro rfl
            simp [Stage.inside] at hstage'
        | store _ => exact Or.inr (Or.inl rfl)
        | failed e => exact Or.inr (Or.inr ⟨_, rfl⟩)
        | done => exact Or.inr (Or.inr ⟨_, rfl⟩)
        | _ => simp at hw
      · unfold Untouched
        rw [Workers.phase_of_ne h hij]
        rcases hw with ⟨stage, hphase, hne, hsame⟩ | hover
        · refine Or.inl ⟨stage, hphase, hne, ?_⟩
          rcases hinfo with heq | ⟨k, _, hk, hreturned, -⟩
          · rw [heq, hsame]
          · -- the writer would hold a second guard
            cases hk
            exact absurd (hexcl.single i j (held_of_guarded hphase) (held_of_guarded hreturned)) hij
        · exact Or.inr hover

/-- A worker with a failed fetch can only drop its guard and return the error. -/
theorem failed_of_run {e : Error} (hi : w.phase i = .guarded (.returned (.error e)))
    (hrun : run (fetchStep env) w tr = some w') :
    w'.phase i = .guarded (.returned (.error e)) ∨ w'.phase i = .finished (.error e) := by
  refine run_induction (P := fun v => v.phase i = .guarded (.returned (.error e)) ∨
    v.phase i = .finished (.error e)) (fun v l v' hv hstep => ?_) (Or.inl hi) hrun
  cases l with
  | tick now =>
      rw [fetchStep_tick hstep]
      exact hv
  | act j a =>
      by_cases hij : i = j
      · subst hij
        obtain ⟨sh, p, hact, rfl⟩ := fetchStep_act hstep
        rw [Workers.phase_update, if_pos rfl]
        rcases hv with hv | hv
        · rw [hv] at hact
          cases hact with
          | fetch stage stage' a hfetch =>
              simpa [Stage.inside] using (fetchNParse_eq_some hfetch).2.1
          | failed e => exact Or.inr rfl
        · rw [hv] at hact
          cases hact
      · rwa [Workers.phase_of_ne hstep hij]

/-- The drop of the guard after a failed fetch. -/
theorem release_of_failed {e : Error} (hi : w.phase i = .guarded (.returned (.error e)))
    (h : fetchStep env w (.act i .release) = some w') :
    w'.phase i = .finished (.error e) ∧ w'.shared.info = w.shared.info ∧
      w'.shared.lock = none := by
  obtain ⟨sh, p, hact, rfl⟩ := fetchStep_act h
  rw [Workers.phase_update, if_pos rfl]
  rw [hi] at hact
  cases hact with
  | fetch stage stage' a hfetch => simpa [Stage.inside] using (fetchNParse_eq_some hfetch).2.1
  | failed e => exact ⟨rfl, rfl, rfl⟩

/-- What a `try_lock` leaves to its worker. -/
theorem untouched_of_tryLock (h : fetchStep env w (.act i .tryLock) = some w') :
    Untouched i w.shared.info w' := by
  obtain ⟨sh, p, hact, rfl⟩ := fetchStep_act h
  unfold Untouched
  rw [Workers.phase_update, if_pos rfl]
  generalize w.phase i = p₀ at hact
  cases hact with
  | refused d hd hexp => exact Or.inr (Or.inr ⟨_, rfl⟩)
  | locked hexp => exact Or.inl ⟨.entered, rfl, by simp, rfl⟩
  | fetch stage stage' a hfetch => simpa [FetchAct.fetches] using (fetchNParse_eq_some hfetch).1

/-- **Failed fetches leave no trace, and the lock does not leak.** In every run in which no held
lock is taken over, from any cache and a free lock:
the lock is free whenever no guard is held;
the cache changes only by `s_info.set`, to a value that decodes to an info its worker has fetched;
a worker whose fetch failed drops its guard with the cache as it was at its `try_lock`, and returns
the error;
and a worker that finds the lock taken returns `Ok` and touches neither.
Source: `fetch_remote_info`, `fetch_n_parse`, `fetch_from_remote` -/
theorem failed_fetches_leave_no_trace (hstart : ∀ i, w₀.phase i = .start)
    (hfree : w₀.shared.lock = none) (hrun : run (fetchStep env) w₀ tr = some w)
    (hexp : ∀ x ∈ stepsOf (fetchStep env) w₀ tr, OvertakesNobody env x.1 x.2) :
    (∀ v ∈ visited (fetchStep env) w₀ tr, (∀ i, (v.phase i).holdsGuard = false) →
      v.shared.lock = none) ∧
    (∀ tr₁ l tr₂ v v', tr = tr₁ ++ l :: tr₂ → run (fetchStep env) w₀ tr₁ = some v →
      fetchStep env v l = some v' → v'.shared.info ≠ v.shared.info →
      ∃ i bytes info, l = .act i .store ∧ .act i (.body bytes) ∈ tr₁ ∧
        parseInfo env.fromStr bytes = .ok info ∧
        StorageValueRef.get HackerNewsInfo.codec v'.shared.info = .ok (some info)) ∧
    (∀ tr₁ i tr₂ tr₃ v u u' a e, tr = (tr₁ ++ .act i .tryLock :: tr₂) ++ .act i .release :: tr₃ →
      run (fetchStep env) w₀ tr₁ = some v →
      run (fetchStep env) w₀ (tr₁ ++ .act i .tryLock :: tr₂) = some u →
      fetchStep env u (.act i .release) = some u' →
      .act i a ∈ tr₂ → a.outcome env.fromStr = some (.error e) →
      u'.phase i = .finished (.error e) ∧ u'.shared.info = v.shared.info ∧
        u'.shared.lock = none) ∧
    (∀ tr₁ i tr₂ v v', tr = tr₁ ++ .act i .tryLock :: tr₂ →
      run (fetchStep env) w₀ tr₁ = some v → v.shared.lock ≠ none →
      fetchStep env v (.act i .tryLock) = some v' →
      v'.shared = v.shared ∧ v'.phase i = .finished (.ok ())) := by
  refine ⟨?_, ?_, ?_, ?_⟩
  · intro v hv hnobody
    obtain ⟨tr₁, tr₂, rfl, h₁, -⟩ := exists_prefix_of_mem_visited hrun hv
    by_contra hlock
    obtain ⟨d, hd⟩ := Option.ne_none_iff_exists'.mp hlock
    obtain ⟨i, hi⟩ := owned_of_run hfree h₁ (by simp [leaseOf, hd])
    simp [leaseOf, hnobody i] at hi
  · rintro tr₁ l tr₂ v v' rfl h₁ hstep hchanged
    rcases info_eq_or_store hstep with hsame | ⟨i, info, rfl, hreturned, hset⟩
    · exact absurd hsame hchanged
    · obtain ⟨a, ha, hout⟩ := outcome_mem_of_returned hstart h₁ hreturned
      obtain ⟨bytes, rfl, hparse⟩ := body_of_outcome_ok hout
      exact ⟨i, bytes, info, rfl, ha, hparse, by rw [hset, StorageValueRef.get_set]⟩
  · rintro tr₁ i tr₂ tr₃ v u u' a e rfl h₁ hu hrelease ha hout
    obtain ⟨s₁, s₂, rfl⟩ := List.append_of_mem ha
    have hcond := steps_of_append_left hu hexp
    have hexcl : Exclusive v :=
      exclusive_of_run (.of_start hstart) (steps_of_append_left h₁ hcond) h₁
    have hafter := run_of_append h₁ hu
    have hcond' := steps_of_append_right h₁ hcond
    -- from the lock to the release the cache stays, unless the worker stores an info
    have huntouched : Untouched i v.shared.info u := by
      obtain ⟨v', hlock, hrest⟩ := run_cons_eq_some.mp hafter
      rw [stepsOf_cons_of_some _ hlock, List.forall_mem_cons] at hcond'
      have hinv : Exclusive u ∧ Untouched i v.shared.info u :=
        run_induction_of_steps (P := fun x => Exclusive x ∧ Untouched i v.shared.info x)
          (fun _ _ _ hx hl hs => ⟨hx.1.fetchStep hl hs, hx.2.fetchStep hx.1 hs⟩) hcond'.2
          ⟨hexcl.fetchStep hcond'.1 hlock, untouched_of_tryLock hlock⟩ hrest
      exact hinv.2
    -- and its fetch has failed
    have hfailed : u.phase i = .guarded (.returned (.error e)) := by
      obtain ⟨v', -, hrest⟩ := run_cons_eq_some.mp hafter
      obtain ⟨x, -, hrest⟩ := run_append_eq_some.mp hrest
      obtain ⟨x', hx, hrest⟩ := run_cons_eq_some.mp hrest
      rcases failed_of_run (returned_of_outcome hout hx) hrest with h | h
      · exact h
      · obtain ⟨sh, p, hact, -⟩ := fetchStep_act hrelease
        rw [h] at hact
        cases hact
    obtain ⟨hphase, hinfo, hlock⟩ := release_of_failed hfailed hrelease
    refine ⟨hphase, ?_, hlock⟩
    rw [hinfo]
    rcases huntouched with ⟨stage, -, -, hsame⟩ | hstored | ⟨result, hfinished⟩
    · exact hsame
    · simp [hfailed] at hstored
    · simp [hfailed] at hfinished
  · rintro tr₁ i tr₂ v v' rfl h₁ hlock hstep
    have hl : OvertakesNobody env v (.act i .tryLock) := by
      refine hexp (v, .act i .tryLock) ?_
      rw [stepsOf_append _ h₁, stepsOf_cons_of_some _ hstep]
      simp
    exact refused_of_locked (owned_of_run hfree h₁) hl hlock hstep

/-- Both workers miss the cache; the first one takes the lock, and cannot send its request. -/
def failedRun : List (FetchLabel Bool) :=
  [.act false .readCache, .act true .readCache, .act false .tryLock, .act true .tryLock,
    .act false .timestamp, .act false .request, .act false (.sent (.error .ioError))]

theorem failed_fetches_leave_no_trace_failedRun :
    ∃ w, run (fetchStep twoWorkers) atStart (failedRun ++ [.act false .release]) = some w ∧
      w.phase false = .finished (.error .HttpFetchingError) ∧ w.shared.info = none ∧
      w.shared.lock = none := by
  obtain ⟨w, hrun⟩ : ∃ w, run (fetchStep twoWorkers) atStart
      (failedRun ++ [.act false .release]) = some w := ⟨_, rfl⟩
  obtain ⟨-, -, hfailed, -⟩ :=
    failed_fetches_leave_no_trace (fun _ => rfl) rfl hrun (by decide)
  obtain ⟨u, hu, hrelease⟩ := run_snoc_eq_some.mp hrun
  exact ⟨w, hrun, hfailed [.act false .readCache, .act true .readCache] false
    [.act true .tryLock, .act false .timestamp, .act false .request,
      .act false (.sent (.error .ioError))] [] _ u w (.sent (.error .ioError)) .HttpFetchingError
    rfl rfl hu hrelease (by simp) rfl⟩

end OffchainPallets.Ocw
