import OffchainPallets.Ocw.FailedFetches
import OffchainPallets.Ocw.Recovery

/-!
# The workers, one after the other

What any number of workers do at the same time in `fetch_remote_info`, they could have done one
after the other, each from its beginning to its end (`fetchRemoteInfo`), apart from those that the
lock has refused, which do nothing. This needs no assumption about the lock: a worker may be
overtaken.

* `worked_of_run` — how a worker stands, by the steps it has taken.
* `fetches_serialize` — the order: first the workers that failed, then the one that wrote the info
  that is there at the end, then the others. A worker that is done before another one begins comes
  before it.
-/

namespace OffchainPallets.Ocw

open Lib

set_option linter.unusedSectionVars false

variable {T : Config} {ι : Type} [DecidableEq ι] [Fintype ι] {env : FetchEnv T ι} {i j : ι}

/-! ## One worker after the other -/

/-- A worker runs from its beginning to its end, on a host that answers so, and returns this. -/
def serialStep (env : FetchEnv T ι) (sh : FetchShared T) (l : ι × Remote × Except Error Unit) :
    Option (FetchShared T) :=
  let x := fetchRemoteInfo env l.1 l.2.1 sh
  if x.2 = l.2.2 then some x.1 else none

/-- There is an info. -/
def Cached (sh : FetchShared T) : Prop :=
  ∃ info, StorageValueRef.get HackerNewsInfo.codec sh.info = .ok (some info)

section serial

variable {sh : FetchShared T} {remote : Remote}

theorem serialStep_of_free (hfree : sh.lock = none) (result : Except Error Unit) :
    serialStep env sh (i, remote, result) =
      if (endsUnlocked env remote sh).2 = result then some (endsUnlocked env remote sh).1
      else none := by
  have hexpired : ∀ d, sh.lock = some d → d.hasExpired sh.now (env.blockNumber i) = true := by
    intro d hd
    rw [hfree] at hd
    cases hd
  unfold serialStep
  dsimp only
  rw [fetchRemoteInfo_of_expired hexpired]

/-- With an info in the cache nothing happens. -/
theorem serialStep_hit (hfree : sh.lock = none) (hcached : Cached sh) :
    serialStep env sh (i, remote, .ok ()) = some sh := by
  obtain ⟨info, hinfo⟩ := hcached
  rw [serialStep_of_free hfree, endsUnlocked, hinfo]
  rfl

theorem endsUnlocked_of_miss (hmiss : ¬ Cached sh) : endsUnlocked env remote sh =
    sh.conclude (fetchNParseFrom env.fromStr remote sh.now) := by
  unfold endsUnlocked
  split
  · rename_i info hinfo
    exact absurd ⟨info, hinfo⟩ hmiss
  · rfl

/-- A fetch that fails changes nothing. -/
theorem serialStep_failed (hfree : sh.lock = none) (hmiss : ¬ Cached sh) {e : Error}
    (hfetch : fetchNParseFrom env.fromStr remote sh.now = .error e) :
    serialStep env sh (i, remote, .error e) = some sh := by
  rw [serialStep_of_free hfree, endsUnlocked_of_miss hmiss, hfetch, FetchShared.conclude,
    if_pos rfl, ← hfree]

/-- A fetch that succeeds writes its info. -/
theorem serialStep_fetched (hfree : sh.lock = none) (hmiss : ¬ Cached sh) {info : HackerNewsInfo}
    (hfetch : fetchNParseFrom env.fromStr remote sh.now = .ok info) :
    serialStep env sh (i, remote, .ok ()) =
      some { sh with info := StorageValueRef.set HackerNewsInfo.codec info } := by
  rw [serialStep_of_free hfree, endsUnlocked_of_miss hmiss, hfetch, FetchShared.conclude,
    if_pos rfl, ← hfree]

end serial

/-! ## How a worker stands -/

/-- A host can let `fetch_n_parse` return this, whatever the time is. -/
def Fetchable (env : FetchEnv T ι) (result : Except Error HackerNewsInfo) : Prop :=
  ∃ remote, ∀ now, fetchNParseFrom env.fromStr remote now = result

/-- What a step of `fetch_n_parse` returns, a host can let it return. -/
theorem fetchable_of_returned {now : Timestamp} {stage : Stage} {a : FetchAct}
    {result : Except Error HackerNewsInfo}
    (h : fetchNParse env.fromStr now stage a = some (.returned result)) :
    Fetchable env result := by
  have hfails : Fetchable env (.error .HttpFetchingError) :=
    ⟨⟨fun _ => .error .ioError, fun _ => none, []⟩, fun _ => rfl⟩
  unfold fetchNParse at h
  split at h
  case h_8 =>
    split_ifs at h
    · cases h
      exact hfails
    · cases h
  case h_9 =>
    obtain rfl := Stage.returned.inj (Option.some.inj h)
    exact ⟨⟨fun _ => .ok (), fun _ => some (.ok 200), _⟩, fun _ => rfl⟩
  all_goals
    cases h
    try exact hfails

/-- How a worker stands that has taken these steps. -/
structure Worked (env : FetchEnv T ι) (sh : FetchShared T) (acts : List FetchAct)
    (p : FetchPhase) : Prop where
  ok : p = .finished (.ok ()) → acts.getLast? = some .tryLock ∨ Cached sh
  stored : p = .guarded .stored → Cached sh
  returned : ∀ result, p = .guarded (.returned result) → Fetchable env result
  failed : ∀ e, p = .finished (.error e) →
    acts.getLast? ≠ some .tryLock ∧ Fetchable env (.error e)
  wrote : .store ∈ acts →
    acts.getLast? ≠ some .tryLock ∧ (p = .guarded .stored ∨ p = .finished (.ok ()))

/-- No step takes an info away. -/
theorem cached_of_act {sh sh' : FetchShared T} {p p' : FetchPhase} {a : FetchAct}
    (h : FetchActs env i sh p a sh' p') (hcached : Cached sh) : Cached sh' := by
  cases h with
  | store info => exact ⟨info, StorageValueRef.get_set _ _⟩
  | _ => exact hcached

/-- The others only add to what is cached. -/
theorem Worked.mono {sh sh' : FetchShared T} {acts : List FetchAct} {p : FetchPhase}
    (h : Worked env sh acts p) (hcached : Cached sh → Cached sh') : Worked env sh' acts p where
  ok hp := (h.ok hp).imp_right hcached
  stored hp := hcached (h.stored hp)
  returned := h.returned
  failed := h.failed
  wrote := h.wrote

/-- **One step** of the worker. -/
theorem Worked.step {sh sh' : FetchShared T} {acts : List FetchAct} {p p' : FetchPhase}
    {a : FetchAct} (h : Worked env sh acts p) (hact : FetchActs env i sh p a sh' p') :
    Worked env sh' (acts ++ [a]) p' := by
  -- a worker that has written can only drop its guard
  have hwritten : .store ∈ acts → p = .guarded .stored ∨ p = .finished (.ok ()) :=
    fun hstore => (h.wrote hstore).2
  cases hact with
  | hit info hinfo =>
      exact {
        ok := fun _ => Or.inr ⟨info, hinfo⟩
        stored := nofun
        returned := nofun
        failed := nofun
        wrote := by simp }
  | miss hmiss =>
      exact {
        ok := nofun
        stored := nofun
        returned := nofun
        failed := nofun
        wrote := by simpa using hwritten }
  | refused d hd hexpired =>
      exact {
        ok := fun _ => Or.inl List.getLast?_concat
        stored := nofun
        returned := nofun
        failed := nofun
        wrote := by simpa using hwritten }
  | locked hexpired =>
      exact {
        ok := nofun
        stored := nofun
        returned := nofun
        failed := nofun
        wrote := by simpa using hwritten }
  | fetch stage stage' a hfetch =>
      obtain ⟨hfetches, hinside, hstage'⟩ := fetchNParse_eq_some hfetch
      have hne : stage ≠ .stored := by
        rintro rfl
        cases hinside
      have hne' : stage' ≠ .stored := by
        rintro rfl
        rcases hstage' with hinside' | ⟨result, hresult⟩
        · cases hinside'
        · cases hresult
      have hstore : a ≠ .store := by
        rintro rfl
        cases hfetches
      have hnot : .store ∉ acts := by simpa [hne] using hwritten
      exact {
        ok := nofun
        stored := fun hp => absurd (FetchPhase.guarded.inj hp) hne'
        returned := fun result hp => by
          obtain rfl := FetchPhase.guarded.inj hp
          exact fetchable_of_returned hfetch
        failed := nofun
        wrote := by simp [hnot, hstore.symm] }
  | store info =>
      exact {
        ok := nofun
        stored := fun _ => ⟨info, StorageValueRef.get_set _ _⟩
        returned := nofun
        failed := nofun
        wrote := fun _ => ⟨by simp, Or.inl rfl⟩ }
  | failed e =>
      exact {
        ok := nofun
        stored := nofun
        returned := nofun
        failed := fun e' he => ⟨by simp, by cases he; exact h.returned _ rfl⟩
        wrote := by simpa using hwritten }
  | done =>
      exact {
        ok := fun _ => Or.inr (h.stored rfl)
        stored := nofun
        returned := nofun
        failed := nofun
        wrote := fun _ => ⟨by simp, Or.inr rfl⟩ }

/-! ## Runs -/

section runs

variable {w₀ w w' : Fetching T ι} {tr tr₁ tr₂ : List (FetchLabel ι)}

theorem stepsBy_append (i : ι) (tr₁ tr₂ : List (FetchLabel ι)) :
    stepsBy i (tr₁ ++ tr₂) = stepsBy i tr₁ ++ stepsBy i tr₂ :=
  List.filterMap_append

theorem stepsBy_snoc_of_ne {k : ι} (hk : k ≠ i) (tr : List (FetchLabel ι)) (a : FetchAct) :
    stepsBy i (tr ++ [.act k a]) = stepsBy i tr := by
  rw [stepsBy_append]
  simp [stepsBy, hk]

theorem stepsBy_snoc_self (tr : List (FetchLabel ι)) (a : FetchAct) :
    stepsBy i (tr ++ [.act i a]) = stepsBy i tr ++ [a] := by
  rw [stepsBy_append]
  simp [stepsBy]

theorem stepsBy_snoc_tick (tr : List (FetchLabel ι)) (now : Timestamp) :
    stepsBy i (tr ++ [.tick now]) = stepsBy i tr := by
  rw [stepsBy_append]
  exact List.append_nil _

theorem cached_of_step {l : FetchLabel ι} (h : fetchStep env w l = some w')
    (hcached : Cached w.shared) : Cached w'.shared := by
  cases l with
  | tick now =>
      rw [fetchStep_tick h]
      exact hcached
  | act k a =>
      obtain ⟨sh, p, hact, rfl⟩ := fetchStep_act h
      exact cached_of_act hact hcached

/-- **Whole runs.** Every worker stands as the steps it has taken say. -/
theorem worked_of_run (hstart : ∀ i, w₀.phase i = .start)
    (hrun : run (fetchStep env) w₀ tr = some w) (i : ι) :
    Worked env w.shared (stepsBy i tr) (w.phase i) := by
  refine run_history (P := fun tr v => Worked env v.shared (stepsBy i tr) (v.phase i)) ?_ ?_ hrun
  · rw [hstart i]
    exact ⟨nofun, nofun, nofun, nofun, nofun⟩
  · intro tr v l v' hv hstep
    cases l with
    | tick now =>
        rw [stepsBy_snoc_tick, fetchStep_tick hstep]
        exact hv.mono id
    | act k a =>
        by_cases hk : k = i
        · subst hk
          obtain ⟨sh, p, hact, rfl⟩ := fetchStep_act hstep
          rw [stepsBy_snoc_self, Workers.phase_update, if_pos rfl]
          exact hv.step hact
        · rw [stepsBy_snoc_of_ne hk, Workers.phase_of_ne hstep (Ne.symm hk)]
          exact hv.mono (cached_of_step hstep)

/-- A worker that is done takes no step. -/
theorem finished_of_run {result : Except Error Unit} (hi : w.phase i = .finished result)
    (hrun : run (fetchStep env) w tr = some w') :
    w'.phase i = .finished result ∧ stepsBy i tr = [] := by
  refine run_history (P := fun tr v => v.phase i = .finished result ∧ stepsBy i tr = []) ?_ ?_ hrun
  · exact ⟨hi, rfl⟩
  · rintro tr v l v' ⟨hv, hsteps⟩ hstep
    cases l with
    | tick now =>
        rw [stepsBy_snoc_tick, fetchStep_tick hstep]
        exact ⟨hv, hsteps⟩
    | act k a =>
        by_cases hk : k = i
        · subst hk
          obtain ⟨sh, p, hact, rfl⟩ := fetchStep_act hstep
          rw [hv] at hact
          cases hact
        · rw [stepsBy_snoc_of_ne hk, Workers.phase_of_ne hstep (Ne.symm hk)]
          exact ⟨hv, hsteps⟩

/-- A worker that begins with an info in the cache does nothing but read it. -/
theorem hits_of_cached (hcached : Cached w.shared) (hi : w.phase i = .start)
    (hrun : run (fetchStep env) w tr = some w') :
    (w'.phase i = .start ∨ w'.phase i = .finished (.ok ())) ∧ .store ∉ stepsBy i tr := by
  suffices h : Cached w'.shared ∧ (w'.phase i = .start ∨ w'.phase i = .finished (.ok ())) ∧
      .store ∉ stepsBy i tr from h.2
  refine run_history (P := fun tr v => Cached v.shared ∧
    (v.phase i = .start ∨ v.phase i = .finished (.ok ())) ∧ .store ∉ stepsBy i tr) ?_ ?_ hrun
  · exact ⟨hcached, Or.inl hi, nofun⟩
  · rintro tr v l v' ⟨hv, hphase, hstore⟩ hstep
    refine ⟨cached_of_step hstep hv, ?_⟩
    cases l with
    | tick now =>
        rw [stepsBy_snoc_tick, fetchStep_tick hstep]
        exact ⟨hphase, hstore⟩
    | act k a =>
        by_cases hk : k = i
        · subst hk
          obtain ⟨sh, p, hact, rfl⟩ := fetchStep_act hstep
          rw [stepsBy_snoc_self, Workers.phase_update, if_pos rfl]
          rcases hphase with hphase | hphase
          · rw [hphase] at hact
            cases hact with
            | hit info hinfo => exact ⟨Or.inr rfl, by simpa using hstore⟩
            | miss hmiss =>
                obtain ⟨info, hinfo⟩ := hv
                exact absurd hinfo (hmiss info)
          · rw [hphase] at hact
            cases hact
        · rw [stepsBy_snoc_of_ne hk, Workers.phase_of_ne hstep (Ne.symm hk)]
          exact ⟨hphase, hstore⟩

/-- The cache is as it was, or some worker has written what it holds. -/
theorem info_of_run (hstart : ∀ i, w₀.phase i = .start)
    (hrun : run (fetchStep env) w₀ tr = some w) :
    w.shared.info = w₀.shared.info ∨ ∃ i info, .store ∈ stepsBy i tr ∧
      Fetchable env (.ok info) ∧
      w.shared.info = StorageValueRef.set HackerNewsInfo.codec info := by
  refine (run_history (P := fun tr v => run (fetchStep env) w₀ tr = some v ∧
    (v.shared.info = w₀.shared.info ∨ ∃ i info, .store ∈ stepsBy i tr ∧
      Fetchable env (.ok info) ∧
      v.shared.info = StorageValueRef.set HackerNewsInfo.codec info)) ?_ ?_ hrun).2
  · exact ⟨rfl, Or.inl rfl⟩
  · rintro tr v l v' ⟨hv, hinfo⟩ hstep
    refine ⟨run_snoc_eq_some.mpr ⟨v, hv, hstep⟩, ?_⟩
    rcases info_eq_or_store hstep with hsame | ⟨k, info, rfl, hreturned, hset⟩
    · rw [hsame]
      apply hinfo.imp_right
      rintro ⟨i, info, hstore, hrest⟩
      refine ⟨i, info, ?_, hrest⟩
      rw [stepsBy_append]
      exact List.mem_append_left _ hstore
    · refine Or.inr ⟨k, info, ?_, (worked_of_run hstart hv k).returned _ hreturned, hset⟩
      rw [stepsBy_snoc_self]
      exact List.mem_append_right _ List.mem_cons_self

/-- The workers that have begun, in order. -/
def begun (tr : List (FetchLabel ι)) : List ι :=
  tr.filterMap fun
    | .act i .readCache => some i
    | _ => none

theorem begun_append (tr₁ tr₂ : List (FetchLabel ι)) :
    begun (tr₁ ++ tr₂) = begun tr₁ ++ begun tr₂ :=
  List.filterMap_append

/-- A worker begins by reading the cache, and never again. -/
theorem start_iff_of_act {sh sh' : FetchShared T} {p p' : FetchPhase} {a : FetchAct}
    (h : FetchActs env i sh p a sh' p') :
    p' ≠ .start ∧ ((p = .start ∧ a = .readCache) ∨
      (p ≠ .start ∧ ∀ k : ι, begun [.act k a] = [])) := by
  cases h with
  | hit info hinfo => exact ⟨nofun, Or.inl ⟨rfl, rfl⟩⟩
  | miss hmiss => exact ⟨nofun, Or.inl ⟨rfl, rfl⟩⟩
  | fetch stage stage' a hfetch =>
      refine ⟨nofun, Or.inr ⟨nofun, fun k => ?_⟩⟩
      have hfetches := (fetchNParse_eq_some hfetch).1
      cases a <;> first | rfl | cases hfetches
  | _ => exact ⟨nofun, Or.inr ⟨nofun, fun _ => rfl⟩⟩

/-- Every worker begins once. -/
theorem begun_of_run (hstart : ∀ i, w₀.phase i = .start)
    (hrun : run (fetchStep env) w₀ tr = some w) :
    (begun tr).Nodup ∧ ∀ i, i ∈ begun tr ↔ w.phase i ≠ .start := by
  refine run_history
    (P := fun tr v => (begun tr).Nodup ∧ ∀ i, i ∈ begun tr ↔ v.phase i ≠ .start) ?_ ?_ hrun
  · refine ⟨List.nodup_nil, fun i => ?_⟩
    simp [begun, hstart i]
  · rintro tr v l v' ⟨hnodup, hmem⟩ hstep
    rw [begun_append]
    cases l with
    | tick now =>
        rw [fetchStep_tick hstep]
        have hnone : (begun [.tick now] : List ι) = [] := rfl
        rw [hnone, List.append_nil]
        exact ⟨hnodup, hmem⟩
    | act k a =>
        obtain ⟨sh, p, hact, rfl⟩ := fetchStep_act hstep
        obtain ⟨hp, ⟨hk, rfl⟩ | ⟨hk, hnone⟩⟩ := start_iff_of_act hact
        · have hone : begun [.act k .readCache] = [k] := rfl
          have hnew : k ∉ begun tr := fun h => (hmem k).mp h hk
          rw [hone]
          refine ⟨?_, fun i => ?_⟩
          · exact hnodup.append (List.nodup_singleton k) (by simpa using hnew)
          · rw [List.mem_append, List.mem_singleton, hmem, Workers.phase_update]
            by_cases hik : i = k
            · simp [hik, hp]
            · simp [hik]
        · rw [hnone, List.append_nil]
          refine ⟨hnodup, fun i => ?_⟩
          rw [hmem, Workers.phase_update]
          by_cases hik : i = k
          · simp [hik, hp, hk]
          · simp [hik]

/-- The lock has refused the worker: the last of its steps is `try_lock`. -/
def Refused (tr : List (FetchLabel ι)) (i : ι) : Prop :=
  (stepsBy i tr).getLast? = some .tryLock

/-- One worker is done before another one begins. -/
def Before (env : FetchEnv T ι) (w₀ : Fetching T ι) (tr : List (FetchLabel ι)) (i j : ι) : Prop :=
  ∃ tr₁ tr₂ v, tr = tr₁ ++ tr₂ ∧ run (fetchStep env) w₀ tr₁ = some v ∧
    (∃ result, v.phase i = .finished result) ∧ v.phase j = .start

/-- Then it has begun before. -/
theorem begun_of_before (hstart : ∀ i, w₀.phase i = .start)
    (hrun : run (fetchStep env) w₀ tr = some w) (hj : w.phase j ≠ .start)
    (h : Before env w₀ tr i j) : [i, j].Sublist (begun tr) := by
  obtain ⟨tr₁, tr₂, v, rfl, hv, ⟨result, hdone⟩, hbegins⟩ := h
  have hfirst := (begun_of_run hstart hv).2
  have hi : i ∈ begun tr₁ := (hfirst i).mpr (by rw [hdone]; nofun)
  have hnot : j ∉ begun tr₁ := fun h => (hfirst j).mp h hbegins
  have hboth := ((begun_of_run hstart hrun).2 j).mpr hj
  rw [begun_append] at hboth ⊢
  have hlater : j ∈ begun tr₂ := (List.mem_append.mp hboth).resolve_left hnot
  exact (List.singleton_sublist.mpr hi).append (List.singleton_sublist.mpr hlater)

/-- After a worker that returned `Ok` and was not refused, another one finds an info. -/
theorem hits_of_before (hstart : ∀ i, w₀.phase i = .start)
    (hrun : run (fetchStep env) w₀ tr = some w) (hi : w.phase i = .finished (.ok ()))
    (hserved : ¬ Refused tr i) (hj : w.phase j ≠ .start) (h : Before env w₀ tr i j) :
    w.phase j = .finished (.ok ()) ∧ .store ∉ stepsBy j tr := by
  obtain ⟨tr₁, tr₂, v, rfl, hv, ⟨result, hdone⟩, hbegins⟩ := h
  have hrest := run_of_append hv hrun
  obtain ⟨hstays, hidle⟩ := finished_of_run hdone hrest
  obtain rfl : .ok () = result := FetchPhase.finished.inj (hi.symm.trans hstays)
  have hcached : Cached v.shared := by
    apply ((worked_of_run hstart hv i).ok hdone).resolve_left
    unfold Refused at hserved
    rwa [stepsBy_append, hidle, List.append_nil] at hserved
  obtain ⟨hphase, hstore⟩ := hits_of_cached hcached hbegins hrest
  refine ⟨hphase.resolve_left hj, ?_⟩
  rw [stepsBy_append, List.mem_append]
  rintro (hwrote | hwrote)
  · have hover := ((worked_of_run hstart hv j).wrote hwrote).2
    simp [hbegins] at hover
  · exact hstore hwrote

/-- When all workers are done, the lock is free. -/
theorem lock_of_done (hfree : w₀.shared.lock = none) (hrun : run (fetchStep env) w₀ tr = some w)
    (hdone : ∀ i, ∃ result, w.phase i = .finished result) : w.shared.lock = none := by
  by_contra hlock
  obtain ⟨d, hd⟩ := Option.ne_none_iff_exists'.mp hlock
  obtain ⟨i, hi⟩ := owned_of_run hfree hrun (by simp [leaseOf, hd])
  obtain ⟨result, hresult⟩ := hdone i
  simp [leaseOf, hresult, FetchPhase.holdsGuard] at hi

/-- The worker whose info is there at the end, if any, can write it alone. -/
theorem exists_writer (hstart : ∀ i, w₀.phase i = .start) (hfree : w₀.shared.lock = none)
    (hrun : run (fetchStep env) w₀ tr = some w) (hlock : w.shared.lock = none) :
    ∃ (writer : Option ι) (remote : Remote), (∀ i, writer = some i → .store ∈ stepsBy i tr) ∧
      run (serialStep env) (w₀.shared.atTime w.shared.now)
        (writer.toList.map fun i => (i, remote, .ok ())) = some w.shared := by
  have hshared : w.shared = { w₀.shared.atTime w.shared.now with info := w.shared.info } := by
    show w.shared = ⟨w.shared.now, w.shared.info, w₀.shared.lock⟩
    rw [hfree, ← hlock]
  rcases info_of_run hstart hrun with hsame | ⟨i, info, hstore, ⟨remote, hfetch⟩, hset⟩
  · refine ⟨none, ⟨fun _ => .error .ioError, fun _ => none, []⟩, nofun, ?_⟩
    rw [hsame] at hshared
    exact congrArg some hshared.symm
  · refine ⟨some i, remote, ?_, ?_⟩
    · rintro k hk
      obtain rfl := Option.some.inj hk
      exact hstore
    · have hmiss : ¬ Cached (w₀.shared.atTime w.shared.now) :=
        fun hcached => (hits_of_cached hcached (hstart i) hrun).2 hstore
      have hfree' : (w₀.shared.atTime w.shared.now).lock = none := hfree
      rw [hset] at hshared
      exact run_cons_eq_some.mpr
        ⟨_, serialStep_fetched hfree' hmiss (hfetch _), congrArg some hshared.symm⟩

/-- The worker has returned an error. -/
def Failed (w : Fetching T ι) (i : ι) : Prop := ∃ e, w.phase i = .finished (.error e)

/-- The workers that come last: those that were not refused and neither failed nor wrote the info
that is there at the end. -/
def Later (tr : List (FetchLabel ι)) (w : Fetching T ι) (writer : Option ι) (i : ι) : Prop :=
  ¬ Refused tr i ∧ ¬ Failed w i ∧ writer ≠ some i

theorem ok_of_not_failed (hdone : ∀ i, ∃ result, w.phase i = .finished result)
    (hi : ¬ Failed w i) : w.phase i = .finished (.ok ()) := by
  obtain ⟨e | u, hresult⟩ := hdone i
  · exact absurd ⟨e, hresult⟩ hi
  · exact hresult

theorem served_of_failed (hstart : ∀ i, w₀.phase i = .start)
    (hrun : run (fetchStep env) w₀ tr = some w) (hi : Failed w i) : ¬ Refused tr i := by
  obtain ⟨e, he⟩ := hi
  exact ((worked_of_run hstart hrun i).failed e he).1

theorem served_of_wrote (hstart : ∀ i, w₀.phase i = .start)
    (hrun : run (fetchStep env) w₀ tr = some w) (hi : .store ∈ stepsBy i tr) :
    ¬ Refused tr i ∧ ¬ Failed w i := by
  obtain ⟨hserved, hphase⟩ := (worked_of_run hstart hrun i).wrote hi
  refine ⟨hserved, ?_⟩
  rintro ⟨e, he⟩
  simp [he] at hphase

open Classical in
/-- **The order**: all that were not refused, and in real time. -/
theorem order_of_run (hstart : ∀ i, w₀.phase i = .start)
    (hrun : run (fetchStep env) w₀ tr = some w)
    (hdone : ∀ i, ∃ result, w.phase i = .finished result) {writer : Option ι}
    (hwriter : ∀ i, writer = some i → .store ∈ stepsBy i tr) {order : List ι}
    (horder : order = byClass (begun tr) (Failed w) (Later tr w writer) writer) :
    order.Nodup ∧ (∀ i, i ∈ order ↔ ¬ Refused tr i) ∧
      ∀ i j, ¬ Refused tr i → ¬ Refused tr j → Before env w₀ tr i j → [i, j].Sublist order := by
  subst horder
  obtain ⟨hnodup, hbegun⟩ := begun_of_run hstart hrun
  have hbegins : ∀ i, w.phase i ≠ .start := by
    intro i hi
    obtain ⟨result, hresult⟩ := hdone i
    simp [hi] at hresult
  have hwrote : ∀ i, writer = some i → ¬ Refused tr i ∧ ¬ Failed w i :=
    fun i hi => served_of_wrote hstart hrun (hwriter i hi)
  have hclass : ∀ i, ¬ Refused tr i → ¬ Failed w i → writer = some i ∨ Later tr w writer i := by
    intro i hserved hnot
    by_cases hi : writer = some i
    · exact Or.inl hi
    · exact Or.inr ⟨hserved, hnot, hi⟩
  refine ⟨?_, ?_, ?_⟩
  · apply nodup_byClass hnodup
    · exact fun i hfailed hlater => hlater.2.1 hfailed
    · exact fun i hi => ⟨(hwrote i hi).2, fun hlater => hlater.2.2 hi⟩
  · intro i
    rw [mem_byClass, hbegun]
    constructor
    · rintro (⟨-, hfailed⟩ | hi | ⟨-, hlater⟩)
      · exact served_of_failed hstart hrun hfailed
      · exact (hwrote i hi).1
      · exact hlater.1
    · intro hserved
      by_cases hfailed : Failed w i
      · exact Or.inl ⟨hbegins i, hfailed⟩
      · exact Or.inr ((hclass i hserved hfailed).imp_right fun hlater => ⟨hbegins i, hlater⟩)
  · intro i j hi hj hbefore
    apply pair_sublist_byClass (begun_of_before hstart hrun (hbegins j) hbefore)
    by_cases hfailed : Failed w i
    · refine Or.inl ⟨hfailed, ?_⟩
      by_cases hfailed' : Failed w j
      · exact Or.inl hfailed'
      · exact Or.inr (hclass j hj hfailed')
    · -- the later one has found an info
      obtain ⟨hok, hstore⟩ := hits_of_before hstart hrun (ok_of_not_failed hdone hfailed) hi
        (hbegins j) hbefore
      have hnot : ¬ Failed w j := by
        rintro ⟨e, he⟩
        simp [hok] at he
      have hlater : Later tr w writer j :=
        ⟨hj, hnot, fun hw => hstore (hwriter j hw)⟩
      exact Or.inr ((hclass i hi hfailed).imp (fun h => ⟨h, hlater⟩) fun h => ⟨h, hlater⟩)

/-- A worker that has failed can fail before all others. -/
theorem fails_alone {i : ι} (hstart : ∀ i, w₀.phase i = .start) (hfree : w₀.shared.lock = none)
    (hrun : run (fetchStep env) w₀ tr = some w) (hi : Failed w i) :
    ∃ remote result, w.phase i = .finished result ∧
      serialStep env (w₀.shared.atTime w.shared.now) (i, remote, result) =
        some (w₀.shared.atTime w.shared.now) := by
  obtain ⟨e, he⟩ := hi
  obtain ⟨-, remote, hremote⟩ := (worked_of_run hstart hrun i).failed e he
  have hfree' : (w₀.shared.atTime w.shared.now).lock = none := hfree
  have hmiss : ¬ Cached (w₀.shared.atTime w.shared.now) := by
    intro hcached
    have hhit := (hits_of_cached hcached (hstart i) hrun).1
    simp [he] at hhit
  exact ⟨remote, .error e, he, serialStep_failed hfree' hmiss (hremote _)⟩

/-- A later worker finds an info, whatever its host would answer. -/
theorem hits_last {writer : Option ι} {i : ι} (hstart : ∀ i, w₀.phase i = .start)
    (hrun : run (fetchStep env) w₀ tr = some w)
    (hdone : ∀ i, ∃ result, w.phase i = .finished result) (hlock : w.shared.lock = none)
    (hi : Later tr w writer i) (remote : Remote) :
    serialStep env w.shared (i, remote, .ok ()) = some w.shared := by
  obtain ⟨hserved, hnot, -⟩ := hi
  apply serialStep_hit hlock
  exact ((worked_of_run hstart hrun i).ok (ok_of_not_failed hdone hnot)).resolve_left hserved

/-- **The workers can be put in order.** In every run from a free lock in which all workers come to
their end, whatever locks are overtaken: those that were not refused can be put in an order in which
they run one after the other, each with some host, return the same, and leave the same cache and
lock. A worker that is done before another one begins comes before it in this order.
Source: `fetch_remote_info`, `fetch_n_parse`, `fetch_from_remote` -/
theorem fetches_serialize (hstart : ∀ i, w₀.phase i = .start) (hfree : w₀.shared.lock = none)
    (hrun : run (fetchStep env) w₀ tr = some w)
    (hdone : ∀ i, ∃ result, w.phase i = .finished result) :
    ∃ order : List (ι × Remote × Except Error Unit),
      (order.map Prod.fst).Nodup ∧
      (∀ i, i ∈ order.map Prod.fst ↔ ¬ Refused tr i) ∧
      (∀ x ∈ order, w.phase x.1 = .finished x.2.2) ∧
      run (serialStep env) (w₀.shared.atTime w.shared.now) order = some w.shared ∧
      ∀ i j, ¬ Refused tr i → ¬ Refused tr j → Before env w₀ tr i j →
        [i, j].Sublist (order.map Prod.fst) := by
  classical
  have hlock := lock_of_done hfree hrun hdone
  obtain ⟨writer, remote, hwriter, hwrites⟩ := exists_writer hstart hfree hrun hlock
  have hremote : ∀ i, ∃ (remote : Remote) (result : Except Error Unit), Failed w i →
      w.phase i = .finished result ∧
        serialStep env (w₀.shared.atTime w.shared.now) (i, remote, result) =
          some (w₀.shared.atTime w.shared.now) := by
    intro i
    by_cases hi : Failed w i
    · obtain ⟨remote, result, hfails⟩ := fails_alone hstart hfree hrun hi
      exact ⟨remote, result, fun _ => hfails⟩
    · exact ⟨remote, .ok (), fun h => absurd h hi⟩
  choose remoteOf resultOf hfails using hremote
  have hfst : ∀ (l : List ι) (f : ι → Remote × Except Error Unit),
      (l.map fun i => (i, f i)).map Prod.fst = l := by
    intro l f
    rw [List.map_map]
    exact List.map_id l
  refine ⟨((begun tr).filter (Failed w)).map (fun i => (i, remoteOf i, resultOf i)) ++
    (writer.toList.map (fun i => (i, remote, .ok ())) ++
      ((begun tr).filter (Later tr w writer)).map fun i => (i, remote, .ok ())), ?_⟩
  rw [List.map_append, List.map_append, hfst, hfst, hfst]
  obtain ⟨hnodup, hmem, hbefore⟩ := order_of_run hstart hrun hdone hwriter rfl
  refine ⟨hnodup, hmem, ?_, ?_, hbefore⟩
  · intro x hx
    rw [List.mem_append, List.mem_append, List.mem_map, List.mem_map, List.mem_map] at hx
    rcases hx with ⟨i, hi, rfl⟩ | ⟨i, hi, rfl⟩ | ⟨i, hi, rfl⟩
    · exact (hfails i (by simpa using (List.mem_filter.mp hi).2)).1
    · have hwrote := served_of_wrote hstart hrun (hwriter i (by simpa using hi))
      exact ok_of_not_failed hdone hwrote.2
    · have hlater : Later tr w writer i := by simpa using (List.mem_filter.mp hi).2
      exact ok_of_not_failed hdone hlater.2.1
  · refine run_append_eq_some.mpr ⟨_, run_of_fixed ?_, run_append_eq_some.mpr
      ⟨_, hwrites, run_of_fixed ?_⟩⟩
    · intro x hx
      obtain ⟨i, hi, rfl⟩ := List.mem_map.mp hx
      exact (hfails i (by simpa using (List.mem_filter.mp hi).2)).2
    · intro x hx
      obtain ⟨i, hi, rfl⟩ := List.mem_map.mp hx
      exact hits_last hstart hrun hdone hlock (by simpa using (List.mem_filter.mp hi).2) remote

end runs

/-- The first worker is overtaken while it reads the body of its response, and ends after the second
one. -/
def overtakenRun : List (FetchLabel Bool) :=
  slowBody ++ [.act true .timestamp, .act true .request, .act true (.sent (.ok ())),
    .act true .wait, .act true (.waited (some (.ok 200))),
    .act true (.body itemText.toUTF8.data.toList), .act true .store, .act true .release,
    .act false (.body itemText.toUTF8.data.toList), .act false .store, .act false .release]

theorem fetches_serialize_overtakenRun :
    ∃ w order, run (fetchStep twoWorkers) atStart overtakenRun = some w ∧
      (∀ i, i ∈ order.map Prod.fst) ∧
      run (serialStep twoWorkers) (atStart.shared.atTime 4001) order = some w.shared := by
  obtain ⟨w, hrun, hnow, hdone⟩ : ∃ w, run (fetchStep twoWorkers) atStart overtakenRun = some w ∧
      w.shared.now = 4001 ∧ ∀ i, w.phase i = .finished (.ok ()) := ⟨_, rfl, rfl, by decide⟩
  obtain ⟨order, -, hmem, -, hserial, -⟩ :=
    fetches_serialize (fun _ => rfl) rfl hrun fun i => ⟨_, hdone i⟩
  rw [hnow] at hserial
  refine ⟨w, order, hrun, fun i => (hmem i).mpr ?_, hserial⟩
  cases i <;> simp [Refused, stepsBy, overtakenRun, slowBody]

end OffchainPallets.Ocw
