import OffchainPallets.Ocw.RemoteFetch

/-!
# Progress of `fetch_remote_info`

No worker waits for another one: the lock is only tried. So a worker that crashes, with the lock or
in the middle of a request, delays what is fetched, but none of the workers.

* `fetch_wait_free` — in every interleaving a worker takes ten steps at most, and at any time it can
  go on to its end, by its own steps.
* `fetch_alone_iff` — `fetchRemoteInfo` is `fetch_remote_info` as one function, of what the host
  answers (`Remote`): a worker that is alone ends as this function says, and in no other way.
-/

namespace OffchainPallets.Ocw

open Lib

variable {T : Config} {ι : Type} {env : FetchEnv T ι}

/-! ## Ten steps -/

/-- How many steps are left at most. -/
def Stage.rank : Stage → ℕ
  | .entered => 8
  | .timed _ => 7
  | .sending _ => 6
  | .pending _ => 5
  | .waiting _ => 4
  | .reading => 3
  | .returned _ => 2
  | .stored => 1

/-- How many steps are left at most. -/
def FetchPhase.rank : FetchPhase → ℕ
  | .start => 10
  | .missed => 9
  | .guarded stage => stage.rank
  | .finished _ => 0

theorem Stage.rank_lt {fromStr : String → Option HackerNewsInfo} {now : Timestamp}
    {stage stage' : Stage} {a : FetchAct}
    (h : fetchNParse fromStr now stage a = some stage') : stage'.rank < stage.rank := by
  unfold fetchNParse at h
  split at h
  case h_8 => split_ifs at h <;> cases h <;> simp [Stage.rank]
  case h_10 => cases h
  all_goals
    cases h
    simp [Stage.rank]

theorem FetchPhase.rank_lt {i : ι} {sh sh' : FetchShared T} {p p' : FetchPhase} {a : FetchAct}
    (h : FetchActs env i sh p a sh' p') : p'.rank < p.rank := by
  cases h with
  | fetch stage stage' a hfetch => exact Stage.rank_lt hfetch
  | _ => simp [FetchPhase.rank, Stage.rank]

theorem FetchPhase.rank_le (p : FetchPhase) : p.rank ≤ 10 := by
  cases p with
  | guarded stage => cases stage <;> simp [FetchPhase.rank, Stage.rank]
  | _ => simp [FetchPhase.rank]

/-- A stage is never the last one. -/
theorem exists_fetchAct_guarded (env : FetchEnv T ι) (i : ι) (sh : FetchShared T) (stage : Stage) :
    ∃ a r, fetchAct env i sh (.guarded stage) a = some r := by
  cases stage with
  | entered => exact ⟨.timestamp, _, rfl⟩
  | timed timeout => exact ⟨.request, _, rfl⟩
  | sending timeout => exact ⟨.sent (.ok ()), _, rfl⟩
  | pending timeout => exact ⟨.wait, _, rfl⟩
  | waiting timeout => exact ⟨.waited none, _, rfl⟩
  | reading => exact ⟨.body [], _, rfl⟩
  | returned result =>
      cases result with
      | error e => exact ⟨.release, _, rfl⟩
      | ok info => exact ⟨.store, _, rfl⟩
  | stored => exact ⟨.release, _, rfl⟩

/-- A worker that is not done has a step. -/
theorem exists_fetchAct (env : FetchEnv T ι) (i : ι) (sh : FetchShared T) {p : FetchPhase}
    (hp : ∀ result, p ≠ .finished result) : ∃ a r, fetchAct env i sh p a = some r := by
  cases p with
  | start =>
      refine ⟨.readCache, ?_⟩
      unfold fetchAct
      dsimp only
      split
      · exact ⟨_, rfl⟩
      · exact ⟨_, rfl⟩
  | missed =>
      refine ⟨.tryLock, ?_⟩
      unfold fetchAct
      dsimp only
      split
      · exact ⟨_, rfl⟩
      · exact ⟨_, rfl⟩
  | guarded stage => exact exists_fetchAct_guarded env i sh stage
  | finished result => exact absurd rfl (hp result)

section node

variable [DecidableEq ι] [Fintype ι] {w w' : Fetching T ι}

/-- The steps of a worker in a run. -/
def stepsBy (i : ι) (tr : List (FetchLabel ι)) : List FetchAct :=
  tr.filterMap fun
    | .act j a => if j = i then some a else none
    | .tick _ => none

/-- Only this worker takes steps, and no time passes. -/
def Alone (i : ι) (tr : List (FetchLabel ι)) : Prop := ∀ l ∈ tr, ∃ a, l = .act i a

/-- **Every step of a worker counts**, and the steps of the others do not. -/
theorem rank_of_step {l : FetchLabel ι} (i : ι) (h : fetchStep env w l = some w') :
    (stepsBy i [l]).length + (w'.phase i).rank ≤ (w.phase i).rank := by
  cases l with
  | tick now =>
      rw [fetchStep_tick h]
      exact (Nat.zero_add _).le
  | act j a =>
      obtain ⟨sh, p, hact, rfl⟩ := fetchStep_act h
      by_cases hj : j = i
      · subst hj
        have hlt := FetchPhase.rank_lt hact
        simp only [stepsBy, List.filterMap_cons, if_true, List.filterMap_nil, List.length_cons,
          List.length_nil, Function.update_self]
        omega
      · simp [stepsBy, hj, Function.update_of_ne (Ne.symm hj)]

theorem rank_of_run {tr : List (FetchLabel ι)} (i : ι) (h : run (fetchStep env) w tr = some w') :
    (stepsBy i tr).length + (w'.phase i).rank ≤ (w.phase i).rank := by
  refine run_history
    (P := fun tr v => (stepsBy i tr).length + (v.phase i).rank ≤ (w.phase i).rank) ?_ ?_ h
  · exact (Nat.zero_add _).le
  · intro tr v l v' hv hstep
    have hle := rank_of_step i hstep
    have hsplit : stepsBy i (tr ++ [l]) = stepsBy i tr ++ stepsBy i [l] := List.filterMap_append
    rw [hsplit, List.length_append]
    omega

/-- A worker can go on to its end. -/
theorem exists_run_alone (env : FetchEnv T ι) (w : Fetching T ι) (i : ι) :
    ∃ tr w' result, Alone i tr ∧ run (fetchStep env) w tr = some w' ∧
      w'.phase i = .finished result ∧ ∀ j, j ≠ i → w'.phase j = w.phase j := by
  induction hrank : (w.phase i).rank using Nat.strong_induction_on generalizing w with
  | _ n ih =>
      by_cases hp : ∃ result, w.phase i = .finished result
      · obtain ⟨result, hp⟩ := hp
        exact ⟨[], w, result, by simp [Alone], run_nil w, hp, fun _ _ => rfl⟩
      · -- one step, and the rest by induction
        obtain ⟨a, ⟨sh, p⟩, hact⟩ := exists_fetchAct env i w.shared fun result h => hp ⟨result, h⟩
        have hstep : fetchStep env w (.act i a) =
            some ⟨sh, Function.update w.phase i p⟩ := Workers.step_eq_some.mpr ⟨sh, p, hact, rfl⟩
        have hlt := FetchPhase.rank_lt (fetchActs_of_eq_some hact)
        have hself : (Function.update w.phase i p) i = p := Function.update_self i p w.phase
        obtain ⟨tr, w', result, halone, hrun, hend, hothers⟩ :=
          ih p.rank (hrank ▸ hlt) ⟨sh, Function.update w.phase i p⟩ (congrArg _ hself)
        refine ⟨.act i a :: tr, w', result, ?_, run_cons_eq_some.mpr ⟨_, hstep, hrun⟩, hend, ?_⟩
        · intro l hl
          rcases List.mem_cons.mp hl with rfl | hl
          · exact ⟨a, rfl⟩
          · exact halone l hl
        · intro j hj
          rw [hothers j hj]
          exact Function.update_of_ne hj p w.phase

/-- **`fetch_remote_info` is wait-free.** From every state of a node, whatever has happened before:
in every interleaving with other workers and the clock, each worker takes at most ten steps, and
every state that is reached can be continued by steps of this worker alone to one in which it is
done, without any step of the others and at the time as it is.
Source: `fetch_remote_info`, `fetch_n_parse`, `fetch_from_remote` -/
theorem fetch_wait_free {tr : List (FetchLabel ι)} (i : ι)
    (hrun : run (fetchStep env) w tr = some w') :
    (stepsBy i tr).length ≤ 10 ∧
      ∃ tr' w'' result, Alone i tr' ∧ run (fetchStep env) w (tr ++ tr') = some w'' ∧
        w''.phase i = .finished result ∧ (∀ j, j ≠ i → w''.phase j = w'.phase j) ∧
        (stepsBy i (tr ++ tr')).length ≤ 10 := by
  have hten := (w.phase i).rank_le
  have hrank := rank_of_run i hrun
  obtain ⟨tr', w'', result, halone, hrun', hend, hothers⟩ := exists_run_alone env w' i
  have hall : run (fetchStep env) w (tr ++ tr') = some w'' :=
    run_append_eq_some.mpr ⟨w', hrun, hrun'⟩
  have hrank' := rank_of_run i hall
  exact ⟨by omega, tr', w'', result, halone, hall, hend, hothers, by omega⟩

end node

/-- While the second worker has been refused, the first one can go on. -/
theorem fetch_wait_free_refusedRun :
    ∃ tr w result, Alone false tr ∧
      run (fetchStep twoWorkers) atStart (refusedRun ++ tr) = some w ∧
      w.phase false = .finished result := by
  obtain ⟨w, hrun⟩ : ∃ w, run (fetchStep twoWorkers) atStart refusedRun = some w := ⟨_, rfl⟩
  obtain ⟨-, tr, w', result, halone, hrun', hend, -⟩ := fetch_wait_free false hrun
  exact ⟨tr, w', result, halone, hrun', hend⟩

/-! ## As one function -/

/-- What the host answers to a worker. -/
structure Remote where
  /-- What `send` returns, called with this deadline. -/
  send : Timestamp → Except HttpError Unit
  /-- What `try_wait` returns with this deadline, `none` if it passes. -/
  tryWait : Timestamp → Option (Except Http.Error UInt16)
  /-- The body of the response. -/
  body : List UInt8

/-- Source: `fetch_from_remote` -/
def fetchFromRemote (remote : Remote) (now : Timestamp) : Except Error (List UInt8) :=
  let timeout := now.add FETCH_TIMEOUT_PERIOD
  match remote.send timeout with
  | .error _ => .error .HttpFetchingError
  | .ok () =>
      match remote.tryWait timeout with
      | none => .error .HttpFetchingError
      | some (.error _) => .error .HttpFetchingError
      | some (.ok code) => if code ≠ 200 then .error .HttpFetchingError else .ok remote.body

/-- `fetch_n_parse`, as one function.
Source: `fetch_n_parse` -/
def fetchNParseFrom (fromStr : String → Option HackerNewsInfo) (remote : Remote)
    (now : Timestamp) : Except Error HackerNewsInfo :=
  match fetchFromRemote remote now with
  | .error _ => .error .HttpFetchingError
  | .ok bytes => parseInfo fromStr bytes

/-- What the workers share, at another time. -/
def FetchShared.atTime (sh : FetchShared T) (now : Timestamp) : FetchShared T :=
  { sh with now := now }

/-- What the worker leaves when `fetch_n_parse` has returned: the guard is dropped.
Source: `fetch_remote_info` -/
def FetchShared.conclude (sh : FetchShared T) :
    Except Error HackerNewsInfo → FetchShared T × Except Error Unit
  | .ok info =>
      ({ sh with info := StorageValueRef.set HackerNewsInfo.codec info, lock := none }, .ok ())
  | .error e => ({ sh with lock := none }, .error e)

/-- `fetch_remote_info`, as one function.
Source: `fetch_remote_info` -/
def fetchRemoteInfo (env : FetchEnv T ι) (i : ι) (remote : Remote) (sh : FetchShared T) :
    FetchShared T × Except Error Unit :=
  match StorageValueRef.get HackerNewsInfo.codec sh.info with
  | .ok (some _) => (sh, .ok ())
  | _ =>
      match BlockAndTimeDeadline.tryLock sh.now (env.blockNumber i) (newDeadline env i sh.now)
          sh.lock with
      | some _ => sh.conclude (fetchNParseFrom env.fromStr remote sh.now)
      | none => (sh, .ok ())

/-- What `fetch_n_parse` can return from a stage on. -/
def Stage.CanReturn (fromStr : String → Option HackerNewsInfo) :
    Stage → Except Error HackerNewsInfo → Prop
  | .reading, result => ∃ bytes, result = parseInfo fromStr bytes
  | .returned result', result => result = result'
  | .stored, _ => False
  | _, result => result = .error .HttpFetchingError ∨ ∃ bytes, result = parseInfo fromStr bytes

/-- How a worker can end from a phase on, if it is alone. -/
def CanEnd (env : FetchEnv T ι) (i : ι) (sh : FetchShared T) :
    FetchPhase → FetchShared T × Except Error Unit → Prop
  | .start, x => ∃ remote, x = fetchRemoteInfo env i remote sh
  | .missed, x =>
      match BlockAndTimeDeadline.tryLock sh.now (env.blockNumber i) (newDeadline env i sh.now)
          sh.lock with
      | some _ => ∃ remote, x = sh.conclude (fetchNParseFrom env.fromStr remote sh.now)
      | none => x = (sh, .ok ())
  | .guarded .stored, x => x = ({ sh with lock := none }, .ok ())
  | .guarded stage, x => ∃ result, stage.CanReturn env.fromStr result ∧ x = sh.conclude result
  | .finished result, x => x = (sh, result)

/-- From its beginning, `fetch_n_parse` can return what it returns for some host. -/
theorem canReturn_entered_iff {fromStr : String → Option HackerNewsInfo} (now : Timestamp)
    {result : Except Error HackerNewsInfo} :
    Stage.entered.CanReturn fromStr result ↔
      ∃ remote, result = fetchNParseFrom fromStr remote now := by
  constructor
  · rintro (rfl | ⟨bytes, rfl⟩)
    · exact ⟨⟨fun _ => .error .ioError, fun _ => none, []⟩, rfl⟩
    · exact ⟨⟨fun _ => .ok (), fun _ => some (.ok 200), bytes⟩, rfl⟩
  · rintro ⟨remote, rfl⟩
    unfold fetchNParseFrom
    split
    · exact Or.inl rfl
    · rename_i bytes hbytes
      exact Or.inr ⟨bytes, rfl⟩

/-- One step of `fetch_n_parse` leaves only what could be returned before. -/
theorem Stage.CanReturn.of_step {fromStr : String → Option HackerNewsInfo} {now : Timestamp}
    {stage stage' : Stage} {a : FetchAct} {result : Except Error HackerNewsInfo}
    (h : fetchNParse fromStr now stage a = some stage')
    (hreturn : stage'.CanReturn fromStr result) : stage.CanReturn fromStr result := by
  unfold fetchNParse at h
  split at h
  · cases h
    exact hreturn
  · cases h
    exact hreturn
  · cases h
    exact Or.inl hreturn
  · cases h
    exact hreturn
  · cases h
    exact hreturn
  · cases h
    exact Or.inl hreturn
  · cases h
    exact Or.inl hreturn
  · split_ifs at h with hcode
    · cases h
      exact Or.inl hreturn
    · cases h
      exact Or.inr hreturn
  · cases h
    exact ⟨_, hreturn⟩
  · cases h

/-- Inside, the worker ends with what `fetch_n_parse` returns. -/
theorem canEnd_guarded_iff {i : ι} {sh : FetchShared T} {stage : Stage}
    {x : FetchShared T × Except Error Unit} (hstage : stage ≠ .stored) :
    CanEnd env i sh (.guarded stage) x ↔
      ∃ result, stage.CanReturn env.fromStr result ∧ x = sh.conclude result := by
  cases stage <;> first | rfl | exact absurd rfl hstage

theorem canEnd_missed_of_locked {i : ι} {sh : FetchShared T} {x : FetchShared T × Except Error Unit}
    (h : ∀ d, sh.lock = some d → d.hasExpired sh.now (env.blockNumber i) = true) :
    CanEnd env i sh .missed x ↔ CanEnd env i
      { sh with lock := some (newDeadline env i sh.now) } (.guarded .entered) x := by
  have hlock : BlockAndTimeDeadline.tryLock sh.now (env.blockNumber i) (newDeadline env i sh.now)
      sh.lock = some (newDeadline env i sh.now) :=
    BlockAndTimeDeadline.tryLock_eq_some.mpr ⟨rfl, h⟩
  have hconclude : ∀ result, ({ sh with lock := some (newDeadline env i sh.now) } :
      FetchShared T).conclude result = sh.conclude result := by
    intro result
    cases result <;> rfl
  rw [canEnd_guarded_iff (by simp)]
  unfold CanEnd
  dsimp only
  rw [hlock]
  simp only [hconclude, canReturn_entered_iff sh.now]
  constructor
  · rintro ⟨remote, rfl⟩
    exact ⟨_, ⟨remote, rfl⟩, rfl⟩
  · rintro ⟨-, ⟨remote, rfl⟩, rfl⟩
    exact ⟨remote, rfl⟩

/-- With a value in the cache, the function is done. -/
theorem fetchRemoteInfo_of_hit {i : ι} {sh : FetchShared T} {info : HackerNewsInfo}
    (h : StorageValueRef.get HackerNewsInfo.codec sh.info = .ok (some info)) (remote : Remote) :
    fetchRemoteInfo env i remote sh = (sh, .ok ()) := by
  unfold fetchRemoteInfo
  rw [h]

/-- Without one, it goes on to the lock. -/
theorem canEnd_start_of_miss {i : ι} {sh : FetchShared T} {x : FetchShared T × Except Error Unit}
    (h : ∀ info, StorageValueRef.get HackerNewsInfo.codec sh.info ≠ .ok (some info)) :
    CanEnd env i sh .start x ↔ CanEnd env i sh .missed x := by
  have hmiss : ∀ remote, fetchRemoteInfo env i remote sh =
      match BlockAndTimeDeadline.tryLock sh.now (env.blockNumber i) (newDeadline env i sh.now)
          sh.lock with
      | some _ => sh.conclude (fetchNParseFrom env.fromStr remote sh.now)
      | none => (sh, .ok ()) := by
    intro remote
    unfold fetchRemoteInfo
    split
    · exact absurd ‹_› (h _)
    · rfl
  unfold CanEnd
  simp only [hmiss]
  split
  · rfl
  · -- no host is asked
    exact ⟨fun ⟨_, hx⟩ => hx, fun hx => ⟨⟨fun _ => .ok (), fun _ => none, []⟩, hx⟩⟩

/-- A step leaves only ends that were possible before. -/
theorem CanEnd.of_step {i : ι} {sh sh₁ : FetchShared T} {p p₁ : FetchPhase} {a : FetchAct}
    {x : FetchShared T × Except Error Unit} (h : FetchActs env i sh p a sh₁ p₁)
    (hend : CanEnd env i sh₁ p₁ x) : CanEnd env i sh p x := by
  cases h with
  | hit info hinfo =>
      obtain rfl : x = (sh, .ok ()) := hend
      exact ⟨⟨fun _ => .ok (), fun _ => none, []⟩, (fetchRemoteInfo_of_hit hinfo _).symm⟩
  | miss hmiss => exact (canEnd_start_of_miss hmiss).mpr hend
  | refused d hd hexpired =>
      have hnone : BlockAndTimeDeadline.tryLock sh.now (env.blockNumber i)
          (newDeadline env i sh.now) sh.lock = none :=
        BlockAndTimeDeadline.tryLock_eq_none.mpr ⟨d, hd, hexpired⟩
      unfold CanEnd
      dsimp only
      rw [hnone]
      exact hend
  | locked hexpired => exact (canEnd_missed_of_locked hexpired).mpr hend
  | fetch stage stage' a hfetch =>
      obtain ⟨-, hinside, hafter⟩ := fetchNParse_eq_some hfetch
      have hstage : stage ≠ .stored := by
        rintro rfl
        cases hinside
      have hstage' : stage' ≠ .stored := by
        rintro rfl
        rcases hafter with hafter | ⟨result, hafter⟩ <;> cases hafter
      rw [canEnd_guarded_iff hstage'] at hend
      rw [canEnd_guarded_iff hstage]
      obtain ⟨result, hreturn, hx⟩ := hend
      exact ⟨result, hreturn.of_step hfetch, hx⟩
  | store info => exact ⟨.ok info, rfl, hend⟩
  | failed e => exact ⟨.error e, rfl, hend⟩
  | done => exact hend

/-- What is possible inside is possible after some step. -/
theorem CanEnd.exists_step_guarded {i : ι} {sh : FetchShared T} {stage : Stage}
    {x : FetchShared T × Except Error Unit} (hend : CanEnd env i sh (.guarded stage) x) :
    ∃ a sh₁ p₁, fetchAct env i sh (.guarded stage) a = some (sh₁, p₁) ∧
      CanEnd env i sh₁ p₁ x := by
  cases stage with
  | entered => exact ⟨.timestamp, _, _, rfl, hend⟩
  | timed timeout => exact ⟨.request, _, _, rfl, hend⟩
  | sending timeout => exact ⟨.sent (.ok ()), _, _, rfl, hend⟩
  | pending timeout => exact ⟨.wait, _, _, rfl, hend⟩
  | waiting timeout =>
      obtain ⟨result, rfl | hbody, hx⟩ := hend
      · exact ⟨.waited none, _, _, rfl, _, rfl, hx⟩
      · exact ⟨.waited (some (.ok 200)), _, _, rfl, _, hbody, hx⟩
  | reading =>
      obtain ⟨result, ⟨bytes, rfl⟩, hx⟩ := hend
      exact ⟨.body bytes, _, _, rfl, _, rfl, hx⟩
  | returned result =>
      obtain ⟨result', rfl, hx⟩ := hend
      cases result' with
      | error e => exact ⟨.release, _, _, rfl, hx⟩
      | ok info => exact ⟨.store, _, _, rfl, hx⟩
  | stored => exact ⟨.release, _, _, rfl, hend⟩

/-- What is possible is possible after some step, if the worker is not done. -/
theorem CanEnd.exists_step {i : ι} {sh : FetchShared T} {p : FetchPhase}
    {x : FetchShared T × Except Error Unit} (hp : ∀ result, p ≠ .finished result)
    (hend : CanEnd env i sh p x) :
    ∃ a sh₁ p₁, fetchAct env i sh p a = some (sh₁, p₁) ∧ CanEnd env i sh₁ p₁ x := by
  cases p with
  | start =>
      obtain ⟨a, ⟨sh₁, p₁⟩, hact⟩ := exists_fetchAct env i sh hp
      refine ⟨a, sh₁, p₁, hact, ?_⟩
      cases fetchActs_of_eq_some hact with
      | hit info hinfo =>
          obtain ⟨remote, rfl⟩ := hend
          exact fetchRemoteInfo_of_hit hinfo remote
      | miss hmiss => exact (canEnd_start_of_miss hmiss).mp hend
  | missed =>
      obtain ⟨a, ⟨sh₁, p₁⟩, hact⟩ := exists_fetchAct env i sh hp
      refine ⟨a, sh₁, p₁, hact, ?_⟩
      cases fetchActs_of_eq_some hact with
      | refused d hd hexpired =>
          have hnone : BlockAndTimeDeadline.tryLock sh.now (env.blockNumber i)
              (newDeadline env i sh.now) sh.lock = none :=
            BlockAndTimeDeadline.tryLock_eq_none.mpr ⟨d, hd, hexpired⟩
          unfold CanEnd at hend
          dsimp only at hend
          rwa [hnone] at hend
      | locked hexpired => exact (canEnd_missed_of_locked hexpired).mp hend
  | guarded stage => exact hend.exists_step_guarded
  | finished result => exact absurd rfl (hp result)

section alone

variable [DecidableEq ι] [Fintype ι] {w : Fetching T ι} {i : ι}
  {x : FetchShared T × Except Error Unit}

/-- The node with a worker that is done, which leaves this and returns that. -/
def ended (w : Fetching T ι) (i : ι) (x : FetchShared T × Except Error Unit) : Fetching T ι :=
  ⟨x.1, Function.update w.phase i (.finished x.2)⟩

omit [Fintype ι] in
theorem ended_update (sh : FetchShared T) (p : FetchPhase) :
    ended ⟨sh, Function.update w.phase i p⟩ i x = ended w i x := by
  simp [ended]

/-- **What a worker alone can do.** -/
theorem canEnd_iff : CanEnd env i w.shared (w.phase i) x ↔
    ∃ tr, Alone i tr ∧ run (fetchStep env) w tr = some (ended w i x) := by
  constructor
  · intro hend
    induction hrank : (w.phase i).rank using Nat.strong_induction_on generalizing w with
    | _ n ih =>
        by_cases hp : ∃ result, w.phase i = .finished result
        · obtain ⟨result, hp⟩ := hp
          rw [hp] at hend
          obtain rfl : x = (w.shared, result) := hend
          refine ⟨[], by simp [Alone], ?_⟩
          rw [run_nil, ended, ← hp, Function.update_eq_self]
        · obtain ⟨a, sh₁, p₁, hact, hend'⟩ := hend.exists_step fun result h => hp ⟨result, h⟩
          have hstep : fetchStep env w (.act i a) =
              some ⟨sh₁, Function.update w.phase i p₁⟩ :=
            Workers.step_eq_some.mpr ⟨sh₁, p₁, hact, rfl⟩
          have hlt := FetchPhase.rank_lt (fetchActs_of_eq_some hact)
          have hself : (⟨sh₁, Function.update w.phase i p₁⟩ : Fetching T ι).phase i = p₁ :=
            Function.update_self i p₁ w.phase
          rw [← hself] at hend'
          obtain ⟨tr, halone, hrun⟩ := ih p₁.rank (hrank ▸ hlt) hend' (congrArg _ hself)
          refine ⟨.act i a :: tr, ?_, run_cons_eq_some.mpr ⟨_, hstep, ?_⟩⟩
          · intro l hl
            rcases List.mem_cons.mp hl with rfl | hl
            · exact ⟨a, rfl⟩
            · exact halone l hl
          · rw [hrun, ended_update]
  · rintro ⟨tr, halone, hrun⟩
    induction tr generalizing w with
    | nil =>
        have hw : w = ended w i x := Option.some.inj hrun
        rw [hw]
        simp [ended, CanEnd]
    | cons l tr ih =>
        obtain ⟨a, rfl⟩ := halone l List.mem_cons_self
        obtain ⟨w₁, hstep, hrest⟩ := run_cons_eq_some.mp hrun
        obtain ⟨sh₁, p₁, hact, rfl⟩ := fetchStep_act hstep
        rw [← ended_update sh₁ p₁] at hrest
        have hend := ih (fun l hl => halone l (List.mem_cons_of_mem _ hl)) hrest
        dsimp only at hend
        rw [Function.update_self] at hend
        exact hend.of_step hact

/-- **`fetch_remote_info` as one function.** A worker at its beginning that takes steps alone, at
one time, can end with exactly what `fetchRemoteInfo` computes for some answers of the host.
Source: `fetch_remote_info`, `fetch_n_parse`, `fetch_from_remote` -/
theorem fetch_alone_iff (hstart : w.phase i = .start) :
    (∃ tr, Alone i tr ∧ run (fetchStep env) w tr = some (ended w i x)) ↔
      ∃ remote, x = fetchRemoteInfo env i remote w.shared := by
  rw [← canEnd_iff, hstart]
  rfl

end alone

/-- A host that answers with the item. -/
def answering : Remote := ⟨fun _ => .ok (), fun _ => some (.ok 200), itemText.toUTF8.data.toList⟩

/-- The second worker, alone, can store the item. -/
theorem fetch_alone_iff_answering :
    ∃ tr, Alone true tr ∧ run (fetchStep twoWorkers) atStart tr =
      some (ended atStart true (⟨0, some (HackerNewsInfo.codec.encode item), none⟩, .ok ())) :=
  (fetch_alone_iff rfl).mpr ⟨answering, rfl⟩

end OffchainPallets.Ocw
