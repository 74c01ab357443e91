import Mathlib.Logic.Function.Basic
import OffchainPallets.Lib.Runs

/-!
# Workers over a shared state, and updates by compare-and-set

`Workers ι S L` are workers `i : ι`, each in a local phase of type `L`, over one shared state of
type `S`. One step is one action of one worker (`Workers.step`): it reads and writes the shared
state and its own phase, and nothing else.

`Cas` is the pattern by which such workers update one shared cell without a lock: a worker loads
the cell, computes from what it loaded either a value to write or a reason not to, and writes it
only if the cell still holds what it loaded. `Cas.run_winners`: however the workers interleave,
the cell changes as if the updates of the workers that succeeded had been applied one after the
other, in the order in which they succeeded, each to the cell as the one before left it.
`Cas.finish_ok_iff`: a worker succeeds exactly when nobody else does between its two actions.

`byClass` puts workers in an order by classes that keeps the order in which they come as far as
possible (`pair_sublist_byClass`).
-/

namespace Lib

/-- Workers in their local phases over a shared state. -/
structure Workers (ι S L : Type*) where
  /-- What all workers read and write. -/
  shared : S
  /-- Where each worker stands. -/
  phase : ι → L

namespace Workers

variable {ι S L A : Type*} [DecidableEq ι]

/-- One action of one worker. -/
def step (act : ι → S → L → A → Option (S × L)) (w : Workers ι S L) (x : ι × A) :
    Option (Workers ι S L) :=
  (act x.1 w.shared (w.phase x.1) x.2).map fun r => ⟨r.1, Function.update w.phase x.1 r.2⟩

variable {act : ι → S → L → A → Option (S × L)} {w w' : Workers ι S L} {i : ι} {a : A}

/-- What a step does: the worker's action, on the shared state and on its own phase. -/
theorem step_eq_some :
    step act w (i, a) = some w' ↔
      ∃ s l, act i w.shared (w.phase i) a = some (s, l) ∧
        w' = ⟨s, Function.update w.phase i l⟩ := by
  simp only [step, Option.map_eq_some_iff, Prod.exists]
  constructor
  · rintro ⟨s, l, h, rfl⟩
    exact ⟨s, l, h, rfl⟩
  · rintro ⟨s, l, h, rfl⟩
    exact ⟨s, l, h, rfl⟩

/-- Where a worker stands after one of them has moved. -/
theorem phase_update (w : Workers ι S L) (s : S) (i j : ι) (l : L) :
    (⟨s, Function.update w.phase i l⟩ : Workers ι S L).phase j =
      if j = i then l else w.phase j :=
  Function.update_apply w.phase i l j

/-- The other workers stay where they are. -/
theorem phase_of_ne (h : step act w (i, a) = some w') {j : ι} (hj : j ≠ i) :
    w'.phase j = w.phase j := by
  obtain ⟨s, l, -, rfl⟩ := step_eq_some.mp h
  exact Function.update_of_ne hj l w.phase

/-- A worker in a phase without actions stays there. -/
theorem phase_eq_of_run {l : L} (hl : ∀ s a, act i s l a = none) {tr : List (ι × A)}
    (hi : w.phase i = l) (h : run (step act) w tr = some w') : w'.phase i = l := by
  refine run_induction (P := fun v => v.phase i = l) ?_ hi h
  rintro v ⟨j, a⟩ v' hv hstep
  by_cases hj : i = j
  · subst hj
    obtain ⟨s, l', hact, -⟩ := step_eq_some.mp hstep
    simp [hv, hl] at hact
  · rw [phase_of_ne hstep hj, hv]

end Workers

/-! ## Compare-and-set -/

namespace Cas

/-- Why an update was not written: the worker found no value to write, or the cell had changed
since the worker loaded it. -/
inductive Failure (E R : Type*) where
  | declined (reason : E)
  | conflict (value : R)
  deriving DecidableEq

/-- Where a worker stands: before its load, with the cell as it loaded it, or done. -/
inductive Phase (V E R : Type*) where
  | start
  | loaded (old : V)
  | finished (result : Except (Failure E R) R)

/-- The two atomic actions of a worker; the second is labelled with its result. -/
inductive Act (E R : Type*) where
  | load
  | finish (result : Except (Failure E R) R)

section

variable {ι V E R : Type*} [DecidableEq V]

/-- The second action: compute from the loaded cell, then compare and set. Gives the cell and the
worker's result. -/
def conclude (write : R → V) (f : V → Except E R) (old cell : V) : V × Except (Failure E R) R :=
  match f old with
  | .error e => (cell, .error (.declined e))
  | .ok r => if cell = old then (write r, .ok r) else (cell, .error (.conflict r))

/-- A result is reported only when the value is written, and then it was computed from the cell as
it is at that moment. -/
theorem conclude_ok {write : R → V} {f : V → Except E R} {old cell cell' : V} {r : R}
    (h : conclude write f old cell = (cell', .ok r)) : f cell = .ok r ∧ cell' = write r := by
  unfold conclude at h
  split at h
  · cases h
  · rename_i r' hf
    split_ifs at h with hcell
    · cases h
      exact ⟨hcell ▸ hf, rfl⟩
    · cases h

/-- Any other result leaves the cell. -/
theorem conclude_error {write : R → V} {f : V → Except E R} {old cell cell' : V}
    {e : Failure E R} (h : conclude write f old cell = (cell', .error e)) : cell' = cell := by
  unfold conclude at h
  split at h
  · exact (congrArg Prod.fst h).symm
  · split_ifs at h with hcell
    · cases h
    · exact (congrArg Prod.fst h).symm

variable [DecidableEq E] [DecidableEq R]

/-- The actions of a worker with the update `f i`. -/
def act (write : R → V) (f : ι → V → Except E R) (i : ι) (cell : V) :
    Phase V E R → Act E R → Option (V × Phase V E R)
  | .start, .load => some (cell, .loaded cell)
  | .loaded old, .finish result =>
      if (conclude write (f i) old cell).2 = result then
        some ((conclude write (f i) old cell).1, .finished result)
      else none
  | _, _ => none

variable {write : R → V} {f : ι → V → Except E R} {i : ι} {cell cell' : V}

/-- Everything an action can do. -/
theorem act_eq_some {p p' : Phase V E R} {a : Act E R} :
    act write f i cell p a = some (cell', p') ↔
      (p = .start ∧ a = .load ∧ cell' = cell ∧ p' = .loaded cell) ∨
      ∃ old result, p = .loaded old ∧ a = .finish result ∧ p' = .finished result ∧
        conclude write (f i) old cell = (cell', result) := by
  cases p <;> cases a <;> simp [act, Prod.ext_iff]
  · exact ⟨fun ⟨h₁, h₂⟩ => ⟨h₁.symm, h₂.symm⟩, fun ⟨h₁, h₂⟩ => ⟨h₁.symm, h₂.symm⟩⟩
  · constructor
    · rintro ⟨h, rfl, rfl⟩
      exact ⟨rfl, rfl, h⟩
    · rintro ⟨rfl, rfl, h⟩
      exact ⟨h, rfl, rfl⟩

/-- A worker that is done does nothing more. -/
theorem act_finished (result : Except (Failure E R) R) (a : Act E R) :
    act write f i cell (.finished result) a = none := by
  cases a <;> rfl

variable [DecidableEq ι] {w w' : Workers ι V (Phase V E R)}

/-- **A worker that is not interfered with** concludes on the cell as it has loaded it. -/
theorem run_alone (hstart : w.phase i = .start) :
    run (Workers.step (act write f)) w
        [(i, .load), (i, .finish (conclude write (f i) w.shared w.shared).2)] =
      some ⟨(conclude write (f i) w.shared w.shared).1,
        Function.update w.phase i (.finished (conclude write (f i) w.shared w.shared).2)⟩ := by
  have hload : Workers.step (act write f) w (i, .load) =
      some ⟨w.shared, Function.update w.phase i (.loaded w.shared)⟩ := by
    apply Workers.step_eq_some.mpr
    exact ⟨_, _, act_eq_some.mpr (Or.inl ⟨hstart, rfl, rfl, rfl⟩), rfl⟩
  have hfinish : Workers.step (act write f)
      ⟨w.shared, Function.update w.phase i (.loaded w.shared)⟩
      (i, .finish (conclude write (f i) w.shared w.shared).2) =
      some ⟨(conclude write (f i) w.shared w.shared).1,
        Function.update w.phase i (.finished (conclude write (f i) w.shared w.shared).2)⟩ := by
    apply Workers.step_eq_some.mpr
    refine ⟨(conclude write (f i) w.shared w.shared).1,
      .finished (conclude write (f i) w.shared w.shared).2, act_eq_some.mpr (Or.inr ?_), ?_⟩
    · exact ⟨w.shared, _, Function.update_self i _ w.phase, rfl, rfl, rfl⟩
    · rw [Function.update_idem]
  simp only [run_cons, hload, hfinish, Option.bind_some, run_nil]

/-- The workers whose value was written, in the order in which it was. -/
def winners (tr : List (ι × Act E R)) : List ι :=
  tr.filterMap fun
    | (i, .finish (.ok _)) => some i
    | _ => none

/-- The sequential update of the cell by one worker. -/
def apply (write : R → V) (f : ι → V → Except E R) (v : V) (i : ι) : Option V :=
  match f i v with
  | .ok r => some (write r)
  | .error _ => none

/-- One step, seen from the cell: the winner's update, or nothing. -/
theorem shared_of_step {x : ι × Act E R} (h : Workers.step (act write f) w x = some w') :
    run (apply write f) w.shared (winners [x]) = some w'.shared := by
  obtain ⟨i, a⟩ := x
  obtain ⟨cell', p, hact, rfl⟩ := Workers.step_eq_some.mp h
  rcases act_eq_some.mp hact with ⟨-, rfl, rfl, -⟩ | ⟨old, result, -, rfl, -, hcon⟩
  · rfl
  · cases result with
    | ok r =>
        obtain ⟨hf, rfl⟩ := conclude_ok hcon
        simp [winners, run_cons, apply, hf]
    | error e =>
        obtain rfl := conclude_error hcon
        rfl

/-- **Compare-and-set is sequential.** The cell changes as if the winners had been applied one
after the other. -/
theorem run_winners {tr : List (ι × Act E R)}
    (h : run (Workers.step (act write f)) w tr = some w') :
    run (apply write f) w.shared (winners tr) = some w'.shared := by
  induction tr generalizing w with
  | nil => cases h; rfl
  | cons x tr ih =>
      obtain ⟨w₁, h₁, hrest⟩ := run_cons_eq_some.mp h
      have hsplit : winners (x :: tr) = winners [x] ++ winners tr :=
        List.filterMap_append (l := [x])
      rw [hsplit, run_append_eq_some]
      exact ⟨w₁.shared, shared_of_step h₁, ih hrest⟩

/-- **The others leave no trace.** A worker that ends without success has not changed the cell in
any of its steps. -/
theorem shared_eq_of_failed {tr : List (ι × Act E R)} {a : Act E R} {e : Failure E R}
    {w₁ w₂ : Workers ι V (Phase V E R)} (h₁ : Workers.step (act write f) w₁ (i, a) = some w₂)
    (h₂ : run (Workers.step (act write f)) w₂ tr = some w')
    (hend : w'.phase i = .finished (.error e)) : w₂.shared = w₁.shared := by
  obtain ⟨cell', p, hact, rfl⟩ := Workers.step_eq_some.mp h₁
  rcases act_eq_some.mp hact with ⟨-, -, rfl, -⟩ | ⟨old, result, -, -, rfl, hcon⟩
  · rfl
  · have hphase := Workers.phase_eq_of_run (l := .finished result) (fun _ _ => act_finished _ _)
      (Function.update_self i _ w₁.phase) h₂
    rw [hend, Phase.finished.injEq] at hphase
    subst hphase
    exact conclude_error hcon

/-! ### Why a worker succeeds -/

omit [DecidableEq E] [DecidableEq R] [DecidableEq ι] in
theorem winners_append (tr₁ tr₂ : List (ι × Act E R)) :
    winners (tr₁ ++ tr₂) = winners tr₁ ++ winners tr₂ :=
  List.filterMap_append

/-- A worker that has loaded the cell did so in one of the steps. -/
theorem exists_load {tr : List (ι × Act E R)} {old : V} (hstart : w.phase i = .start)
    (h : run (Workers.step (act write f)) w tr = some w') (hold : w'.phase i = .loaded old) :
    ∃ tr₁ tr₂ w₁, tr = tr₁ ++ (i, .load) :: tr₂ ∧
      run (Workers.step (act write f)) w tr₁ = some w₁ ∧ w₁.shared = old := by
  induction tr using List.reverseRecOn generalizing w' with
  | nil =>
      cases h
      rw [hstart] at hold
      cases hold
  | append_singleton tr x ih =>
      obtain ⟨v, hv, hstep⟩ := run_snoc_eq_some.mp h
      obtain ⟨j, a⟩ := x
      by_cases hj : i = j
      · -- a step of this worker: its load
        subst hj
        obtain ⟨cell', p, hact, rfl⟩ := Workers.step_eq_some.mp hstep
        have hp : p = .loaded old := by
          rw [← hold]
          exact (Function.update_self i p v.phase).symm
        subst hp
        rcases act_eq_some.mp hact with ⟨-, rfl, -, hload⟩ | ⟨-, result, -, -, hfinished, -⟩
        · exact ⟨tr, [], v, rfl, hv, (Phase.loaded.inj hload).symm⟩
        · cases hfinished
      · have hbefore : v.phase i = .loaded old := (Workers.phase_of_ne hstep hj).symm.trans hold
        obtain ⟨tr₁, tr₂, w₁, rfl, h₁, hshared⟩ := ih hv hbefore
        exact ⟨tr₁, tr₂ ++ [(j, a)], w₁, by simp, h₁, hshared⟩

/-- **A worker succeeds exactly when it is not disturbed**: its update finds a value to write in
what it has loaded, and nobody succeeds between its load and its second action. This needs that no
sequence of updates comes back to a value of the cell that it has left. -/
theorem finish_ok_iff {tr : List (ι × Act E R)} {result : Except (Failure E R) R}
    (hnew : ∀ js v, run (apply write f) w.shared js = some v →
      ∀ is, is ≠ [] → run (apply write f) v is ≠ some v)
    (hstart : w.phase i = .start)
    (h : run (Workers.step (act write f)) w (tr ++ [(i, .finish result)]) = some w') :
    ∃ tr₁ tr₂ w₁, tr = tr₁ ++ (i, .load) :: tr₂ ∧
      run (Workers.step (act write f)) w tr₁ = some w₁ ∧
      ((∃ r, result = .ok r) ↔ (∃ r, f i w₁.shared = .ok r) ∧ winners tr₂ = []) := by
  obtain ⟨w₂, h₂, hstep⟩ := run_snoc_eq_some.mp h
  obtain ⟨cell', p, hact, rfl⟩ := Workers.step_eq_some.mp hstep
  rcases act_eq_some.mp hact with ⟨-, hload, -⟩ | ⟨old, result', hphase, hfinish, -, hconclude⟩
  · cases hload
  cases hfinish
  obtain ⟨tr₁, tr₂, w₁, rfl, h₁, rfl⟩ := exists_load hstart h₂ hphase
  refine ⟨tr₁, tr₂, w₁, rfl, h₁, ?_⟩
  -- from the load to the second action, the cell changes by the winners between
  have hbetween : run (apply write f) w₁.shared (winners ((i, .load) :: tr₂)) =
      some w₂.shared := run_winners (run_of_append h₁ h₂)
  change run (apply write f) w₁.shared (winners tr₂) = some w₂.shared at hbetween
  have hsame : w₂.shared = w₁.shared ↔ winners tr₂ = [] := by
    constructor
    · intro heq
      by_contra hwon
      rw [heq] at hbetween
      exact hnew _ _ (run_winners h₁) _ hwon hbetween
    · intro hnone
      rw [hnone, run_nil] at hbetween
      exact (Option.some.inj hbetween).symm
  rw [← hsame]
  unfold conclude at hconclude
  split at hconclude
  · rename_i e he
    cases hconclude
    simp [he]
  · rename_i r hr
    split_ifs at hconclude with hcell
    · cases hconclude
      simp [hr, hcell]
    · cases hconclude
      simp [hcell]

/-- The workers that have won are those that are done with success. -/
theorem mem_winners_iff {tr : List (ι × Act E R)} (hstart : ∀ i, w.phase i = .start)
    (h : run (Workers.step (act write f)) w tr = some w') (i : ι) :
    i ∈ winners tr ↔ ∃ r, w'.phase i = .finished (.ok r) := by
  refine run_history (P := fun tr v => i ∈ winners tr ↔ ∃ r, v.phase i = .finished (.ok r))
    (by simp [winners, hstart]) ?_ h
  rintro tr v ⟨j, a⟩ v' ih hstep
  rw [winners_append, List.mem_append, ih]
  obtain ⟨cell', p, hact, rfl⟩ := Workers.step_eq_some.mp hstep
  by_cases hj : i = j
  · subst hj
    simp only [Function.update_self]
    rcases act_eq_some.mp hact with ⟨hp, rfl, -, rfl⟩ | ⟨old, result, hp, rfl, rfl, -⟩
    · simp [hp, winners]
    · cases result <;> simp [hp, winners]
  · have hnot : i ∉ winners [(j, a)] := by
      rcases act_eq_some.mp hact with ⟨-, rfl, -⟩ | ⟨-, result, -, rfl, -⟩
      · simp [winners]
      · cases result <;> simp [winners, hj]
    simp [Function.update_of_ne hj, hnot]

/-- **The first to conclude succeeds**: if every update finds a value to write in the first cell,
nothing changes and nobody is done as long as nobody has won. -/
theorem unchanged_of_winners_eq_nil {tr : List (ι × Act E R)} (hstart : ∀ i, w.phase i = .start)
    (hvalue : ∀ i, ∃ r, f i w.shared = .ok r)
    (h : run (Workers.step (act write f)) w tr = some w') (hnone : winners tr = []) :
    w'.shared = w.shared ∧ ∀ i, w'.phase i = .start ∨ w'.phase i = .loaded w.shared := by
  suffices hinv : winners tr = [] → w'.shared = w.shared ∧
      ∀ i, w'.phase i = .start ∨ w'.phase i = .loaded w.shared from hinv hnone
  refine run_history (P := fun tr v => winners tr = [] → v.shared = w.shared ∧
    ∀ i, v.phase i = .start ∨ v.phase i = .loaded w.shared)
    (fun _ => ⟨rfl, fun i => Or.inl (hstart i)⟩) ?_ h
  rintro tr v ⟨j, a⟩ v' ih hstep hnil
  rw [winners_append, List.append_eq_nil_iff] at hnil
  obtain ⟨hshared, hphases⟩ := ih hnil.1
  obtain ⟨cell', p, hact, rfl⟩ := Workers.step_eq_some.mp hstep
  rcases act_eq_some.mp hact with ⟨-, -, rfl, rfl⟩ | ⟨old, result, hp, rfl, -, hconclude⟩
  · refine ⟨hshared, fun k => ?_⟩
    by_cases hk : k = j
    · subst hk
      right
      simp [hshared]
    · simpa [Function.update_of_ne hk] using hphases k
  · -- the second action would succeed
    exfalso
    obtain rfl : old = w.shared := by
      rcases hphases j with hp' | hp'
      · rw [hp'] at hp
        cases hp
      · rw [hp'] at hp
        exact (Phase.loaded.inj hp).symm
    obtain ⟨r, hr⟩ := hvalue j
    have hok : result = .ok r := by
      rw [conclude, hr, hshared] at hconclude
      simpa using (congrArg Prod.snd hconclude).symm
    subst hok
    simp [winners] at hnil

end

end Cas

/-! ## An order by classes -/

section byClass

variable {ι : Type*} {all : List ι} {First Last : ι → Prop} [DecidablePred First]
  [DecidablePred Last] {middle : Option ι}

/-- First those of the one class, then at most one, then those of the other class; within a class as
they come. -/
def byClass (all : List ι) (First Last : ι → Prop) [DecidablePred First] [DecidablePred Last]
    (middle : Option ι) : List ι :=
  all.filter First ++ (middle.toList ++ all.filter Last)

theorem mem_byClass {i : ι} : i ∈ byClass all First Last middle ↔
    (i ∈ all ∧ First i) ∨ middle = some i ∨ (i ∈ all ∧ Last i) := by
  simp [byClass]

theorem nodup_byClass (hall : all.Nodup) (hfirst : ∀ i, First i → ¬ Last i)
    (hmiddle : ∀ i, middle = some i → ¬ First i ∧ ¬ Last i) :
    (byClass all First Last middle).Nodup := by
  have hright : (middle.toList ++ all.filter Last).Nodup := by
    cases middle with
    | none => exact hall.filter _
    | some i =>
        apply List.nodup_cons.mpr ⟨?_, hall.filter _⟩
        simp [(hmiddle i rfl).2]
  refine List.nodup_append.mpr ⟨hall.filter _, hright, ?_⟩
  rintro i hi k hk rfl
  have hclass : First i := by simpa using (List.mem_filter.mp hi).2
  rcases List.mem_append.mp hk with hmid | hlast
  · exact (hmiddle i (by simpa using hmid)).1 hclass
  · exact hfirst i hclass (by simpa using (List.mem_filter.mp hlast).2)

/-- Two that come in this order do so in the order by classes, unless their classes are the other
way round. -/
theorem pair_sublist_byClass {i j : ι} (h : [i, j].Sublist all)
    (hclass : (First i ∧ (First j ∨ middle = some j ∨ Last j)) ∨ (middle = some i ∧ Last j) ∨
      (Last i ∧ Last j)) : [i, j].Sublist (byClass all First Last middle) := by
  have hi : i ∈ all := h.subset List.mem_cons_self
  have hj : j ∈ all := h.subset (List.mem_cons_of_mem _ List.mem_cons_self)
  rcases hclass with ⟨hfirst, hrest⟩ | ⟨rfl, hlast⟩ | ⟨hlast, hlast'⟩
  · by_cases hsame : First j
    · have hpair := h.filter First
      simp only [List.filter_cons, hfirst, hsame, decide_true, if_true, List.filter_nil] at hpair
      exact List.sublist_append_of_sublist_left hpair
    · have hleft : i ∈ all.filter First := by simpa using ⟨hi, hfirst⟩
      have hright : j ∈ middle.toList ++ all.filter Last := by
        rw [List.mem_append]
        rcases hrest.resolve_left hsame with rfl | hlast
        · exact Or.inl List.mem_cons_self
        · exact Or.inr (by simpa using ⟨hj, hlast⟩)
      exact (List.singleton_sublist.mpr hleft).append (List.singleton_sublist.mpr hright)
  · have hright : j ∈ all.filter Last := by simpa using ⟨hj, hlast⟩
    apply List.sublist_append_of_sublist_right
    exact (List.Sublist.refl [i]).append (List.singleton_sublist.mpr hright)
  · have hpair := h.filter Last
    simp only [List.filter_cons, hlast, hlast', decide_true, if_true, List.filter_nil] at hpair
    apply List.sublist_append_of_sublist_right
    exact List.sublist_append_of_sublist_right hpair

end byClass

end Lib
