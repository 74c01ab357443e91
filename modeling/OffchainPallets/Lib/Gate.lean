import Mathlib.Algebra.Order.Group.Nat
import Mathlib.Algebra.Order.Monoid.Defs
import Mathlib.Data.List.Induction
import OffchainPallets.Lib.Runs

/-!
# An admission gate with a cool-down

A gate has a clock and the first time `next` at which it opens again. A request names a time of
its own, its *claim*. The gate admits it when the claim lies in the window `[next, clock]`, and
then stays closed until `clock + interval`: one admission per cool-down interval, whatever the
requests claim.

Over any ordered cancellative monoid of times with a positive `interval`:

* `admitted_spacing` — two admissions are at least `interval` apart, so there are not many
  (`length_admitted_le`, for natural numbers).
* `next_le_of_run` — the gate is open again `interval` after its last admission.
* `phase` — how the gate looks at a claim: too early (`future`), in the window (`valid`), over
  (`stale`). `visited_phase` — along a run a claim goes through these phases in this order,
  `stale_of_admitted` — it is over as soon as anything was admitted while it was in the window.
* `next_eq_of_valid_of_valid`, `next_lt_of_admitted` — `next` identifies a session: it is the same
  at two times when one claim is in the window at both, and never the same again after an
  admission.
-/

set_option linter.unusedSectionVars false

namespace Lib

/-- The state of a gate: the clock, and the first time it opens again. -/
structure Gate (N : Type*) where
  /-- The current time. -/
  clock : N
  /-- The gate admits no claim before this time. -/
  next : N

namespace Gate

/-- What happens at a gate: the clock moves on, a request with a claim is admitted at a time, or
nothing that concerns the gate. -/
inductive Label (N : Type*) where
  | advance (time : N)
  | enter (time claim : N)
  | other

/-- How a gate looks at a claim. -/
inductive Phase where
  | future
  | valid
  | stale
  deriving DecidableEq

/-- The position of a phase in the life of a claim. -/
def Phase.rank : Phase → ℕ
  | .future => 0
  | .valid => 1
  | .stale => 2

/-- The times of the admissions, in order. -/
def admitted {N : Type*} (tr : List (Label N)) : List N :=
  tr.filterMap fun
    | .enter m _ => some m
    | _ => none

section step

variable {N : Type*} [LinearOrder N]

/-- The phase of a claim: over, not yet due, or in the window. -/
def phase (g : Gate N) (claim : N) : Phase :=
  if claim < g.next then .stale else if g.clock < claim then .future else .valid

theorem phase_eq_stale {g : Gate N} {b : N} : g.phase b = .stale ↔ b < g.next := by
  unfold phase
  split_ifs <;> simp_all

theorem phase_eq_future {g : Gate N} {b : N} :
    g.phase b = .future ↔ g.next ≤ b ∧ g.clock < b := by
  unfold phase
  split_ifs <;> simp_all

theorem phase_eq_valid {g : Gate N} {b : N} :
    g.phase b = .valid ↔ g.next ≤ b ∧ b ≤ g.clock := by
  unfold phase
  split_ifs <;> simp_all

variable [Add N] (interval : N)

/-- One step of a gate. -/
def step (g : Gate N) : Label N → Option (Gate N)
  | .advance n => if g.clock < n then some { g with clock := n } else none
  | .enter m b =>
      if m = g.clock ∧ g.phase b = .valid then some { g with next := g.clock + interval } else none
  | .other => some g

variable {interval}

/-- The step relation, by label: everything a step can do. -/
theorem step_eq_some {g g' : Gate N} {l : Label N} :
    step interval g l = some g' ↔
      match l with
      | .advance n => g.clock < n ∧ g' = { g with clock := n }
      | .enter m b =>
          m = g.clock ∧ g.next ≤ b ∧ b ≤ g.clock ∧ g' = { g with next := g.clock + interval }
      | .other => g' = g := by
  cases l with
  | advance n => simp [step, eq_comm]
  | enter m b =>
      simp only [step, phase_eq_valid]
      split_ifs with h
      · simp [h.1, h.2.1, h.2.2, eq_comm]
      · constructor
        · intro h'; cases h'
        · rintro ⟨h₁, h₂, h₃, -⟩
          exact absurd ⟨h₁, h₂, h₃⟩ h
  | other => simp [step, eq_comm]

end step

section run

variable {N : Type*} [AddCommMonoid N] [LinearOrder N] [IsOrderedCancelAddMonoid N]
  {interval : N} {g g' : Gate N} {tr : List (Label N)}

/-! ## The clock and the opening time never go back -/

theorem step_clock_le {l : Label N} (h : step interval g l = some g') : g.clock ≤ g'.clock := by
  rw [step_eq_some] at h
  cases l with
  | advance n => obtain ⟨hlt, rfl⟩ := h; exact hlt.le
  | enter m b => obtain ⟨-, -, -, rfl⟩ := h; exact le_rfl
  | other => rw [h]

theorem clock_le_of_run (h : run (step interval) g tr = some g') : g.clock ≤ g'.clock :=
  run_mono (fun _ _ _ => step_clock_le) h

/-- An admission moves the opening time past every claim of its window. -/
theorem lt_next_of_enter (hpos : 0 < interval) {m b c : N}
    (h : step interval g (.enter m b) = some g') (hc : c ≤ g.clock) : c < g'.next := by
  obtain ⟨-, -, -, rfl⟩ := step_eq_some.mp h
  exact lt_add_of_le_of_pos hc hpos

theorem step_next_le (hpos : 0 < interval) {l : Label N} (h : step interval g l = some g') :
    g.next ≤ g'.next := by
  cases l with
  | advance n => obtain ⟨-, rfl⟩ := step_eq_some.mp h; exact le_rfl
  | enter m b =>
      obtain ⟨-, hnext, hb, -⟩ := step_eq_some.mp h
      exact (lt_next_of_enter hpos h (hnext.trans hb)).le
  | other => rw [step_eq_some.mp h]

theorem next_le_next_of_run (hpos : 0 < interval) (h : run (step interval) g tr = some g') :
    g.next ≤ g'.next :=
  run_mono (fun _ _ _ => step_next_le hpos) h

/-! ## Spacing of the admissions -/

/-- Every admission of a run comes when the gate is open: not before the opening time the run
starts with. -/
theorem next_le_of_mem_admitted (hpos : 0 < interval) (h : run (step interval) g tr = some g')
    {m : N} (hm : m ∈ admitted tr) : g.next ≤ m := by
  induction tr generalizing g with
  | nil => simp [admitted] at hm
  | cons l tr ih =>
      obtain ⟨g₁, h₁, hrest⟩ := run_cons_eq_some.mp h
      have hstep : g.next ≤ g₁.next := step_next_le hpos h₁
      cases l with
      | advance n => exact hstep.trans (ih hrest hm)
      | other => exact hstep.trans (ih hrest hm)
      | enter k b =>
          obtain ⟨rfl, hnext, hb, -⟩ := step_eq_some.mp h₁
          have hmem : m = g.clock ∨ m ∈ admitted tr := by simpa [admitted] using hm
          rcases hmem with rfl | hm
          · exact hnext.trans hb
          · exact hstep.trans (ih hrest hm)

/-- **Rate limit.** Two admissions of a run are at least `interval` apart. -/
theorem admitted_spacing (hpos : 0 < interval) (h : run (step interval) g tr = some g') :
    (admitted tr).Pairwise fun m m' => m + interval ≤ m' := by
  induction tr generalizing g with
  | nil => simp [admitted]
  | cons l tr ih =>
      obtain ⟨g₁, h₁, hrest⟩ := run_cons_eq_some.mp h
      cases l with
      | advance n => exact ih hrest
      | other => exact ih hrest
      | enter k b =>
          obtain ⟨rfl, -, -, rfl⟩ := step_eq_some.mp h₁
          have hcons : admitted (.enter g.clock b :: tr) = g.clock :: admitted tr := rfl
          rw [hcons, List.pairwise_cons]
          exact ⟨fun m hm => next_le_of_mem_admitted hpos hrest hm, ih hrest⟩

/-- Admissions come between the beginning and the end of the run. -/
theorem clock_le_of_mem_admitted (h : run (step interval) g tr = some g') {m : N}
    (hm : m ∈ admitted tr) : g.clock ≤ m ∧ m ≤ g'.clock := by
  obtain ⟨l, hl, hlm⟩ := List.mem_filterMap.mp hm
  obtain ⟨tr₁, tr₂, rfl⟩ := List.append_of_mem hl
  obtain ⟨g₁, h₁, hrest⟩ := run_append_eq_some.mp h
  obtain ⟨g₂, h₂, -⟩ := run_cons_eq_some.mp hrest
  cases l with
  | advance n => cases hlm
  | other => cases hlm
  | enter k b =>
      obtain ⟨rfl, -⟩ := step_eq_some.mp h₂
      obtain rfl := Option.some.inj hlm
      exact ⟨clock_le_of_run h₁, clock_le_of_run hrest⟩

/-- **No longer lock-out.** At the end of a run the gate is open `interval` after the last
admission; without an admission it opens when it did at first. -/
theorem next_eq_of_run (h : run (step interval) g tr = some g') :
    g'.next = ((admitted tr).getLast?.elim g.next fun m => m + interval) := by
  induction tr using List.reverseRecOn generalizing g' with
  | nil => cases h; rfl
  | append_singleton tr l ih =>
      obtain ⟨g₁, hrest, h₁⟩ := run_snoc_eq_some.mp h
      have hsnoc : admitted (tr ++ [l]) = admitted tr ++ admitted [l] := List.filterMap_append
      cases l with
      | advance n =>
          obtain ⟨-, rfl⟩ := step_eq_some.mp h₁
          simpa [hsnoc, admitted] using ih hrest
      | other =>
          obtain rfl := step_eq_some.mp h₁
          simpa [hsnoc, admitted] using ih hrest
      | enter k b =>
          obtain ⟨rfl, -, -, rfl⟩ := step_eq_some.mp h₁
          simp [admitted]

/-! ## The life of a claim -/

theorem step_phase_rank_le (hpos : 0 < interval) (b : N) {l : Label N}
    (h : step interval g l = some g') : (g.phase b).rank ≤ (g'.phase b).rank := by
  have hnext := step_next_le hpos h
  have hclock := step_clock_le h
  cases hph : g'.phase b with
  | stale => cases g.phase b <;> decide
  | valid =>
      rw [phase_eq_valid] at hph
      cases hph₀ : g.phase b with
      | stale => exact absurd ((phase_eq_stale.mp hph₀).trans_le hnext) hph.1.not_gt
      | valid => exact le_rfl
      | future => decide
  | future =>
      rw [phase_eq_future] at hph
      cases hph₀ : g.phase b with
      | stale => exact absurd ((phase_eq_stale.mp hph₀).trans_le hnext) hph.1.not_gt
      | valid => exact absurd (hclock.trans_lt hph.2) (phase_eq_valid.mp hph₀).2.not_gt
      | future => exact le_rfl

/-- A list of phases that never go back: first `future`, then `valid`, then `stale`. -/
theorem exists_replicate_of_sorted :
    (ps : List Phase) → ps.Pairwise (fun p q => p.rank ≤ q.rank) →
      ∃ i j k, ps = List.replicate i .future ++ List.replicate j .valid ++
        List.replicate k .stale
  | [], _ => ⟨0, 0, 0, rfl⟩
  | p :: ps, h => by
      obtain ⟨hp, hps⟩ := List.pairwise_cons.mp h
      obtain ⟨i, j, k, rfl⟩ := exists_replicate_of_sorted ps hps
      cases p with
      | future => exact ⟨i + 1, j, k, rfl⟩
      | valid =>
          -- nothing earlier than `valid` may follow
          have hi : i = 0 := by
            by_contra hi
            have := hp .future (by simp [hi])
            simp [Phase.rank] at this
          subst hi
          exact ⟨0, j + 1, k, rfl⟩
      | stale =>
          have hi : i = 0 := by
            by_contra hi
            have := hp .future (by simp [hi])
            simp [Phase.rank] at this
          have hj : j = 0 := by
            by_contra hj
            have := hp .valid (by simp [hj])
            simp [Phase.rank] at this
          subst hi hj
          exact ⟨0, 0, k + 1, rfl⟩

/-- **Life cycle.** Along the states of a run a claim is first too early, then in the window,
then over. -/
theorem visited_phase (hpos : 0 < interval) (h : run (step interval) g tr = some g') (b : N) :
    ∃ i j k, (visited (step interval) g tr).map (fun s => s.phase b) =
      List.replicate i .future ++ List.replicate j .valid ++ List.replicate k .stale := by
  apply exists_replicate_of_sorted
  rw [List.pairwise_map]
  exact visited_pairwise (f := fun s : Gate N => (s.phase b).rank)
    (fun _ _ _ => step_phase_rank_le hpos b) h

/-- A claim that is over stays over. -/
theorem stale_of_run (hpos : 0 < interval) (h : run (step interval) g tr = some g') {b : N}
    (hb : g.phase b = .stale) : g'.phase b = .stale := by
  rw [phase_eq_stale] at hb ⊢
  exact hb.trans_le (next_le_next_of_run hpos h)

/-- After an admission in a run the gate opens later than the clock the run starts with. -/
theorem clock_lt_next_of_admitted (hpos : 0 < interval)
    (h : run (step interval) g tr = some g') (hadm : admitted tr ≠ []) : g.clock < g'.next := by
  obtain ⟨m, hm⟩ := List.exists_mem_of_ne_nil _ hadm
  obtain ⟨l, hl, hlm⟩ := List.mem_filterMap.mp hm
  obtain ⟨tr₁, tr₂, rfl⟩ := List.append_of_mem hl
  obtain ⟨g₁, h₁, hrest⟩ := run_append_eq_some.mp h
  obtain ⟨g₂, h₂, h₃⟩ := run_cons_eq_some.mp hrest
  cases l with
  | advance n => cases hlm
  | other => cases hlm
  | enter k b =>
      have hlt : g.clock < g₂.next := lt_next_of_enter hpos h₂ (clock_le_of_run h₁)
      exact hlt.trans_le (next_le_next_of_run hpos h₃)

/-- A claim that is in the window is over once anything was admitted. -/
theorem stale_of_admitted (hpos : 0 < interval) (h : run (step interval) g tr = some g')
    (hadm : admitted tr ≠ []) {b : N} (hb : g.phase b = .valid) : g'.phase b = .stale := by
  rw [phase_eq_stale]
  exact (phase_eq_valid.mp hb).2.trans_lt (clock_lt_next_of_admitted hpos h hadm)

/-! ## Sessions -/

/-- Without an admission the opening time stays. -/
theorem next_eq_of_not_admitted (h : run (step interval) g tr = some g')
    (hadm : admitted tr = []) : g'.next = g.next := by
  rw [next_eq_of_run h, hadm]
  rfl

/-- Two times at which one claim is in the window belong to one session. -/
theorem next_eq_of_valid_of_valid (hpos : 0 < interval)
    (h : run (step interval) g tr = some g') {b : N} (hb : g.phase b = .valid)
    (hb' : g'.phase b = .valid) : g'.next = g.next := by
  apply next_eq_of_not_admitted h
  by_contra hadm
  simp [stale_of_admitted hpos h hadm hb] at hb'

/-- An admission ends the session: the opening time is a later one from then on. -/
theorem next_lt_of_admitted (hpos : 0 < interval) (h : run (step interval) g tr = some g')
    (hadm : admitted tr ≠ []) {b : N} (hb : g.phase b = .valid) : g.next < g'.next := by
  rw [phase_eq_valid] at hb
  exact (hb.1.trans hb.2).trans_lt (clock_lt_next_of_admitted hpos h hadm)

end run

/-! ## How many admissions there are -/

/-- Times that are spaced out in an interval. -/
theorem length_le_of_spaced {interval a b : ℕ} (hpos : 0 < interval) {l : List ℕ}
    (hspaced : l.Pairwise fun m m' => m + interval ≤ m') (hmem : ∀ m ∈ l, a ≤ m ∧ m ≤ b) :
    l.length ≤ (b - a) / interval + 1 := by
  induction l generalizing a with
  | nil => exact Nat.zero_le _
  | cons m l ih =>
      obtain ⟨hlater, hspaced⟩ := List.pairwise_cons.mp hspaced
      obtain ⟨ham, hmb⟩ := hmem m List.mem_cons_self
      rcases l with _ | ⟨m', l⟩
      · exact Nat.le_add_left 1 _
      · have hm' := hlater m' List.mem_cons_self
        have hb' := (hmem m' (List.mem_cons_of_mem _ List.mem_cons_self)).2
        have htail := ih hspaced fun n hn =>
          ⟨hlater n hn, (hmem n (List.mem_cons_of_mem _ hn)).2⟩
        have hquot : (b - (m + interval)) / interval + 1 ≤ (b - a) / interval := by
          rw [← Nat.add_div_right _ hpos]
          apply Nat.div_le_div_right
          omega
        rw [List.length_cons]
        omega

/-- **How many admissions a run has**, by the time it takes. -/
theorem length_admitted_le {interval : ℕ} {g g' : Gate ℕ} {tr : List (Label ℕ)}
    (hpos : 0 < interval) (h : run (step interval) g tr = some g') :
    (admitted tr).length ≤ (g'.clock - g.clock) / interval + 1 :=
  length_le_of_spaced hpos (admitted_spacing hpos h) fun _ hm => clock_le_of_mem_admitted h hm

end Gate

end Lib
