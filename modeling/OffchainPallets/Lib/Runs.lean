import Mathlib.Data.List.Basic
import Mathlib.Data.List.Induction
import Mathlib.Order.Basic
import Mathlib.Tactic.Common

/-!
# Runs of a partial step function

A labelled transition system is given by one function `step : σ → α → Option σ`: in state `s`
the label `a` is enabled when `step s a` is `some t`, and then `t` is the next state. What the
system does and what an observer sees of it both stand in the label.

* `run step s tr` — the state after the labels `tr`, in order; `none` when one is not enabled.
* `visited step s tr` — the states of the run, the first and the last included.
* `stepsOf step s tr` — the steps of the run, each as the state before it and its label.

The rules: `run_append_eq_some` and `run_snoc_eq_some` cut a run, `run_induction` and
`run_induction_of_steps` carry an invariant along it (the second when every step of the run meets a
condition), `run_history` carries what relates the state to the labels so far, and `run_sim`
transports a run along an abstraction of the states and labels (`visited_sim` for the states on the
way).
-/

namespace Lib

variable {σ α τ β : Type*}

/-- The state after the labels `tr`, `none` when one of them is not enabled. -/
def run (step : σ → α → Option σ) : σ → List α → Option σ
  | s, [] => some s
  | s, a :: tr => (step s a).bind fun t => run step t tr

/-- The states of a run from `s`, in order, the first one included. -/
def visited (step : σ → α → Option σ) : σ → List α → List σ
  | s, [] => [s]
  | s, a :: tr => s :: (step s a).elim [] fun t => visited step t tr

/-- The steps of a run from `s`: for every label the state it was taken in. -/
def stepsOf (step : σ → α → Option σ) : σ → List α → List (σ × α)
  | _, [] => []
  | s, a :: tr => (s, a) :: (step s a).elim [] fun t => stepsOf step t tr

variable {step : σ → α → Option σ}

@[simp] theorem run_nil (s : σ) : run step s [] = some s := rfl

theorem run_cons (s : σ) (a : α) (tr : List α) :
    run step s (a :: tr) = (step s a).bind fun t => run step t tr := rfl

/-- A run that starts with `a`: the step `a`, then the rest. -/
theorem run_cons_eq_some {s u : σ} {a : α} {tr : List α} :
    run step s (a :: tr) = some u ↔ ∃ t, step s a = some t ∧ run step t tr = some u := by
  rw [run_cons, Option.bind_eq_some_iff]

/-- A run is cut at any point. -/
theorem run_append (s : σ) (tr₁ tr₂ : List α) :
    run step s (tr₁ ++ tr₂) = (run step s tr₁).bind fun t => run step t tr₂ := by
  induction tr₁ generalizing s with
  | nil => rfl
  | cons a tr₁ ih =>
      rw [List.cons_append, run_cons, run_cons]
      cases step s a with
      | none => rfl
      | some t => exact ih t

theorem run_append_eq_some {s u : σ} {tr₁ tr₂ : List α} :
    run step s (tr₁ ++ tr₂) = some u ↔
      ∃ t, run step s tr₁ = some t ∧ run step t tr₂ = some u := by
  rw [run_append, Option.bind_eq_some_iff]

/-- What is left of a run after its first part. -/
theorem run_of_append {s t u : σ} {tr₁ tr₂ : List α} (h₁ : run step s tr₁ = some t)
    (h : run step s (tr₁ ++ tr₂) = some u) : run step t tr₂ = some u := by
  rwa [run_append, h₁, Option.bind_some] at h

/-- A run with one more step at its end. -/
theorem run_snoc_eq_some {s u : σ} {tr : List α} {a : α} :
    run step s (tr ++ [a]) = some u ↔ ∃ t, run step s tr = some t ∧ step t a = some u := by
  simp only [run_append_eq_some, run_cons_eq_some, run_nil, Option.some.injEq, exists_eq_right]

/-! ## Invariants along a run -/

/-- What holds at first and is kept by every enabled step holds at the end of the run. -/
theorem run_induction {P : σ → Prop} (hstep : ∀ s a t, P s → step s a = some t → P t)
    {s u : σ} {tr : List α} (hs : P s) (hrun : run step s tr = some u) : P u := by
  induction tr generalizing s with
  | nil => cases hrun; exact hs
  | cons a tr ih =>
      obtain ⟨t, ht, hrest⟩ := run_cons_eq_some.mp hrun
      exact ih (hstep s a t hs ht) hrest

/-- A run of labels that change nothing. -/
theorem run_of_fixed {s : σ} {tr : List α} (h : ∀ a ∈ tr, step s a = some s) :
    run step s tr = some s := by
  induction tr with
  | nil => rfl
  | cons a tr ih =>
      obtain ⟨ha, htr⟩ := List.forall_mem_cons.mp h
      exact run_cons_eq_some.mpr ⟨s, ha, ih htr⟩

theorem stepsOf_cons_of_some {s t : σ} {a : α} (tr : List α) (h : step s a = some t) :
    stepsOf step s (a :: tr) = (s, a) :: stepsOf step t tr := by
  simp [stepsOf, h]

theorem snd_mem_of_mem_stepsOf {s : σ} {tr : List α} {p : σ × α} (h : p ∈ stepsOf step s tr) :
    p.2 ∈ tr := by
  induction tr generalizing s with
  | nil => cases h
  | cons a tr ih =>
      rcases List.mem_cons.mp h with rfl | h
      · exact List.mem_cons_self
      · rcases hstep : step s a with _ | t
        · simp [hstep] at h
        · rw [hstep, Option.elim_some] at h
          exact List.mem_cons_of_mem _ (ih h)

/-- The steps of a run that is cut. -/
theorem stepsOf_append {s t : σ} {tr₁ : List α} (tr₂ : List α) (h : run step s tr₁ = some t) :
    stepsOf step s (tr₁ ++ tr₂) = stepsOf step s tr₁ ++ stepsOf step t tr₂ := by
  induction tr₁ generalizing s with
  | nil => cases h; rfl
  | cons a tr₁ ih =>
      obtain ⟨v, hv, hrest⟩ := run_cons_eq_some.mp h
      rw [List.cons_append, stepsOf_cons_of_some _ hv, stepsOf_cons_of_some _ hv, ih hrest,
        List.cons_append]

/-- As `run_induction`, where a step may rely on a condition `C` of the state it is taken in and
its label. -/
theorem run_induction_of_steps {P : σ → Prop} {C : σ → α → Prop}
    (hstep : ∀ s a t, P s → C s a → step s a = some t → P t)
    {s u : σ} {tr : List α} (hC : ∀ x ∈ stepsOf step s tr, C x.1 x.2) (hs : P s)
    (hrun : run step s tr = some u) : P u := by
  induction tr generalizing s with
  | nil => cases hrun; exact hs
  | cons a tr ih =>
      obtain ⟨t, ht, hrest⟩ := run_cons_eq_some.mp hrun
      rw [stepsOf_cons_of_some tr ht] at hC
      exact ih (fun x hx => hC x (List.mem_cons_of_mem _ hx))
        (hstep s a t hs (hC (s, a) List.mem_cons_self) ht) hrest

/-- A run that meets a condition at every step, cut: so does its first part. -/
theorem steps_of_append_left {C : σ → α → Prop} {s t : σ} {tr₁ tr₂ : List α}
    (h : run step s tr₁ = some t) (hC : ∀ x ∈ stepsOf step s (tr₁ ++ tr₂), C x.1 x.2) :
    ∀ x ∈ stepsOf step s tr₁, C x.1 x.2 := by
  intro x hx
  apply hC
  rw [stepsOf_append tr₂ h]
  exact List.mem_append_left _ hx

/-- A run that meets a condition at every step, cut: so does its second part. -/
theorem steps_of_append_right {C : σ → α → Prop} {s t : σ} {tr₁ tr₂ : List α}
    (h : run step s tr₁ = some t) (hC : ∀ x ∈ stepsOf step s (tr₁ ++ tr₂), C x.1 x.2) :
    ∀ x ∈ stepsOf step t tr₂, C x.1 x.2 := by
  intro x hx
  apply hC
  rw [stepsOf_append tr₂ h]
  exact List.mem_append_right _ hx

/-- What relates a state to the labels that led to it: true of no labels, and kept by one more step,
it holds at the end of the run. -/
theorem run_history {P : List α → σ → Prop} {s u : σ} {tr : List α} (hnil : P [] s)
    (hsnoc : ∀ tr t a v, P tr t → step t a = some v → P (tr ++ [a]) v)
    (hrun : run step s tr = some u) : P tr u := by
  induction tr using List.reverseRecOn generalizing u with
  | nil => cases hrun; exact hnil
  | append_singleton tr a ih =>
      obtain ⟨t, ht, hstep⟩ := run_snoc_eq_some.mp hrun
      exact hsnoc tr t a u (ih ht) hstep

/-- A quantity that no step lowers is at least its first value at the end of the run. -/
theorem run_mono [Preorder β] {f : σ → β} (hstep : ∀ s a t, step s a = some t → f s ≤ f t)
    {s u : σ} {tr : List α} (hrun : run step s tr = some u) : f s ≤ f u :=
  run_induction (P := fun t => f s ≤ f t) (fun t a v hst ht => hst.trans (hstep t a v ht))
    le_rfl hrun

/-! ## The states on the way -/

theorem visited_cons_of_some {s t : σ} {a : α} (tr : List α) (h : step s a = some t) :
    visited step s (a :: tr) = s :: visited step t tr := by
  simp [visited, h]

/-- The last state of a run is one of its states. -/
theorem mem_visited_of_run {s u : σ} {tr : List α} (hrun : run step s tr = some u) :
    u ∈ visited step s tr := by
  induction tr generalizing s with
  | nil => cases hrun; simp [visited]
  | cons a tr ih =>
      obtain ⟨t, ht, hrest⟩ := run_cons_eq_some.mp hrun
      rw [visited_cons_of_some tr ht]
      exact List.mem_cons_of_mem s (ih hrest)

/-- Every state of a run is the end of one of its first parts. -/
theorem exists_prefix_of_mem_visited {s u t : σ} {tr : List α} (hrun : run step s tr = some u)
    (ht : t ∈ visited step s tr) :
    ∃ tr₁ tr₂, tr = tr₁ ++ tr₂ ∧ run step s tr₁ = some t ∧ run step t tr₂ = some u := by
  induction tr generalizing s with
  | nil =>
      obtain rfl : t = s := by simpa [visited] using ht
      exact ⟨[], [], rfl, rfl, hrun⟩
  | cons a tr ih =>
      obtain ⟨v, hv, hrest⟩ := run_cons_eq_some.mp hrun
      rw [visited_cons_of_some tr hv] at ht
      rcases List.mem_cons.mp ht with rfl | ht
      · exact ⟨[], a :: tr, rfl, rfl, hrun⟩
      · obtain ⟨tr₁, tr₂, rfl, h₁, h₂⟩ := ih hrest ht
        exact ⟨a :: tr₁, tr₂, rfl, run_cons_eq_some.mpr ⟨v, hv, h₁⟩, h₂⟩

/-- A quantity that no step lowers is sorted along the states of a run. -/
theorem visited_pairwise [Preorder β] {f : σ → β}
    (hstep : ∀ s a t, step s a = some t → f s ≤ f t) {s u : σ} {tr : List α}
    (hrun : run step s tr = some u) :
    (visited step s tr).Pairwise fun t v => f t ≤ f v := by
  induction tr generalizing s with
  | nil => simp [visited]
  | cons a tr ih =>
      obtain ⟨t, ht, hrest⟩ := run_cons_eq_some.mp hrun
      rw [visited_cons_of_some tr ht, List.pairwise_cons]
      refine ⟨fun v hv => ?_, ih hrest⟩
      obtain ⟨tr₁, -, -, h₁, -⟩ := exists_prefix_of_mem_visited hrest hv
      exact (hstep s a t ht).trans (run_mono hstep h₁)

/-! ## Simulation -/

section sim

variable {step' : τ → β → Option τ} {abs : σ → τ} {lab : α → β} {I : σ → Prop} {C : α → Prop}

/-- **Simulation.** When under an invariant `I` and a condition `C` of the label every step is,
read through `abs` and `lab`, a step of another system, every run is a run of that system. -/
theorem run_sim
    (hsim : ∀ s a t, I s → C a → step s a = some t → I t ∧ step' (abs s) (lab a) = some (abs t))
    {s u : σ} {tr : List α} (hC : ∀ a ∈ tr, C a) (hs : I s) (hrun : run step s tr = some u) :
    I u ∧ run step' (abs s) (tr.map lab) = some (abs u) := by
  induction tr generalizing s with
  | nil => cases hrun; exact ⟨hs, rfl⟩
  | cons a tr ih =>
      obtain ⟨t, ht, hrest⟩ := run_cons_eq_some.mp hrun
      obtain ⟨hI, hstep⟩ := hsim s a t hs (hC a List.mem_cons_self) ht
      obtain ⟨hIu, hrun'⟩ := ih (fun b hb => hC b (List.mem_cons_of_mem a hb)) hI hrest
      exact ⟨hIu, run_cons_eq_some.mpr ⟨abs t, hstep, hrun'⟩⟩

/-- Under a simulation the states on the way are simulated one by one. -/
theorem visited_sim
    (hsim : ∀ s a t, I s → C a → step s a = some t → I t ∧ step' (abs s) (lab a) = some (abs t))
    {s u : σ} {tr : List α} (hC : ∀ a ∈ tr, C a) (hs : I s) (hrun : run step s tr = some u) :
    visited step' (abs s) (tr.map lab) = (visited step s tr).map abs := by
  induction tr generalizing s with
  | nil => rfl
  | cons a tr ih =>
      obtain ⟨t, ht, hrest⟩ := run_cons_eq_some.mp hrun
      obtain ⟨hI, hstep⟩ := hsim s a t hs (hC a List.mem_cons_self) ht
      rw [List.map_cons, visited_cons_of_some _ hstep, visited_cons_of_some _ ht, List.map_cons,
        ih (fun b hb => hC b (List.mem_cons_of_mem a hb)) hI hrest]

end sim

end Lib
