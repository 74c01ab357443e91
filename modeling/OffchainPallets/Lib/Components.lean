import OffchainPallets.Lib.Runs

/-!
# Systems composed of components

A component of a system sees the state through a view and takes part in some of the labels, as
labels of its own; the other labels pass it by. A system is composed of components (`Composed`) when
each of its steps is a step of every component that takes part in it, leaves the views of the
others, and is enabled as soon as it is enabled for every component that takes part.

* `Composed.view_of_run` — a run is a run of each component.
* `Composed.run_isSome_iff` — and it is enabled exactly when it is enabled for each: the components
  do not constrain one another.
* `Composed.view_eq_of_shuffle` — how the labels of different components are shuffled makes no
  difference to what a component sees.
-/

namespace Lib

universe u v w

/-- A part of a system with states `σ` and labels `α`. -/
structure Component (σ : Type v) (α : Type w) where
  State : Type u
  Label : Type u
  step : State → Label → Option State
  /-- What the component sees of a state. -/
  view : σ → State
  /-- The label as the component takes part in it, `none` when it does not. -/
  label : α → Option Label

namespace Component

variable {σ : Type v} {α : Type w} (c : Component.{u} σ α)

/-- The component's step under a label of the system. -/
def follow (t : c.State) (a : α) : Option c.State := (c.label a).elim (some t) (c.step t)

/-- The labels of a run in which the component takes part. -/
def trace (tr : List α) : List c.Label := tr.filterMap c.label

theorem trace_append (tr₁ tr₂ : List α) : c.trace (tr₁ ++ tr₂) = c.trace tr₁ ++ c.trace tr₂ :=
  List.filterMap_append

/-- To follow a run is to run its trace. -/
theorem run_follow (t : c.State) (tr : List α) :
    run c.follow t tr = run c.step t (c.trace tr) := by
  induction tr generalizing t with
  | nil => rfl
  | cons a tr ih =>
      rw [run_cons, follow, trace, List.filterMap_cons]
      cases c.label a with
      | none => exact ih t
      | some b =>
          rw [run_cons, Option.elim_some]
          congr 1
          funext u
          exact ih u

end Component

variable {σ : Type v} {α : Type w} {ι : Type*} {step : σ → α → Option σ}

/-- A system composed of a family of components. -/
structure Composed (step : σ → α → Option σ) (component : ι → Component.{u} σ α) : Prop where
  /-- A step is a step of every component, or passes it by. -/
  follow : ∀ {s a t}, step s a = some t →
    ∀ i, (component i).follow ((component i).view s) a = some ((component i).view t)
  /-- A step that every component can follow is enabled. -/
  enabled : ∀ {s a}, (∀ i, ((component i).follow ((component i).view s) a).isSome) →
    (step s a).isSome

namespace Composed

variable {component : ι → Component.{u} σ α} {s t : σ} {tr tr' : List α}

/-- **A run is a run of each component.** -/
theorem view_of_run (h : Composed step component) (hrun : run step s tr = some t) (i : ι) :
    run (component i).step ((component i).view s) ((component i).trace tr) =
      some ((component i).view t) := by
  rw [← Component.run_follow]
  induction tr generalizing s with
  | nil =>
      cases hrun
      rfl
  | cons a tr ih =>
      obtain ⟨u, hu, hrest⟩ := run_cons_eq_some.mp hrun
      exact run_cons_eq_some.mpr ⟨_, h.follow hu i, ih hrest⟩

/-- **The components do not constrain one another.** -/
theorem run_isSome_iff (h : Composed step component) :
    (run step s tr).isSome ↔ ∀ i,
      (run (component i).step ((component i).view s) ((component i).trace tr)).isSome := by
  constructor
  · intro hrun i
    obtain ⟨t, ht⟩ := Option.isSome_iff_exists.mp hrun
    rw [h.view_of_run ht i]
    rfl
  · simp only [← Component.run_follow]
    intro hall
    induction tr generalizing s with
    | nil => rfl
    | cons a tr ih =>
        -- every component can follow the first label
        have hfirst : ∀ i, ((component i).follow ((component i).view s) a).isSome := by
          intro i
          obtain ⟨v, hv⟩ := Option.isSome_iff_exists.mp (hall i)
          obtain ⟨u, hu, -⟩ := run_cons_eq_some.mp hv
          rw [hu]
          rfl
        obtain ⟨u, hu⟩ := Option.isSome_iff_exists.mp (h.enabled hfirst)
        have hrest : ∀ i, (run (component i).follow ((component i).view u) tr).isSome := by
          intro i
          have hi := hall i
          rwa [run_cons, h.follow hu i, Option.bind_some] at hi
        rw [run_cons, hu, Option.bind_some]
        exact ih hrest

/-- **Shuffles.** Two runs with the same trace for a component leave it the same view. -/
theorem view_eq_of_shuffle (h : Composed step component) {t' : σ}
    (hrun : run step s tr = some t) (hrun' : run step s tr' = some t') {i : ι}
    (htrace : (component i).trace tr = (component i).trace tr') :
    (component i).view t = (component i).view t' := by
  have hview := h.view_of_run hrun i
  rw [htrace, h.view_of_run hrun' i] at hview
  exact (Option.some.inj hview).symm

/-- A run can be shuffled, as long as no trace changes. -/
theorem isSome_of_shuffle (h : Composed step component) (hrun : (run step s tr).isSome)
    (htrace : ∀ i, (component i).trace tr = (component i).trace tr') :
    (run step s tr').isSome := by
  rw [h.run_isSome_iff] at hrun ⊢
  intro i
  rw [← htrace i]
  exact hrun i

end Composed

/-! ## Logs -/

/-- An entry that a component sees stands equally often in two logs that look the same to it. -/
theorem count_eq_of_view {E F : Type*} [DecidableEq E] {view : E → Option F} {e : E} {f : F}
    (h : ∀ e', view e' = some f ↔ e' = e) {es es' : List E}
    (hview : es.filterMap view = es'.filterMap view) : es.count e = es'.count e := by
  classical
  have hcount : ∀ es : List E, es.count e = (es.filterMap view).count f := by
    intro es
    rw [List.count_filterMap, List.count_eq_countP]
    congr 1
    funext e'
    rw [Bool.eq_iff_iff, beq_iff_eq, beq_iff_eq, h]
  rw [hcount, hcount, hview]

end Lib
