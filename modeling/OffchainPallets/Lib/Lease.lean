import Mathlib.Logic.Function.Basic
import Mathlib.Tactic.Common

/-!
# A lock that can expire under its holder

A lock stored in one cell, acquired by writing the cell and released by clearing it. A worker that
finds the lock set may still take it when the lock has expired: it overtakes whoever set it. The
cell does not say who holds the lock, so the guard of a worker that was overtaken clears the lock
of the worker that overtook it.

`Exclusive` — at most one guard is held, and then the lock is set — is kept by every step except
the overtaking of a worker that still holds its guard (`Exclusive.step`), which ends it
(`held_of_overtake`). `Owned` — the lock is set only while a guard is held — is kept by every step.
-/

namespace Lib

/-- Which workers hold a guard, and whether the lock is set. -/
structure Lease (ι : Type*) where
  held : ι → Bool
  locked : Bool

namespace Lease

variable {ι : Type*} {s s' : Lease ι}

/-- A step, seen from the lock. -/
inductive Label (ι : Type*) where
  /-- Take the lock while it is not set. -/
  | acquire (i : ι)
  /-- Take the lock while it is set. -/
  | overtake (i : ι)
  /-- Drop the guard and clear the lock. -/
  | release (i : ι)
  | other

/-- At most one guard is held, and the lock is set while it is. -/
structure Exclusive (s : Lease ι) : Prop where
  single : ∀ i j, s.held i = true → s.held j = true → i = j
  locked : ∀ i, s.held i = true → s.locked = true

/-- Nobody holds a guard. -/
theorem Exclusive.of_free (h : ∀ i, s.held i = false) : Exclusive s where
  single i j hi := by rw [h i] at hi; cases hi
  locked i hi := by rw [h i] at hi; cases hi

/-- A step that overtakes nobody: the lock may have been left behind, but no guard is held. -/
def OvertakesNobody (s : Lease ι) : Label ι → Prop
  | .overtake _ => ∀ j, s.held j = false
  | _ => True

section

variable [DecidableEq ι]

/-- One step. -/
def step (s : Lease ι) : Label ι → Option (Lease ι)
  | .acquire i =>
      if s.locked = false ∧ s.held i = false then some ⟨Function.update s.held i true, true⟩
      else none
  | .overtake i =>
      if s.locked = true ∧ s.held i = false then some ⟨Function.update s.held i true, true⟩
      else none
  | .release i =>
      if s.held i = true then some ⟨Function.update s.held i false, false⟩ else none
  | .other => some s

variable {l : Label ι} {i j : ι}

theorem step_eq_some :
    step s l = some s' ↔
      match l with
      | .acquire i =>
          s.locked = false ∧ s.held i = false ∧ s' = ⟨Function.update s.held i true, true⟩
      | .overtake i =>
          s.locked = true ∧ s.held i = false ∧ s' = ⟨Function.update s.held i true, true⟩
      | .release i => s.held i = true ∧ s' = ⟨Function.update s.held i false, false⟩
      | .other => s' = s := by
  cases l <;> simp only [step, Option.ite_none_right_eq_some, Option.some.injEq, and_assoc,
    eq_comm (b := s')]

/-- The guard of a worker that took the lock while no guard was held is the only one. -/
theorem Exclusive.of_taken (h : ∀ j, s.held j = false) (i : ι) :
    Exclusive ⟨Function.update s.held i true, true⟩ where
  single j k hj hk := by
    have honly : ∀ j, Function.update s.held i true j = true → j = i := by
      intro j hj
      by_contra hne
      simp [Function.update_of_ne hne, h j] at hj
    rw [honly j hj, honly k hk]
  locked _ _ := rfl

/-- **One step.** Exclusion is kept unless a worker is overtaken. -/
theorem Exclusive.step (hs : Exclusive s) (hl : OvertakesNobody s l)
    (hstep : step s l = some s') : Exclusive s' := by
  have hinv := step_eq_some.mp hstep
  cases l with
  | acquire i =>
      obtain ⟨hfree, -, rfl⟩ := hinv
      refine .of_taken (fun j => ?_) i
      -- a held guard would have set the lock
      by_contra hj
      have hlocked := hs.locked j (by simpa using hj)
      simp [hfree] at hlocked
  | overtake i =>
      obtain ⟨-, -, rfl⟩ := hinv
      exact .of_taken hl i
  | release i =>
      obtain ⟨hi, rfl⟩ := hinv
      apply Exclusive.of_free
      intro j
      by_cases hji : j = i
      · rw [hji]
        exact Function.update_self i false s.held
      · have hne : s.held j ≠ true := fun hj => hji (hs.single j i hj hi)
        simpa [Function.update_of_ne hji] using hne
  | other =>
      obtain rfl := hinv
      exact hs

/-- A lock that is set is somebody's: it does not outlive the guards. -/
def Owned (s : Lease ι) : Prop := s.locked = true → ∃ i, s.held i = true

/-- **One step.** No step leaves the lock behind. -/
theorem Owned.step (hs : Owned s) (hstep : step s l = some s') : Owned s' := by
  have hinv := step_eq_some.mp hstep
  cases l with
  | acquire i =>
      obtain ⟨-, -, rfl⟩ := hinv
      exact fun _ => ⟨i, Function.update_self i true s.held⟩
  | overtake i =>
      obtain ⟨-, -, rfl⟩ := hinv
      exact fun _ => ⟨i, Function.update_self i true s.held⟩
  | release i =>
      obtain ⟨-, rfl⟩ := hinv
      simp [Owned]
  | other =>
      obtain rfl := hinv
      exact hs

/-- A worker that is overtaken still holds its guard, beside the one that overtook it. -/
theorem held_of_overtake (hi : s.held i = true) (hstep : step s (.overtake j) = some s') :
    i ≠ j ∧ s'.held i = true ∧ s'.held j = true := by
  obtain ⟨-, hj, rfl⟩ := step_eq_some.mp hstep
  have hne : i ≠ j := by
    rintro rfl
    simp [hi] at hj
  refine ⟨hne, ?_, Function.update_self j true s.held⟩
  simpa [Function.update_of_ne hne] using hi

end

end Lease

end Lib
