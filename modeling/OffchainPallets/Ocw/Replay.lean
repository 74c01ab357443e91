import OffchainPallets.Ocw.Numbers
import OffchainPallets.SignedPayloads

/-!
# Signed numbers on the chain

Runs of the chain: as those of `pallet-ocw`, where an unsigned call is dispatched only if
`validate_unsigned` accepts it at that moment. The validator reads no storage, and a payload names
neither a block nor a nonce, so nothing that has happened makes it refuse a call it has accepted.

* `applied_verifies` — every signed number that was applied in a run was signed.
* `signed_number_replayable` — one that was signed can be applied after any run, any number of
  times, whether or not it was applied before.
-/

namespace OffchainPallets.Ocw

open Lib OffchainPallets.Runtime

variable {T : Config} {b₀ : T.BlockNumber} {s s' : Storage T} {tr : List (Label T)}
  {p : Payload T} {signature : T.Signature}

/-- `pre_dispatch`: an unsigned call has to be valid. -/
def preDispatch (call : Call T) : RawOrigin T.AccountId → Bool
  | .none =>
      match validateUnsigned call with
      | .ok _ => true
      | .error _ => false
  | _ => true

/-- One step of the chain: as `step`, but unsigned calls are checked before. -/
def chainStep (s : Storage T) : Label T → Option (Storage T)
  | .beginBlock n => step s (.beginBlock n)
  | .dispatch origin call result =>
      if preDispatch call origin then step s (.dispatch origin call result) else none

/-- A step of the chain is a step of the pallet. -/
theorem step_of_chainStep {l : Label T} (h : chainStep s l = some s') : step s l = some s' := by
  cases l with
  | beginBlock n => exact h
  | dispatch origin call result =>
      simp only [chainStep, Option.ite_none_right_eq_some] at h
      exact h.2

theorem run_step_of_run_chainStep (h : run chainStep s tr = some s') : run step s tr = some s' := by
  induction tr generalizing s with
  | nil => exact h
  | cons l tr ih =>
      obtain ⟨t, ht, hrest⟩ := run_cons_eq_some.mp h
      exact run_cons_eq_some.mpr ⟨t, step_of_chainStep ht, ih hrest⟩

/-- The successful application of a signed number. -/
def applySigned (p : Payload T) (signature : T.Signature) : Label T :=
  .dispatch .none (.submitNumberUnsignedWithSignedPayload p signature) (.ok ())

/-- A signed number is accepted exactly when its signature verifies. -/
theorem validateUnsigned_signed_iff :
    (∃ v, validateUnsigned (.submitNumberUnsignedWithSignedPayload p signature) = .ok v) ↔
      p.verify signature = true := by
  unfold validateUnsigned
  by_cases hver : p.verify signature = true
  · simp [hver, validTx, ValidTransactionBuilder.build]
  · simp [hver]

/-- A signed number that verifies is applied in any state. -/
theorem chainStep_applySigned (s : Storage T) (hver : p.verify signature = true) :
    chainStep s (applySigned p signature) = some (s.submitted p.number none) := by
  obtain ⟨v, hv⟩ := validateUnsigned_signed_iff.mpr hver
  have hpre : preDispatch (.submitNumberUnsignedWithSignedPayload p signature) .none = true := by
    simp [preDispatch, hv]
  rw [applySigned, chainStep, if_pos hpre, step_eq_some]
  exact Or.inr ⟨none, rfl, rfl, rfl⟩

/-- It can be applied any number of times in a row. -/
theorem exists_run_replicate (s : Storage T) (hver : p.verify signature = true) (k : ℕ) :
    ∃ s', run chainStep s (List.replicate k (applySigned p signature)) = some s' := by
  induction k generalizing s with
  | zero => exact ⟨s, rfl⟩
  | succ k ih =>
      obtain ⟨s', hrest⟩ := ih (s.submitted p.number none)
      exact ⟨s', run_cons_eq_some.mpr ⟨_, chainStep_applySigned s hver, hrest⟩⟩

/-- **What was applied was signed.** -/
theorem applied_verifies (hrun : run chainStep s tr = some s')
    (hmem : applySigned p signature ∈ tr) : p.verify signature = true := by
  obtain ⟨tr₁, tr₂, rfl⟩ := List.append_of_mem hmem
  obtain ⟨t, -, hrest⟩ := run_append_eq_some.mp hrun
  obtain ⟨t', hstep, -⟩ := run_cons_eq_some.mp hrest
  rw [applySigned, chainStep, Option.ite_none_right_eq_some] at hstep
  have hpre := hstep.1
  simp only [preDispatch] at hpre
  split at hpre
  · rename_i v hv
    exact validateUnsigned_signed_iff.mp ⟨v, hv⟩
  · cases hpre

theorem submittedNumbers_replicate (k : ℕ) :
    submittedNumbers (List.replicate k (applySigned p signature)) =
      List.replicate k p.number := by
  rw [submittedNumbers, List.filterMap_replicate]
  rfl

/-- **Signed numbers can be replayed.** After every run, of a payload and a signature:
`validate_unsigned` accepts them exactly when the signature verifies;
a pair that was applied in the run verifies;
and a pair that verifies, whether it was applied in the run or not, can then be applied any number
of times, and each time its number is appended to `Numbers`.
Source: `validate_unsigned`, `Payload`, `submit_number_unsigned_with_signed_payload` -/
theorem signed_number_replayable (hrun : run chainStep (Storage.empty b₀) tr = some s)
    (p : Payload T) (signature : T.Signature) :
    ((∃ v, validateUnsigned (.submitNumberUnsignedWithSignedPayload p signature) = .ok v) ↔
      p.verify signature = true) ∧
    (applySigned p signature ∈ tr → p.verify signature = true) ∧
    (p.verify signature = true → ∀ k, ∃ s',
      run chainStep (Storage.empty b₀) (tr ++ List.replicate k (applySigned p signature)) =
        some s' ∧
      s'.numbers = (submittedNumbers tr ++ List.replicate k p.number).rtake NUM_VEC_LEN) := by
  refine ⟨validateUnsigned_signed_iff, applied_verifies hrun, fun hver k => ?_⟩
  obtain ⟨s', hmore⟩ := exists_run_replicate s hver k
  have hrun' : run chainStep (Storage.empty b₀)
      (tr ++ List.replicate k (applySigned p signature)) = some s' :=
    run_append_eq_some.mpr ⟨s, hrun, hmore⟩
  refine ⟨s', hrun', ?_⟩
  have hnumbers := numbers_eq_foldl_of_run (run_step_of_run_chainStep hrun')
  rw [submittedNumbers_append, submittedNumbers_replicate] at hnumbers
  rw [hnumbers]
  exact foldl_pushBounded (by decide) _

theorem signed_number_replayable_numberPayload :
    ∃ s', run chainStep (Storage.empty (T := ocw verifyOne) 1)
        ([applySigned numberPayload (.sr25519 Runtime.signature)] ++
          List.replicate 3 (applySigned numberPayload (.sr25519 Runtime.signature))) = some s' ∧
      s'.numbers = [numberPayload.number, numberPayload.number, numberPayload.number,
        numberPayload.number] := by
  have hver : numberPayload.verify (.sr25519 Runtime.signature) = true := by decide
  have hrun := chainStep_applySigned (Storage.empty (T := ocw verifyOne) 1) hver
  obtain ⟨-, -, hreplay⟩ := signed_number_replayable
    (run_cons_eq_some.mpr ⟨_, hrun, run_nil _⟩) numberPayload (.sr25519 Runtime.signature)
  exact hreplay hver 3

/-- A signed number is accepted after it was applied, and applied again. -/
theorem signed_number_replayed :
    (∃ v, validateUnsigned (.submitNumberUnsignedWithSignedPayload numberPayload
      (.sr25519 Runtime.signature)) = .ok v) ∧
    ∃ s, run chainStep (Storage.empty (T := ocw verifyOne) 1)
        [applySigned numberPayload (.sr25519 Runtime.signature), .beginBlock 2,
          applySigned numberPayload (.sr25519 Runtime.signature)] = some s ∧
      s.numbers = [numberPayload.number, numberPayload.number] := by
  have hver : numberPayload.verify (.sr25519 Runtime.signature) = true := by decide
  refine ⟨validateUnsigned_signed_iff.mpr hver, ?_⟩
  simp only [run_cons, chainStep_applySigned _ hver, Option.bind_some, run_nil]
  exact ⟨_, rfl, rfl⟩

end OffchainPallets.Ocw
