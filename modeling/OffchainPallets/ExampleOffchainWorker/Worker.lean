import Mathlib.Data.List.Nodup
import OffchainPallets.ExampleOffchainWorker.Pallet
import OffchainPallets.Host
import OffchainPallets.Runtime

/-!
# The grace period: `choose_transaction_type` in concurrent workers

The offchain workers of a node share `example_ocw::last_send` in the local storage. Each calls
`choose_transaction_type` with its block number, which may be any: the worker runs again on
re-orgs and skips blocks. A call is one `mutate`, so two steps, and the steps of the workers
interleave (`step`, an instance of `Cas`).

`grace_period_lock`: the workers that are told to send something are told so with block numbers
`GracePeriod` apart, in this order, and the others leave the value as it is. The value changes as
if the senders had called one after the other (`Cas.run_winners`), and then each writes the block
number that the next one is compared with.
-/

namespace OffchainPallets.ExampleOffchainWorker

open Lib OffchainPallets.Runtime

variable {T : Config}

/-- Source: `TransactionType` -/
inductive TransactionType where
  | signed
  | unsignedForAny
  | unsignedForAll
  | raw
  | none
  deriving DecidableEq, Repr

/-- The format of `example_ocw::last_send`. -/
def lastSendCodec (T : Config) : Codec T.BlockNumber := Codec.le T.blockNumberBytes

/-- The closure that is passed to `mutate`; its error is `RECENTLY_SENT`.
Source: `choose_transaction_type` -/
def updateLastSend (blockNumber : T.BlockNumber) :
    Except StorageRetrievalError (Option T.BlockNumber) → Except Unit T.BlockNumber
  | .ok (some block) =>
      if blockNumber < block + T.gracePeriod then .error () else .ok blockNumber
  | _ => .ok blockNumber

/-- What becomes of the result of `mutate`.
Source: `choose_transaction_type` -/
def transactionType : Except (MutateStorageError T.BlockNumber Unit) T.BlockNumber → TransactionType
  | .ok blockNumber =>
      let transactionType := blockNumber % 3
      if transactionType = 0 then .signed
      else if transactionType = 1 then .unsignedForAny
      else if transactionType = 2 then .unsignedForAll
      else .raw
  | .error (.declined ()) => .none
  | .error (.conflict _) => .none

/-- A call that has read `read`, when the value is `cell` at its compare-and-set: the new value and
the answer.
Source: `choose_transaction_type` -/
def chooseTransactionType (blockNumber : T.BlockNumber) (read cell : RawValue) :
    RawValue × TransactionType :=
  let res := StorageValueRef.mutate (lastSendCodec T) (updateLastSend blockNumber) read cell
  (res.1, transactionType res.2)

theorem transactionType_eq_none_iff
    {res : Except (MutateStorageError T.BlockNumber Unit) T.BlockNumber} :
    transactionType res = .none ↔ ∃ e, res = .error e := by
  cases res with
  | ok blockNumber =>
      simp only [transactionType, reduceCtorEq, exists_false, iff_false]
      split_ifs <;> simp
  | error e => cases e <;> simp [transactionType]

/-! ## Workers -/

section workers

set_option linter.unusedSectionVars false

variable {ι : Type} [DecidableEq ι] (blockNumber : ι → T.BlockNumber)

/-- Workers that call `choose_transaction_type`, each with its block number, over the raw value of
`example_ocw::last_send`. -/
abbrev Choosing (T : Config) (ι : Type) :=
  Workers ι RawValue (Cas.Phase RawValue Unit T.BlockNumber)

/-- A worker reads, or concludes with the result of its `mutate`. -/
abbrev ChoosingLabel (T : Config) (ι : Type) := ι × Cas.Act Unit T.BlockNumber

/-- One step of one worker. -/
def chooseStep : Choosing T ι → ChoosingLabel T ι → Option (Choosing T ι) :=
  Workers.step (Cas.act (StorageValueRef.set (lastSendCodec T)) fun i raw =>
    updateLastSend (blockNumber i) (StorageValueRef.get (lastSendCodec T) raw))

/-- The answer of a worker that is done. -/
def answer (w : Choosing T ι) (i : ι) : Option TransactionType :=
  match w.phase i with
  | .finished result => some (transactionType result)
  | _ => none

/-- The workers that got an answer other than `None`, in the order in which they got it. -/
def senders (tr : List (ChoosingLabel T ι)) : List ι :=
  tr.filterMap fun
    | (i, .finish result) => if transactionType result = .none then none else some i
    | _ => none

/-- No overflow of a block number and the grace period. -/
def GraceFits (n : T.BlockNumber) : Prop :=
  n.toNat + T.gracePeriod.toNat < 2 ^ (8 * T.blockNumberBytes)

/-- The block number that a raw value of `example_ocw::last_send` stands for, if any. -/
def LastSend (raw : RawValue) (last : T.BlockNumber) : Prop :=
  StorageValueRef.get (lastSendCodec T) raw = .ok (some last)

variable {blockNumber} {w w' : Choosing T ι} {tr : List (ChoosingLabel T ι)} {i : ι}

/-- The step that concludes a call is the function of the source. -/
theorem chooseTransactionType_of_step
    {result : Except (MutateStorageError T.BlockNumber Unit) T.BlockNumber}
    (h : chooseStep blockNumber w (i, .finish result) = some w') :
    ∃ read, w.phase i = .loaded read ∧ answer w' i = some (transactionType result) ∧
      chooseTransactionType (blockNumber i) read w.shared =
        (w'.shared, transactionType result) := by
  obtain ⟨cell, p, hact, rfl⟩ := Workers.step_eq_some.mp h
  rcases Cas.act_eq_some.mp hact with ⟨-, hload, -⟩ | ⟨read, result', hp, hfin, rfl, hcon⟩
  · cases hload
  · cases hfin
    refine ⟨read, hp, ?_, ?_⟩
    · simp [answer]
    · rw [chooseTransactionType, StorageValueRef.mutate, hcon]

theorem senders_eq_winners (tr : List (ChoosingLabel T ι)) : senders tr = Cas.winners tr := by
  unfold senders Cas.winners
  congr 1
  funext ⟨i, a⟩
  cases a with
  | load => rfl
  | finish result =>
      cases result with
      | ok n =>
          have hne : transactionType (.ok n : Except (MutateStorageError T.BlockNumber Unit) _) ≠
              .none := by simp [transactionType_eq_none_iff]
          simp [hne]
      | error e =>
          simp [transactionType_eq_none_iff.mpr ⟨e, rfl⟩]

/-- The closure succeeds only when the grace period is over, and then with the block number. -/
theorem updateLastSend_eq_ok {n m : T.BlockNumber}
    {last : Except StorageRetrievalError (Option T.BlockNumber)}
    (h : updateLastSend n last = .ok m) :
    m = n ∧ ∀ block, last = .ok (some block) → block + T.gracePeriod ≤ n := by
  unfold updateLastSend at h
  split at h
  · split_ifs at h with hlt
    cases h
    refine ⟨rfl, ?_⟩
    rintro block ⟨⟩
    exact BitVec.not_lt.mp hlt
  · rename_i hne
    cases h
    exact ⟨rfl, fun block hblock => absurd hblock (hne block)⟩

/-- **Senders one after the other.** In a sequential run every sender is `GracePeriod` past the
value found at first, and past every sender before it. -/
theorem spaced_of_run {is : List ι} {cell cell' : RawValue}
    (hfit : ∀ i, GraceFits (blockNumber i))
    (hcell : ∀ last : T.BlockNumber, LastSend cell last → GraceFits last)
    (hrun : run (Cas.apply (StorageValueRef.set (lastSendCodec T)) fun i raw =>
      updateLastSend (blockNumber i) (StorageValueRef.get (lastSendCodec T) raw)) cell is =
        some cell') :
    (∀ last : T.BlockNumber, LastSend cell last → ∀ i ∈ is,
      last.toNat + T.gracePeriod.toNat ≤ (blockNumber i).toNat) ∧
    is.Pairwise fun i j =>
      (blockNumber i).toNat + T.gracePeriod.toNat ≤ (blockNumber j).toNat := by
  induction is generalizing cell with
  | nil => simp
  | cons i is ih =>
      obtain ⟨mid, hmid, hrest⟩ := run_cons_eq_some.mp hrun
      unfold Cas.apply at hmid
      split at hmid
      · rename_i n hn
        cases hmid
        obtain ⟨rfl, hlast⟩ := updateLastSend_eq_ok hn
        -- what the next worker finds is this worker's block number
        have hget : ∀ last : T.BlockNumber,
            LastSend (StorageValueRef.set (lastSendCodec T) (blockNumber i)) last →
              blockNumber i = last := by
          intro last h
          rw [LastSend, StorageValueRef.get_set] at h
          cases h
          rfl
        obtain ⟨hfirst, hpair⟩ := ih (fun last h => hget last h ▸ hfit i) hrest
        have hfirst' := hfirst (blockNumber i) (StorageValueRef.get_set _ _)
        refine ⟨?_, List.pairwise_cons.mpr ⟨hfirst', hpair⟩⟩
        intro last h
        have hle : last.toNat + T.gracePeriod.toNat ≤ (blockNumber i).toNat := by
          have hblock := hlast last h
          rwa [BitVec.le_def, BitVec.toNat_add, Nat.mod_eq_of_lt (hcell last h)] at hblock
        intro j hj
        rcases List.mem_cons.mp hj with rfl | hj
        · exact hle
        · have := hfirst' j hj
          omega
      · cases hmid

/-- **The grace period is a lock.** Let any workers with any block numbers run
`choose_transaction_type` in any interleaving, from any raw value of `example_ocw::last_send`. Then:
the workers that are told to send have block numbers `GracePeriod` apart, in the order in which
they are told, so no two have one block number;
each is `GracePeriod` past the value at first, if that could be decoded;
and a worker that is told `None` has not changed the value.
Source: `choose_transaction_type` -/
theorem grace_period_lock (hfit : ∀ i, GraceFits (blockNumber i))
    (hfirst : ∀ last : T.BlockNumber, LastSend w.shared last → GraceFits last)
    (hrun : run (chooseStep blockNumber) w tr = some w') :
    ((senders tr).Pairwise fun i j =>
      (blockNumber i).toNat + T.gracePeriod.toNat ≤ (blockNumber j).toNat) ∧
    (0 < T.gracePeriod → ((senders tr).map blockNumber).Nodup) ∧
    (∀ last : T.BlockNumber, LastSend w.shared last → ∀ i ∈ senders tr,
      last.toNat + T.gracePeriod.toNat ≤ (blockNumber i).toNat) ∧
    (∀ i, answer w' i = some .none → ∀ tr₁ a tr₂ w₁ w₂, tr = tr₁ ++ (i, a) :: tr₂ →
      run (chooseStep blockNumber) w tr₁ = some w₁ → chooseStep blockNumber w₁ (i, a) = some w₂ →
      w₂.shared = w₁.shared) := by
  have hspaced := spaced_of_run hfit hfirst (Cas.run_winners hrun)
  rw [← senders_eq_winners] at hspaced
  obtain ⟨hfirst', hpair⟩ := hspaced
  refine ⟨hpair, ?_, hfirst', ?_⟩
  · intro hpos
    have hpos' := toNat_pos hpos
    rw [List.Nodup, List.pairwise_map]
    refine hpair.imp fun {i j} hle heq => ?_
    rw [heq] at hle
    omega
  · rintro i hanswer tr₁ a tr₂ w₁ w₂ rfl h₁ h₂
    have hrest : run (chooseStep blockNumber) w₂ tr₂ = some w' := by
      have htail := run_of_append h₁ hrun
      rwa [run_cons, h₂, Option.bind_some] at htail
    -- the worker ended without success
    obtain ⟨e, hend⟩ : ∃ e, w'.phase i = .finished (.error e) := by
      unfold answer at hanswer
      split at hanswer
      · rename_i result hphase
        obtain ⟨e, rfl⟩ := transactionType_eq_none_iff.mp (Option.some.inj hanswer)
        exact ⟨e, hphase⟩
      · cases hanswer
    exact Cas.shared_eq_of_failed h₂ hrest hend

end workers

/-- Two workers for block 5 that both find the value of block 2. -/
def bothRead : Choosing noSignatures Bool :=
  ⟨some [2, 0, 0, 0], fun _ => .start⟩

/-- Both read; the first writes, the second comes too late. -/
def oneSends : List (ChoosingLabel noSignatures Bool) :=
  [(true, .load), (false, .load), (true, .finish (.ok 5)), (false, .finish (.error (.conflict 5)))]

theorem grace_period_lock_oneSends :
    ∃ w', run (chooseStep fun _ => (5 : noSignatures.BlockNumber)) bothRead oneSends = some w' ∧
      senders oneSends = [true] ∧ answer w' true = some .unsignedForAll ∧
      answer w' false = some .none ∧
      ((senders oneSends).map fun _ => (5 : noSignatures.BlockNumber)).Nodup ∧
      ∀ tr₁ a tr₂ w₁ w₂, oneSends = tr₁ ++ (false, a) :: tr₂ →
        run (chooseStep fun _ => (5 : noSignatures.BlockNumber)) bothRead tr₁ = some w₁ →
        chooseStep (fun _ => (5 : noSignatures.BlockNumber)) w₁ (false, a) = some w₂ →
        w₂.shared = w₁.shared := by
  have hlast : ∀ last : noSignatures.BlockNumber, LastSend bothRead.shared last →
      GraceFits last := by
    rintro last ⟨⟩
    unfold GraceFits
    decide
  obtain ⟨w', hrun, htrue, hfalse⟩ : ∃ w', run (chooseStep fun _ => (5 : noSignatures.BlockNumber))
      bothRead oneSends = some w' ∧ answer w' true = some .unsignedForAll ∧
        answer w' false = some .none := ⟨_, rfl, rfl, rfl⟩
  obtain ⟨-, hnodup, -, hkept⟩ := grace_period_lock (by unfold GraceFits; decide) hlast hrun
  exact ⟨w', hrun, rfl, htrue, hfalse, hnodup (by decide), hkept false hfalse⟩

end OffchainPallets.ExampleOffchainWorker
