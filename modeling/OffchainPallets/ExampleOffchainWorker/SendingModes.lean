import OffchainPallets.ExampleOffchainWorker.Worker
import OffchainPallets.Lib.Phases

/-!
# The sending modes of a worker

A worker that runs in consecutive blocks `s`, `s + 1`, …, with an empty local storage at first, and
is not interfered with: `modeAt s k` is what `choose_transaction_type` returns in the block `s + k`.
The mode is the phase of the block number modulo 3, and the grace period is a timer
(`Lib.due_iff_dvd`).

* `modeAt_eq` — the worker sends in every `GracePeriod`-th block and in no other.
* `not_every_mode_used` — the remainders modulo 3 give three modes, so the fourth is dead; and with
  a grace period of 3 blocks only one of them is used, that of the first block.
-/

namespace OffchainPallets.ExampleOffchainWorker

open Lib OffchainPallets.Runtime

variable {T : Config} {s : T.BlockNumber}

/-! ## The mode of a block number -/

/-- The mode in which a worker sends, if it does.
Source: `choose_transaction_type` -/
def modeOf (n : T.BlockNumber) : TransactionType := transactionType (.ok n)

/-- Block numbers have room for the modulus. -/
theorem two_pow_32_le (T : Config) : 2 ^ 32 ≤ 2 ^ (8 * T.blockNumberBytes) := by
  have hwidth := T.atLeast32Bit
  exact Nat.pow_le_pow_right (by decide) (by omega)

/-- The mode, from the remainder. -/
theorem modeOf_eq (n : T.BlockNumber) :
    modeOf n =
      if n.toNat % 3 = 0 then .signed
      else if n.toNat % 3 = 1 then .unsignedForAny else .unsignedForAll := by
  have hroom := two_pow_32_le T
  have hnum : ∀ m < 4, (BitVec.ofNat (8 * T.blockNumberBytes) m).toNat = m := by
    intro m hm
    rw [BitVec.toNat_ofNat, Nat.mod_eq_of_lt (by omega)]
  have heq : ∀ m < 4, n % 3 = BitVec.ofNat _ m ↔ n.toNat % 3 = m := by
    intro m hm
    rw [← BitVec.toNat_inj, hnum m hm, BitVec.toNat_umod, show (3 : T.BlockNumber).toNat = 3 from
      hnum 3 (by decide)]
  have hzero : n % 3 = 0 ↔ n.toNat % 3 = 0 := heq 0 (by decide)
  have hone : n % 3 = 1 ↔ n.toNat % 3 = 1 := heq 1 (by decide)
  have htwo : n % 3 = 2 ↔ n.toNat % 3 = 2 := heq 2 (by decide)
  simp only [modeOf, transactionType, hzero, hone, htwo]
  split_ifs <;> first | rfl | omega

/-- **No block number has the fourth mode.** -/
theorem transactionType_ne_raw
    (res : Except (MutateStorageError T.BlockNumber Unit) T.BlockNumber) :
    transactionType res ≠ .raw := by
  rcases res with e | n
  · have hnone := transactionType_eq_none_iff.mpr ⟨e, rfl⟩
    simp [hnone]
  · show modeOf n ≠ .raw
    rw [modeOf_eq]
    split_ifs <;> simp

theorem modeOf_congr {m n : T.BlockNumber} (h : m.toNat ≡ n.toNat [MOD 3]) :
    modeOf m = modeOf n := by
  rw [modeOf_eq, modeOf_eq, h]

/-! ## A worker in consecutive blocks -/

/-- The raw value of `example_ocw::last_send` before the block `s + k`, if the worker has run once
in each block from `s` on, for the first time without a value. Nobody else writes the value, so each
call finds at its compare-and-set what it has read. -/
def lastSendBefore (s : T.BlockNumber) : ℕ → RawValue
  | 0 => none
  | k + 1 =>
      (chooseTransactionType (T := T) (s + BitVec.ofNat _ k) (lastSendBefore s k)
        (lastSendBefore s k)).1

/-- What the worker is told in the block `s + k`. -/
def modeAt (s : T.BlockNumber) (k : ℕ) : TransactionType :=
  (chooseTransactionType (T := T) (s + BitVec.ofNat _ k) (lastSendBefore s k)
    (lastSendBefore s k)).2

/-- Every mode in which a worker can send is used in some block. -/
def EveryModeUsed (s : T.BlockNumber) : Prop := ∀ mode, mode ≠ .none → ∃ k, modeAt s k = mode

theorem modeAt_ne_raw (s : T.BlockNumber) (k : ℕ) : modeAt s k ≠ .raw := transactionType_ne_raw _

/-- A raw value as the timer sees it: the block number that it stands for, if any. -/
def Stands (T : Config) (raw : RawValue) (last : Option ℕ) : Prop :=
  ∃ value : Option T.BlockNumber, StorageValueRef.get (lastSendCodec T) raw = .ok value ∧
    value.map BitVec.toNat = last

/-- **One call that is not interfered with**: the mode of the block number if the timer is due, and
nothing otherwise. -/
theorem chooseTransactionType_of_stands {n : T.BlockNumber} {raw : RawValue} {last : Option ℕ}
    (h : Stands T raw last)
    (hfit : ∀ l ∈ last, l + T.gracePeriod.toNat < 2 ^ (8 * T.blockNumberBytes)) :
    chooseTransactionType n raw raw =
      if Due T.gracePeriod.toNat last n.toNat then
        (StorageValueRef.set (lastSendCodec T) n, modeOf n)
      else (raw, .none) := by
  obtain ⟨value, hget, rfl⟩ := h
  have hupdate : updateLastSend n (.ok value) =
      if Due T.gracePeriod.toNat (value.map BitVec.toNat) n.toNat then .ok n else .error () := by
    rcases value with _ | block
    · simp [updateLastSend, Due]
    · have hsum : (block + T.gracePeriod).toNat = block.toNat + T.gracePeriod.toNat := by
        rw [BitVec.toNat_add, Nat.mod_eq_of_lt (hfit _ rfl)]
      have hdue : Due T.gracePeriod.toNat (some block.toNat) n.toNat ↔
          ¬ n < block + T.gracePeriod := by
        rw [BitVec.lt_def, hsum]
        simp [Due]
      simp only [updateLastSend, Option.map_some, hdue, ite_not]
  simp only [chooseTransactionType, StorageValueRef.mutate, Cas.conclude, hget, hupdate]
  split_ifs with hdue <;> rfl

theorem stands_set (n : T.BlockNumber) :
    Stands T (StorageValueRef.set (lastSendCodec T) n) (some n.toNat) :=
  ⟨some n, StorageValueRef.get_set _ n, rfl⟩

/-- The block numbers of a run that does not wrap. -/
theorem toNat_add_ofNat {k : ℕ} (hk : s.toNat + k < 2 ^ (8 * T.blockNumberBytes)) :
    (s + BitVec.ofNat _ k).toNat = s.toNat + k := by
  rw [BitVec.toNat_add, BitVec.toNat_ofNat, Nat.mod_eq_of_lt (by omega : k < _),
    Nat.mod_eq_of_lt hk]

section blocks

variable {k : ℕ} (hpos : 0 < T.gracePeriod.toNat)
  (hk : s.toNat + k + T.gracePeriod.toNat ≤ 2 ^ (8 * T.blockNumberBytes))

include hpos hk

/-- The call in a block, from what stands before it. -/
theorem call_of_stands
    (h : Stands T (lastSendBefore s k) (lastFiring T.gracePeriod.toNat s.toNat k)) :
    chooseTransactionType (s + BitVec.ofNat _ k) (lastSendBefore s k) (lastSendBefore s k) =
      if Due T.gracePeriod.toNat (lastFiring T.gracePeriod.toNat s.toNat k) (s.toNat + k) then
        (StorageValueRef.set (lastSendCodec T) (s + BitVec.ofNat _ k),
          modeOf (s + BitVec.ofNat _ k))
      else (lastSendBefore s k, .none) := by
  have hblock : (s + BitVec.ofNat _ k).toNat = s.toNat + k := toNat_add_ofNat (by omega)
  rw [← hblock]
  apply chooseTransactionType_of_stands h
  intro l hl
  have hlt := lastFiring_lt hpos s.toNat hl
  omega

/-- What stands before a block is the last firing of the timer. -/
theorem stands_lastSendBefore :
    Stands T (lastSendBefore s k) (lastFiring T.gracePeriod.toNat s.toNat k) := by
  induction k with
  | zero => exact ⟨none, rfl, rfl⟩
  | succ k ih =>
      have hk' : s.toNat + k + T.gracePeriod.toNat ≤ 2 ^ (8 * T.blockNumberBytes) := by omega
      have hblock : (s + BitVec.ofNat _ k).toNat = s.toNat + k := toNat_add_ofNat (by omega)
      have hstands := ih hk'
      rw [lastSendBefore, call_of_stands hpos hk' hstands, lastFiring]
      split_ifs with hdue
      · rw [← hblock]
        exact stands_set _
      · exact hstands

/-- **A worker sends in every `GracePeriod`-th block**, as long as the block numbers do not wrap.
Source: `choose_transaction_type` -/
theorem modeAt_eq :
    modeAt s k =
      if T.gracePeriod.toNat ∣ k then modeOf (s + BitVec.ofNat _ k) else .none := by
  rw [modeAt, call_of_stands hpos hk (stands_lastSendBefore hpos hk)]
  simp only [due_iff_dvd hpos]
  split_ifs <;> rfl

/-- A grace period that is a multiple of the modulus leaves the worker one mode. -/
theorem modeAt_of_three_dvd (hthree : 3 ∣ T.gracePeriod.toNat) :
    modeAt s k = if T.gracePeriod.toNat ∣ k then modeOf s else .none := by
  rw [modeAt_eq hpos hk]
  split_ifs with hdvd
  · apply modeOf_congr
    rw [toNat_add_ofNat (by omega)]
    -- the blocks in which it sends have the remainder of the first
    have hzero : k ≡ 0 [MOD 3] := Nat.modEq_zero_iff_dvd.mpr (hthree.trans hdvd)
    exact hzero.add_left s.toNat
  · rfl

end blocks

/-- Any other grace period takes it through three modes. -/
theorem exists_modeAt_of_coprime (hcoprime : Nat.Coprime T.gracePeriod.toNat 3)
    (hroom : s.toNat + 3 * T.gracePeriod.toNat ≤ 2 ^ (8 * T.blockNumberBytes))
    (n : T.BlockNumber) : ∃ k, modeAt s k = modeOf n := by
  have hpos : 0 < T.gracePeriod.toNat := by
    rw [Nat.pos_iff_ne_zero]
    intro hzero
    rw [hzero] at hcoprime
    exact absurd hcoprime (by decide)
  obtain ⟨j, hj, hphase⟩ := exists_add_mul_modEq (by decide) hcoprime s.toNat n.toNat
  have hle : j * T.gracePeriod.toNat ≤ 2 * T.gracePeriod.toNat :=
    Nat.mul_le_mul_right _ (Nat.le_of_lt_succ hj)
  refine ⟨j * T.gracePeriod.toNat, ?_⟩
  rw [modeAt_eq hpos (by omega), if_pos (Nat.dvd_mul_left _ _)]
  apply modeOf_congr
  rwa [toNat_add_ofNat (by omega)]

/-- A call that is not interfered with, as a run of `chooseStep`. -/
theorem exists_run_call {blockNumber : ℕ → T.BlockNumber} {w : Choosing T ℕ} {i : ℕ}
    (hstart : w.phase i = .start) :
    ∃ (tr : List (ChoosingLabel T ℕ))
      (result : Except (MutateStorageError T.BlockNumber Unit) T.BlockNumber),
      run (chooseStep blockNumber) w tr =
        some ⟨(chooseTransactionType (blockNumber i) w.shared w.shared).1,
          Function.update w.phase i (.finished result)⟩ ∧
      (chooseTransactionType (blockNumber i) w.shared w.shared).2 = transactionType result :=
  ⟨_, _, Cas.run_alone hstart, rfl⟩

/-- **The run is one of the interleavings** of `chooseStep`, with one worker for each block. -/
theorem exists_run_modeAt (s : T.BlockNumber) (n : ℕ) :
    ∃ (tr : List (ChoosingLabel T ℕ)) (w : Choosing T ℕ),
      run (chooseStep fun k => s + BitVec.ofNat _ k) ⟨none, fun _ => .start⟩ tr = some w ∧
      w.shared = lastSendBefore s n ∧ (∀ k < n, answer w k = some (modeAt s k)) ∧
      ∀ k, n ≤ k → w.phase k = .start := by
  induction n with
  | zero => exact ⟨[], _, run_nil _, rfl, fun k hk => absurd hk (Nat.not_lt_zero k), fun _ _ => rfl⟩
  | succ n ih =>
      obtain ⟨tr, w, hrun, hshared, hanswers, hstart⟩ := ih
      obtain ⟨tr', result, hcall, hmode⟩ := exists_run_call (hstart n le_rfl)
      rw [hshared] at hcall hmode
      refine ⟨_, _, run_append_eq_some.mpr ⟨w, hrun, hcall⟩, rfl, ?_, ?_⟩
      · intro k hk
        rcases Nat.lt_succ_iff_lt_or_eq.mp hk with hlt | rfl
        · rw [← hanswers k hlt]
          simp only [answer, Function.update_of_ne hlt.ne]
        · simp only [answer, Function.update_self]
          exact congrArg some hmode.symm
      · intro k hk
        rw [Workers.phase_update, if_neg (by omega)]
        exact hstart k (by omega)

/-! ## The runtime -/

/-- **Not every mode is used.** Whatever the block in which the worker of the runtime first runs:
some mode is never used, for `Raw` is not; and as long as the block numbers do not wrap the worker
sends in every third block, and always in the mode of the first.
Source: `choose_transaction_type`, `GracePeriod` -/
theorem not_every_mode_used (verify : Sr25519Verify)
    (s : (exampleOffchainWorker verify).BlockNumber) :
    ¬ EveryModeUsed s ∧ (∀ k, modeAt s k ≠ .raw) ∧
      ∀ k, s.toNat + k + 3 ≤ 2 ^ 32 → modeAt s k = if 3 ∣ k then modeOf s else .none := by
  refine ⟨?_, modeAt_ne_raw s, ?_⟩
  · intro hused
    obtain ⟨k, hraw⟩ := hused .raw (by decide)
    exact modeAt_ne_raw s k hraw
  · have hgrace : (exampleOffchainWorker verify).gracePeriod.toNat = 3 := rfl
    have hpos : 0 < (exampleOffchainWorker verify).gracePeriod.toNat := by omega
    intro k hk
    exact modeAt_of_three_dvd hpos hk (dvd_of_eq hgrace.symm)

/-- A worker that first runs in block 1 sends for any account, in every third block. -/
theorem only_for_any_account :
    ¬ EveryModeUsed (T := noSignatures) 1 ∧
      (List.range 7).map (modeAt (T := noSignatures) 1) =
        [.unsignedForAny, .none, .none, .unsignedForAny, .none, .none, .unsignedForAny] := by
  refine ⟨?_, by decide⟩
  intro hused
  obtain ⟨k, hraw⟩ := hused .raw (by decide)
  exact modeAt_ne_raw _ k hraw

end OffchainPallets.ExampleOffchainWorker
