import Mathlib.Data.Nat.Log
import OffchainPallets.Lib.Phases
import OffchainPallets.Runtime

/-!
# The mortality of the transactions that the workers sign

`create_transaction` of the runtime, with the mortal eras of `sp_runtime` and the block hashes that
`frame_system` keeps (`SystemState.kept`). Numbers of blocks are `u32` and are computed with as
`u64`, so nothing overflows.

* `mortality_fits_iff` — a transaction that is alive is rejected as having an ancient birth block
  once more than `BlockHashCount` blocks have followed its birth. Its era is 4096 blocks long.
-/

namespace OffchainPallets.Runtime

open Lib

/-! ## Eras -/

/-- `sp_runtime::generic::Era`. -/
inductive Era where
  | immortal
  | mortal (period phase : ℕ)
  deriving DecidableEq, Repr

namespace Era

/-- The length of an era, from the one asked for: a power of two from 4 to `2^16`. -/
def roundedPeriod (period : ℕ) : ℕ := min (max (2 ^ Nat.clog 2 period) 4) (2 ^ 16)

/-- `Era::mortal(period, current)`. -/
def mortalFrom (period current : ℕ) : Era :=
  let period := roundedPeriod period
  let phase := current % period
  let quantizeFactor := max (period / 2 ^ 12) 1
  .mortal period (phase / quantizeFactor * quantizeFactor)

/-- `Era::birth(current)`. -/
def birth : Era → ℕ → ℕ
  | .immortal, _ => 0
  | .mortal period phase, current => lastAtPhase period phase current

/-- `Era::death(current)`. -/
def death : Era → ℕ → ℕ
  | .immortal, _ => 2 ^ 64 - 1
  | .mortal period phase, current => lastAtPhase period phase current + period

/-- An era of at most 4096 blocks is not quantised. -/
theorem mortalFrom_eq {period : ℕ} (h : roundedPeriod period ≤ 2 ^ 12) (current : ℕ) :
    mortalFrom period current =
      .mortal (roundedPeriod period) (current % roundedPeriod period) := by
  have hdiv : roundedPeriod period / 2 ^ 12 ≤ 1 := Nat.div_le_of_le_mul (by omega)
  have hone : max (roundedPeriod period / 2 ^ 12) 1 = 1 := max_eq_right hdiv
  simp only [mortalFrom, hone, Nat.div_one, Nat.mul_one]

/-- While it lasts, an era of at most 4096 blocks has the block it was made for as its birth. -/
theorem birth_mortalFrom {period current m : ℕ} (h : roundedPeriod period ≤ 2 ^ 12)
    (hm : current ≤ m) (hlive : m < current + roundedPeriod period) :
    (mortalFrom period current).birth m = current := by
  rw [mortalFrom_eq h]
  exact lastAtPhase_mod hm hlive

theorem death_mortalFrom {period current m : ℕ} (h : roundedPeriod period ≤ 2 ^ 12)
    (hm : current ≤ m) (hlive : m < current + roundedPeriod period) :
    (mortalFrom period current).death m = current + roundedPeriod period := by
  have hbirth := birth_mortalFrom h hm hlive
  rw [mortalFrom_eq h] at hbirth ⊢
  simpa [death, birth] using hbirth

end Era

/-! ## The state -/

/-- `BlockHashCount`. -/
def blockHashCount : ℕ := 2400

/-- The state of `frame_system` in a block: its number, and the hashes of earlier blocks, of which
the last `BlockHashCount` are kept. -/
structure SystemState (Hash : Type) where
  number : system.BlockNumber
  blockHash : ℕ → Option Hash
  kept : ∀ b, (blockHash b).isSome ↔ b < number.toNat ∧ number.toNat ≤ b + blockHashCount

variable {Call Hash : Type}

/-- `CheckEra::additional_signed`: the hash of the birth block, `none` for `AncientBirthBlock`. -/
def SystemState.checkEra (s : SystemState Hash) (era : Era) : Option Hash :=
  s.blockHash (era.birth s.number.toNat)

/-- The state at a block, with hashes that are the numbers of the blocks. -/
def SystemState.atBlock (n : system.BlockNumber) : SystemState ℕ where
  number := n
  blockHash b := if b < n.toNat ∧ n.toNat ≤ b + blockHashCount then some b else none
  kept b := by split_ifs with h <;> simp [h]

/-! ## `create_transaction` -/

/-- `SignedExtra`, without the extensions that hold no data. -/
structure SignedExtra where
  era : Era
  nonce : UInt32
  tip : ℕ
  deriving DecidableEq, Repr

/-- With `C::sign` as a parameter. It signs the call, the extra, and the hash that `CheckEra` adds;
without this hash there is no payload.
Source: `create_transaction` -/
def createTransaction (s : SystemState Hash)
    (sign : Call × SignedExtra × Hash → MultiSigner → Option MultiSignature) (call : Call)
    (signer : MultiSigner) (account : system.AccountId) (index : UInt32) :
    Option (Call × system.AccountId × MultiSignature × SignedExtra) := do
  let period := blockHashCount
  let currentBlock := s.number.toNat - 1
  let tip := 0
  let extra : SignedExtra := ⟨.mortalFrom period currentBlock, index, tip⟩
  let birthHash ← s.checkEra extra.era
  let signature ← sign (call, extra, birthHash) signer
  some (call, account, signature, extra)

theorem roundedPeriod_blockHashCount : Era.roundedPeriod blockHashCount = 4096 := by decide

section

variable {s s' : SystemState Hash}
  {sign : Call × SignedExtra × Hash → MultiSigner → Option MultiSignature}
  {call call' : Call} {signer : MultiSigner} {account account' : system.AccountId}
  {index : UInt32} {signature : MultiSignature} {extra : SignedExtra}

/-- A transaction carries the era that was made for the block before. -/
theorem era_of_createTransaction
    (h : createTransaction s sign call signer account index =
      some (call', account', signature, extra)) :
    extra.era = .mortalFrom blockHashCount (s.number.toNat - 1) := by
  simp only [createTransaction, Option.bind_eq_bind, Option.bind_eq_some_iff, Option.some.injEq,
    Prod.mk.injEq] at h
  obtain ⟨-, -, -, -, -, -, -, rfl⟩ := h
  rfl

theorem number_pos (hn : s.number ≠ 0) : 0 < s.number.toNat := by
  rw [Nat.pos_iff_ne_zero]
  intro hzero
  exact hn (BitVec.eq_of_toNat_eq hzero)

/-- What is asked of an era made in the state `s`, at the block of `s'`: it was born in the block
before `s`, whose hash `s` has, and as long as it lives the hash of its birth block is kept. -/
def Era.Fits (era : Era) (s s' : SystemState Hash) : Prop :=
  era.birth s.number.toNat = s.number.toNat - 1 ∧ (s.checkEra era).isSome ∧
    (s.number ≤ s'.number → s'.number.toNat < era.death s.number.toNat →
      (s'.checkEra era).isSome)

/-- **The era outlives the hashes.** A transaction that was created after the genesis block fits at
a block exactly when this is at most `BlockHashCount` blocks after the birth block, or after the
end of the era.
Source: `create_transaction`, `BlockHashCount` -/
theorem mortality_fits_iff (hn : s.number ≠ 0)
    (h : createTransaction s sign call signer account index =
      some (call', account', signature, extra)) :
    extra.era.Fits s s' ↔
      s'.number.toNat ≤ s.number.toNat - 1 + blockHashCount ∨
        s.number.toNat - 1 + 4096 ≤ s'.number.toNat := by
  have hpos := number_pos hn
  have hcount : blockHashCount = 2400 := rfl
  have hrounded := roundedPeriod_blockHashCount
  have hle : Era.roundedPeriod blockHashCount ≤ 2 ^ 12 := by omega
  have hbirth : extra.era.birth s.number.toNat = s.number.toNat - 1 := by
    rw [era_of_createTransaction h]
    exact Era.birth_mortalFrom hle (by omega) (by omega)
  have hdeath : extra.era.death s.number.toNat = s.number.toNat - 1 + 4096 := by
    rw [era_of_createTransaction h, Era.death_mortalFrom hle (by omega) (by omega), hrounded]
  have hstored : (s.checkEra extra.era).isSome := by
    rw [SystemState.checkEra, hbirth, s.kept]
    omega
  -- as long as it lives, the era has the same birth block
  have hlater : s.number.toNat ≤ s'.number.toNat → s'.number.toNat < s.number.toNat - 1 + 4096 →
      ((s'.checkEra extra.era).isSome ↔
        s'.number.toNat ≤ s.number.toNat - 1 + blockHashCount) := by
    intro hm hlive
    have hsame : extra.era.birth s'.number.toNat = s.number.toNat - 1 := by
      rw [era_of_createTransaction h]
      exact Era.birth_mortalFrom hle (by omega) (by omega)
    rw [SystemState.checkEra, hsame, s'.kept]
    omega
  rw [Era.Fits, hdeath, BitVec.le_def]
  constructor
  · rintro ⟨-, -, hfits⟩
    by_contra hnot
    rw [not_or, not_le, not_le] at hnot
    have hm : s.number.toNat ≤ s'.number.toNat := by omega
    exact absurd ((hlater hm hnot.2).mp (hfits hm hnot.2)) (not_le.mpr hnot.1)
  · intro hwindow
    refine ⟨hbirth, hstored, ?_⟩
    intro hm hlive
    rw [hlater hm hlive]
    omega

end

/-- A signature on any payload. -/
def signsAll (_ : Unit × SignedExtra × ℕ) (_ : MultiSigner) : Option MultiSignature :=
  some (.sr25519 (List.Vector.replicate 64 0))

/-- The key of a worker. -/
def workerKey : MultiSigner := .sr25519 (List.Vector.replicate 32 0)

/-- `mortality_fits_iff` for a transaction of block 1, at block 2. -/
theorem mortality_fits_iff_blockOne :
    (Era.mortal 4096 0).Fits (.atBlock 1) (.atBlock 2) ↔
      (SystemState.atBlock 2).number.toNat ≤
          (SystemState.atBlock 1).number.toNat - 1 + blockHashCount ∨
        (SystemState.atBlock 1).number.toNat - 1 + 4096 ≤ (SystemState.atBlock 2).number.toNat := by
  have hcreated : createTransaction (.atBlock 1) signsAll () workerKey
      (List.Vector.replicate 32 0) 0 = some ((), List.Vector.replicate 32 0,
        .sr25519 (List.Vector.replicate 64 0), ⟨.mortal 4096 0, 0, 0⟩) := rfl
  exact @mortality_fits_iff Unit ℕ (.atBlock 1) (.atBlock 2) signsAll () () workerKey _ _ 0 _
    ⟨.mortal 4096 0, 0, 0⟩ (by decide) hcreated

/-- **An era alive without its birth block.** The transaction that is created at block 2 is alive
at block 2402, which has no hash of its birth block.
Source: `create_transaction` -/
theorem alive_without_birth_hash :
    createTransaction (.atBlock 2) signsAll () workerKey (List.Vector.replicate 32 0) 0 =
        some ((), List.Vector.replicate 32 0, .sr25519 (List.Vector.replicate 64 0),
          ⟨.mortal 4096 1, 0, 0⟩) ∧
      (Era.mortal 4096 1).birth 2 = 1 ∧ 2402 < (Era.mortal 4096 1).death 2 ∧
      (SystemState.atBlock 2402).checkEra (.mortal 4096 1) = none := by
  have hbirth : (Era.mortal 4096 1).birth 2402 = 1 := by decide
  have hnumber : (SystemState.atBlock 2402).number.toNat = 2402 := by decide
  refine ⟨rfl, by decide, by decide, ?_⟩
  rw [SystemState.checkEra, hnumber, hbirth]
  rfl

end OffchainPallets.Runtime
