import OffchainPallets.ConstructRuntime
import OffchainPallets.Lib.TagPool

/-!
# A node: the chain and a transaction pool

A node has the state after its best block and a pool. Anyone submits unsigned calls to the pool,
which validates them on the state of the best block as the next block begins, and keeps apart what
provides the same tags (`Lib.TagPool`). Blocks are imported one after the other, from any author and
with any extrinsics the chain accepts, and the pool drops transactions at any time, such as those
that were included.

* `pool_spots` — after every run the pool holds at most one valid price, one number and one signed
  number: three free transactions, whatever was submitted and however the steps interleave.
* `valid_entries_includable` — an author can put all valid entries of the pool into the next block
  together, in the order of the pool.
-/

namespace OffchainPallets.Node

open Lib ConstructRuntime

variable {R : Config}

/-- How the pool validates a call: priority and tags of a call that is valid as the next block
begins. -/
def poolValidity (s : Storage R) (call : Call R) : Option (ℕ × List TransactionTag) :=
  match validateUnsigned (s.beginBlock (s.blockNumber + 1)) call with
  | .ok (.ok v) => some (v.priority.toNat, v.provides)
  | _ => none

/-- An entry of the pool. -/
abbrev Entry (R : Config) := TagPool.Entry (Call R) TransactionTag ℕ

/-- The state after the best block, and the pool. -/
structure State (R : Config) where
  best : Storage R
  pool : List (Entry R)

/-- A node that has imported no block and holds no transaction. -/
def State.start (b₀ : R.BlockNumber) : State R := ⟨.empty b₀, []⟩

/-- An extrinsic of a block, with its result. -/
structure Extrinsic (R : Config) where
  origin : RawOrigin R.AccountId
  call : Call R
  result : Except call.Error Unit

/-- The extrinsic, applied in a block. -/
def Extrinsic.label (block : R.BlockNumber) (x : Extrinsic R) : ConstructRuntime.Label R :=
  .dispatch block x.origin x.call x.result

/-- An entry of the pool as an extrinsic that succeeds. -/
def includes (e : Entry R) : Extrinsic R := ⟨.none, e.request, .ok ()⟩

/-- What happens to a node. -/
inductive Label (R : Config) where
  /-- A call is submitted to the pool, which answers. -/
  | submit (call : Call R) (answer : Except Unit Unit)
  /-- The pool drops the entry at a position. -/
  | drop (i : ℕ)
  /-- The next block is imported. -/
  | importBlock (extrinsics : List (Extrinsic R))

/-- The steps of the next block. -/
def nextBlock (s : Storage R) (extrinsics : List (Extrinsic R)) :
    List (ConstructRuntime.Label R) :=
  .beginBlock (s.blockNumber + 1) :: extrinsics.map (Extrinsic.label (s.blockNumber + 1))

/-- One step of a node. -/
def step (node : State R) : Label R → Option (State R)
  | .submit call answer =>
      let r := TagPool.submit (poolValidity node.best) node.pool call
      if r.2 = answer then some { node with pool := r.1 } else none
  | .drop i => some { node with pool := node.pool.eraseIdx i }
  | .importBlock extrinsics =>
      (run chainStep node.best (nextBlock node.best extrinsics)).map fun best =>
        { node with best := best }

/-! ## Spots -/

/-- What the free transactions of the runtime compete for. -/
inductive Spot where
  | number
  | signedNumber
  | price
  deriving DecidableEq, Repr

/-- The spot of an unsigned call. -/
def spot : Call R → Option Spot
  | .OcwDemo (.submitNumberUnsigned _) => some .number
  | .OcwDemo (.submitNumberUnsignedWithSignedPayload _ _) => some .signedNumber
  | .OcwExample (.submitPriceUnsigned _ _) => some .price
  | .OcwExample (.submitPriceUnsignedWithSignedPayload _ _) => some .price
  | _ => none

/-- The tag of the valid calls for a spot.
Source: `validate_unsigned`, `validate_transaction_parameters` -/
def Spot.tag (s : Storage R) : Spot → TransactionTag
  | .number => Ocw.providedTag "submit_number_unsigned"
  | .signedNumber => Ocw.providedTag "submit_number_unsigned_with_signed_payload"
  | .price => ExampleOffchainWorker.providedTag (T := R.example) s.nextUnsignedAt

/-! ## What an entry remembers -/

/-- An entry of the pool, against the state of the chain: it provides the tag of its spot, a price
the tag of the `NextUnsignedAt` it was validated with. If that has changed since, the block number
the price claims is over; it is at most `bound` in any case. -/
def Stamped (bound : ℕ) (s : Storage R) (e : Entry R) : Prop :=
  match e.request with
  | .TemplateModule _ => False
  | .OcwDemo call => ∃ v, Ocw.validateUnsigned call = .ok v ∧ e.provides = v.provides
  | .OcwExample call => ∃ b next, call.claim = some b ∧
      e.provides = [ExampleOffchainWorker.providedTag (T := R.example) next] ∧
      next ≤ b ∧ b.toNat ≤ bound ∧ (next = s.nextUnsignedAt ∨ b < s.nextUnsignedAt)

/-- What every state of a node satisfies, as long as block numbers have room. -/
structure Sound (node : State R) : Prop where
  bounded : node.best.prices.length ≤ ExampleOffchainWorker.MAX_LEN
  apart : TagPool.Apart node.pool
  stamped : ∀ e ∈ node.pool, Stamped (node.best.blockNumber.toNat + 1) node.best e

theorem Sound.start (b₀ : R.BlockNumber) : Sound (State.start b₀) where
  bounded := Nat.zero_le _
  apart := List.Pairwise.nil
  stamped := by
    intro e he
    cases he

/-- The next block has a number. -/
theorem toNat_next {n : R.BlockNumber} (hpos : 0 < R.unsignedInterval)
    (hfit : ExampleOffchainWorker.Fits R.example n) : (n + 1).toNat = n.toNat + 1 := by
  have hinterval : 0 < R.unsignedInterval.toNat := toNat_pos hpos
  have hroom : n.toNat + R.unsignedInterval.toNat < 2 ^ (8 * R.blockNumberBytes) := hfit
  exact toNat_add_one (by omega)

/-- What the pool finds valid, by pallet. -/
theorem poolValidity_eq_some {s : Storage R} {call : Call R} {priority : ℕ}
    {provides : List TransactionTag}
    (h : poolValidity s call = some (priority, provides)) :
    ∃ v, validateUnsigned (s.beginBlock (s.blockNumber + 1)) call = .ok (.ok v) ∧
      priority = v.priority.toNat ∧ provides = v.provides := by
  unfold poolValidity at h
  split at h
  · rename_i v hv
    cases h
    exact ⟨v, hv, rfl, rfl⟩
  · cases h

theorem validateUnsigned_ocwDemo {s : Storage R} {call : Ocw.Call R.ocw} {v : ValidTransaction} :
    validateUnsigned s (.OcwDemo call) = .ok (.ok v) ↔ Ocw.validateUnsigned call = .ok v := by
  simp only [validateUnsigned]
  cases Ocw.validateUnsigned call <;> simp [Except.mapError]

theorem validateUnsigned_ocwExample {s : Storage R}
    {call : ExampleOffchainWorker.Call R.example} {v : ValidTransaction} :
    validateUnsigned s (.OcwExample call) = .ok (.ok v) ↔
      ExampleOffchainWorker.validateUnsigned s.ocwExample call = .ok (.ok v) := by
  simp only [validateUnsigned]
  rcases ExampleOffchainWorker.validateUnsigned s.ocwExample call with e | e | v' <;>
    simp [Except.map, Except.mapError]

/-- When the pool finds a price valid. -/
theorem price_valid_iff {s : Storage R} {call : ExampleOffchainWorker.Call R.example}
    {v : ValidTransaction} (hbounded : s.prices.length ≤ ExampleOffchainWorker.MAX_LEN) :
    validateUnsigned (s.beginBlock (s.blockNumber + 1)) (.OcwExample call) =
        .ok (.ok v) ↔
      ∃ b, call.claim = some b ∧ s.nextUnsignedAt ≤ b ∧ b ≤ s.blockNumber + 1 ∧
        v = ExampleOffchainWorker.validTransaction s.ocwExample call.price := by
  rw [validateUnsigned_ocwExample, ExampleOffchainWorker.validateUnsigned_eq_valid_iff]
  · rfl
  · exact hbounded

/-- **Validation stamps.** -/
theorem stamped_of_valid {s : Storage R} {e : Entry R}
    (hbounded : s.prices.length ≤ ExampleOffchainWorker.MAX_LEN)
    (hnext : (s.blockNumber + 1).toNat = s.blockNumber.toNat + 1)
    (hvalid : poolValidity s e.request = some (e.priority, e.provides)) :
    Stamped (s.blockNumber.toNat + 1) s e := by
  obtain ⟨v, hv, -, hprovides⟩ := poolValidity_eq_some hvalid
  unfold Stamped
  cases hcall : e.request with
  | TemplateModule call =>
      rw [hcall] at hv
      cases hv
  | OcwDemo call =>
      rw [hcall, validateUnsigned_ocwDemo] at hv
      exact ⟨v, hv, hprovides⟩
  | OcwExample call =>
      rw [hcall, price_valid_iff hbounded] at hv
      obtain ⟨b, hb, hle, hcur, rfl⟩ := hv
      refine ⟨b, s.nextUnsignedAt, hb, hprovides, hle, ?_, Or.inl rfl⟩
      rw [← hnext]
      exact BitVec.le_def.mp hcur

theorem Stamped.mono {s : Storage R} {e : Entry R} {bound bound' : ℕ} (h : Stamped bound s e)
    (hle : bound ≤ bound') : Stamped bound' s e := by
  unfold Stamped at h ⊢
  cases hcall : e.request with
  | TemplateModule call => simp [hcall] at h
  | OcwDemo call => simpa [hcall] using h
  | OcwExample call =>
      simp only [hcall] at h
      obtain ⟨b, next, hb, hprovides, hopen, hlast, hnow⟩ := h
      exact ⟨b, next, hb, hprovides, hopen, hlast.trans hle, hnow⟩

/-- **A step of the chain keeps the stamps**, if all that was claimed before is due. -/
theorem Stamped.chainStep {s s' : Storage R} {l : ConstructRuntime.Label R} {e : Entry R}
    {bound : ℕ} (hpos : 0 < R.unsignedInterval)
    (hbounded : s.prices.length ≤ ExampleOffchainWorker.MAX_LEN)
    (hfit : ExampleOffchainWorker.Fits R.example s.blockNumber)
    (hbound : bound ≤ s.blockNumber.toNat)
    (h : Stamped bound s e) (hstep : ConstructRuntime.chainStep s l = some s') :
    Stamped bound s' e := by
  have hnext : s'.nextUnsignedAt = s.nextUnsignedAt ∨
      s'.nextUnsignedAt = s.blockNumber + R.unsignedInterval := by
    rcases exampleStep_of_chainStep hstep with hsame | ⟨l', -, hstep'⟩
    · exact Or.inl (congrArg ExampleOffchainWorker.Storage.nextUnsignedAt hsame)
    · exact ExampleOffchainWorker.nextUnsignedAt_of_step (s := s.ocwExample) hbounded
        (ExampleOffchainWorker.step_of_chainStep hstep')
  unfold Stamped at h ⊢
  cases hcall : e.request with
  | TemplateModule call => simp [hcall] at h
  | OcwDemo call => simpa [hcall] using h
  | OcwExample call =>
      simp only [hcall] at h
      obtain ⟨b, next, hb, hprovides, hle, hlast, hnow⟩ := h
      refine ⟨b, next, hb, hprovides, hle, hlast, ?_⟩
      rcases hnext with hsame | hlater
      · rwa [hsame]
      · -- the claim is over
        right
        have hinterval : 0 < R.unsignedInterval.toNat := toNat_pos hpos
        have hroom : s.blockNumber.toNat + R.unsignedInterval.toNat <
            2 ^ (8 * R.blockNumberBytes) := hfit
        rw [hlater, BitVec.lt_def, BitVec.toNat_add, Nat.mod_eq_of_lt hroom]
        omega

/-- **Any steps of the chain keep the stamps.** -/
theorem Stamped.run {s s' : Storage R} {tr : List (ConstructRuntime.Label R)} {e : Entry R}
    {bound : ℕ} (hpos : 0 < R.unsignedInterval)
    (hbounded : s.prices.length ≤ ExampleOffchainWorker.MAX_LEN)
    (hbound : bound ≤ s.blockNumber.toNat) (h : Stamped bound s e)
    (hrun : Lib.run ConstructRuntime.chainStep s tr = some s')
    (hfit : ExampleOffchainWorker.Fits R.example s'.blockNumber) :
    bound ≤ s'.blockNumber.toNat ∧ Stamped bound s' e := by
  have hinv : s'.prices.length ≤ ExampleOffchainWorker.MAX_LEN ∧
      bound ≤ s'.blockNumber.toNat ∧
      (ExampleOffchainWorker.Fits R.example s'.blockNumber → Stamped bound s' e) := by
    refine run_induction (P := fun u => u.prices.length ≤ ExampleOffchainWorker.MAX_LEN ∧
      bound ≤ u.blockNumber.toNat ∧
      (ExampleOffchainWorker.Fits R.example u.blockNumber → Stamped bound u e)) ?_
      ⟨hbounded, hbound, fun _ => h⟩ hrun
    rintro u l u' ⟨hu, hle, hstamped⟩ hstep
    have hnumber := number_le_of_chainStep hstep
    refine ⟨bounded_of_run hu (run_cons_eq_some.mpr ⟨u', hstep, run_nil u'⟩),
      hle.trans (BitVec.le_def.mp hnumber), ?_⟩
    intro hfit'
    have hfit := hfit'.of_le hnumber
    exact (hstamped hfit).chainStep hpos hu hfit hle hstep
  exact ⟨hinv.2.1, hinv.2.2 hfit⟩

/-- A block that is imported begins after the one before. -/
theorem run_of_importBlock {node node' : State R} {extrinsics : List (Extrinsic R)}
    (h : step node (.importBlock extrinsics) = some node') :
    node'.pool = node.pool ∧ node.best.blockNumber < node.best.blockNumber + 1 ∧
      run chainStep (node.best.beginBlock (node.best.blockNumber + 1))
        (extrinsics.map (Extrinsic.label (node.best.blockNumber + 1))) = some node'.best := by
  simp only [step, nextBlock, Option.map_eq_some_iff] at h
  obtain ⟨best, hrun, rfl⟩ := h
  obtain ⟨u, hu, hrest⟩ := run_cons_eq_some.mp hrun
  rw [chainStep, Option.ite_none_right_eq_some, Option.some.injEq] at hu
  obtain ⟨hlt, rfl⟩ := hu
  exact ⟨rfl, hlt, hrest⟩

/-- The best block never goes back. -/
theorem best_le_of_step {node node' : State R} {l : Label R} (h : step node l = some node') :
    node.best.blockNumber ≤ node'.best.blockNumber := by
  cases l with
  | submit call answer =>
      simp only [step, Option.ite_none_right_eq_some, Option.some.injEq] at h
      obtain ⟨-, rfl⟩ := h
      exact BitVec.le_refl _
  | drop i =>
      cases h
      exact BitVec.le_refl _
  | importBlock extrinsics =>
      obtain ⟨-, hlt, hrun⟩ := run_of_importBlock h
      refine BitVec.le_trans (BitVec.le_of_lt hlt) ?_
      exact run_induction (P := fun u => node.best.blockNumber + 1 ≤ u.blockNumber)
        (fun _ _ _ hu hstep => BitVec.le_trans hu (number_le_of_chainStep hstep))
        (BitVec.le_refl _) hrun

/-- **One step of a node.** -/
theorem Sound.step {node node' : State R} {l : Label R} (hpos : 0 < R.unsignedInterval)
    (hfit' : ExampleOffchainWorker.Fits R.example node'.best.blockNumber) (h : Sound node)
    (hstep : Node.step node l = some node') : Sound node' := by
  have hfit := hfit'.of_le (best_le_of_step hstep)
  have hnext := toNat_next hpos hfit
  cases l with
  | submit call answer =>
      simp only [Node.step, Option.ite_none_right_eq_some, Option.some.injEq] at hstep
      obtain ⟨-, rfl⟩ := hstep
      refine ⟨h.bounded, h.apart.submit call, ?_⟩
      intro e he
      rcases TagPool.mem_submit he with he | ⟨rfl, hvalid⟩
      · exact h.stamped e he
      · exact stamped_of_valid h.bounded hnext hvalid
  | drop i =>
      cases hstep
      exact ⟨h.bounded, h.apart.sublist (List.eraseIdx_sublist node.pool i), fun e he =>
        h.stamped e (List.mem_of_mem_eraseIdx he)⟩
  | importBlock extrinsics =>
      obtain ⟨hpool, -, hrun⟩ := run_of_importBlock hstep
      have hbounded : (node.best.beginBlock (node.best.blockNumber + 1)).prices.length ≤
          ExampleOffchainWorker.MAX_LEN := h.bounded
      refine ⟨bounded_of_run hbounded hrun, hpool ▸ h.apart, ?_⟩
      intro e he
      rw [hpool] at he
      have hbefore : Stamped (node.best.blockNumber.toNat + 1)
          (node.best.beginBlock (node.best.blockNumber + 1)) e := h.stamped e he
      -- the next block has the largest number that an entry may claim
      obtain ⟨hle, hstamped⟩ := hbefore.run hpos hbounded (le_of_eq hnext.symm) hrun hfit'
      exact hstamped.mono (hle.trans (Nat.le_succ _))

theorem sound_of_run {b₀ : R.BlockNumber} {tr : List (Label R)} {node : State R}
    (hpos : 0 < R.unsignedInterval) (hrun : run step (State.start b₀) tr = some node)
    (hfit : ExampleOffchainWorker.Fits R.example node.best.blockNumber) : Sound node := by
  have hinv : ExampleOffchainWorker.Fits R.example node.best.blockNumber → Sound node := by
    refine run_induction (P := fun node : State R =>
      ExampleOffchainWorker.Fits R.example node.best.blockNumber → Sound node) ?_
      (fun _ => Sound.start b₀) hrun
    intro node l node' hnode hstep hfit'
    exact (hnode (hfit'.of_le (best_le_of_step hstep))).step hpos hfit' hstep
  exact hinv hfit

/-! ## Spots and tags -/

/-- The tags of the two pallets begin differently. -/
theorem tags_apart (provide : String) (next : R.BlockNumber) :
    Ocw.providedTag provide ≠ ExampleOffchainWorker.providedTag (T := R.example) next := by
  intro h
  have hocw : (Ocw.providedTag provide).head? = some 32 := rfl
  have hexample : (ExampleOffchainWorker.providedTag (T := R.example) next).head? = some 84 := rfl
  rw [h, hexample] at hocw
  exact absurd hocw (by decide)

/-- Different spots have different tags, whatever the state. -/
theorem Spot.tag_injective (s : Storage R) : Function.Injective (Spot.tag s) := by
  have hkinds : Ocw.providedTag "submit_number_unsigned" ≠
      Ocw.providedTag "submit_number_unsigned_with_signed_payload" := by decide
  intro x y h
  cases x <;> cases y
  case number.number => rfl
  case signedNumber.signedNumber => rfl
  case price.price => rfl
  case number.signedNumber => exact absurd h hkinds
  case signedNumber.number => exact absurd h.symm hkinds
  case number.price => exact absurd h (tags_apart _ _)
  case signedNumber.price => exact absurd h (tags_apart _ _)
  case price.number => exact absurd h.symm (tags_apart _ _)
  case price.signedNumber => exact absurd h.symm (tags_apart _ _)

/-- A number that is valid provides the tag of its spot. -/
theorem spot_of_number {call : Ocw.Call R.ocw} {v : ValidTransaction}
    (h : Ocw.validateUnsigned call = .ok v) (s : Storage R) :
    ∃ x, spot (.OcwDemo call) = some x ∧ v.provides = [Spot.tag s x] := by
  cases call with
  | submitNumberSigned number => cases h
  | submitNumberUnsigned number => exact ⟨.number, rfl, Ocw.provides_of_validTx h⟩
  | submitNumberUnsignedWithSignedPayload payload signature =>
      simp only [Ocw.validateUnsigned] at h
      split_ifs at h with hbad
      exact ⟨.signedNumber, rfl, Ocw.provides_of_validTx h⟩

theorem spot_of_price {call : ExampleOffchainWorker.Call R.example} {b : R.BlockNumber}
    (h : call.claim = some b) : spot (.OcwExample call) = some .price := by
  cases call with
  | submitPrice price => cases h
  | submitPriceUnsigned b price => rfl
  | submitPriceUnsignedWithSignedPayload payload signature => rfl

/-- **An entry provides the tag of a spot exactly when it is for that spot and still valid.** -/
theorem tag_mem_iff {s : Storage R} {e : Entry R} (x : Spot)
    (hbounded : s.prices.length ≤ ExampleOffchainWorker.MAX_LEN)
    (hnext : (s.blockNumber + 1).toNat = s.blockNumber.toNat + 1)
    (h : Stamped (s.blockNumber.toNat + 1) s e) :
    x.tag s ∈ e.provides ↔ spot e.request = some x ∧ (poolValidity s e.request).isSome := by
  unfold Stamped at h
  cases hcall : e.request with
  | TemplateModule call => simp [hcall] at h
  | OcwDemo call =>
      simp only [hcall] at h
      obtain ⟨v, hv, hprovides⟩ := h
      obtain ⟨y, hy, htag⟩ := spot_of_number hv s
      have hvalid : (poolValidity s (.OcwDemo call)).isSome := by
        unfold poolValidity
        rw [validateUnsigned_ocwDemo.mpr hv]
        rfl
      rw [hprovides, htag, List.mem_singleton, hy, Option.some.injEq,
        (Spot.tag_injective s).eq_iff]
      simp [hvalid, eq_comm]
  | OcwExample call =>
      simp only [hcall] at h
      obtain ⟨b, next, hb, hprovides, hopen, hlast, hnow⟩ := h
      have hvalid : (poolValidity s (.OcwExample call)).isSome ↔ next = s.nextUnsignedAt := by
        rw [Option.isSome_iff_exists]
        constructor
        · rintro ⟨⟨priority, provides⟩, hvalid⟩
          obtain ⟨v, hv, -, -⟩ := poolValidity_eq_some hvalid
          obtain ⟨b', hb', hle, -, -⟩ := (price_valid_iff hbounded).mp hv
          obtain rfl : b = b' := Option.some.inj (hb.symm.trans hb')
          rcases hnow with hsame | hover
          · exact hsame
          · exact absurd hle (BitVec.not_le.mpr hover)
        · rintro rfl
          have hcur : b ≤ s.blockNumber + 1 := by
            rwa [BitVec.le_def, hnext]
          have hv := (price_valid_iff hbounded).mpr ⟨b, hb, hopen, hcur, rfl⟩
          unfold poolValidity
          rw [hv]
          exact ⟨_, rfl⟩
      have htag : x.tag s = ExampleOffchainWorker.providedTag (T := R.example) next ↔
          x = .price ∧ next = s.nextUnsignedAt := by
        cases x with
        | number => exact iff_of_false (tags_apart _ next) (by simp)
        | signedNumber => exact iff_of_false (tags_apart _ next) (by simp)
        | price =>
            simp only [Spot.tag, true_and]
            rw [(ExampleOffchainWorker.providedTag_injective (T := R.example)).eq_iff, eq_comm]
      rw [hprovides, List.mem_singleton, htag, spot_of_price hb, hvalid, Option.some.injEq,
        eq_comm (a := x)]

/-- The entries that are valid as the next block begins. -/
def validEntries (node : State R) : List (Entry R) :=
  node.pool.filter fun e => (poolValidity node.best e.request).isSome

section

variable {b₀ : R.BlockNumber} {tr : List (Label R)} {node : State R}

theorem Sound.tag_mem_iff (h : Sound node) (hpos : 0 < R.unsignedInterval)
    (hfit : ExampleOffchainWorker.Fits R.example node.best.blockNumber) {e : Entry R}
    (he : e ∈ node.pool) (x : Spot) :
    x.tag node.best ∈ e.provides ↔
      spot e.request = some x ∧ (poolValidity node.best e.request).isSome :=
  Node.tag_mem_iff x h.bounded (toNat_next hpos hfit) (h.stamped e he)

theorem Sound.apart_validEntries (h : Sound node) : TagPool.Apart (validEntries node) :=
  h.apart.sublist List.filter_sublist

theorem Sound.tag_of_validEntries (h : Sound node) (hpos : 0 < R.unsignedInterval)
    (hfit : ExampleOffchainWorker.Fits R.example node.best.blockNumber) :
    ∀ e ∈ validEntries node, ∀ x, spot e.request = some x → x.tag node.best ∈ e.provides := by
  intro e he x hx
  obtain ⟨he, hvalid⟩ := List.mem_filter.mp he
  exact (h.tag_mem_iff hpos hfit he x).mpr ⟨hx, hvalid⟩

/-- Every entry is for a spot. -/
theorem spot_of_stamped {bound : ℕ} {s : Storage R} {e : Entry R} (h : Stamped bound s e) :
    ∃ x, spot e.request = some x := by
  unfold Stamped at h
  cases hcall : e.request with
  | TemplateModule call => simp [hcall] at h
  | OcwDemo call =>
      simp only [hcall] at h
      obtain ⟨v, hv, -⟩ := h
      obtain ⟨x, hx, -⟩ := spot_of_number hv s
      exact ⟨x, hx⟩
  | OcwExample call =>
      simp only [hcall] at h
      obtain ⟨b, next, hb, -⟩ := h
      exact ⟨.price, spot_of_price hb⟩

/-- An entry provides one tag. -/
theorem provides_of_stamped {bound : ℕ} {s : Storage R} {e : Entry R} (h : Stamped bound s e) :
    ∃ tag, e.provides = [tag] := by
  unfold Stamped at h
  cases hcall : e.request with
  | TemplateModule call => simp [hcall] at h
  | OcwDemo call =>
      simp only [hcall] at h
      obtain ⟨v, hv, hprovides⟩ := h
      obtain ⟨x, -, htag⟩ := spot_of_number hv s
      exact ⟨_, hprovides.trans htag⟩
  | OcwExample call =>
      simp only [hcall] at h
      obtain ⟨b, next, -, hprovides, -⟩ := h
      exact ⟨_, hprovides⟩

/-- **Three free transactions.** In every state that a node reaches, from a state without blocks and
transactions and as long as block numbers have room for `UnsignedInterval`, which is not zero:
no two entries of its pool provide a tag in common;
every entry is for one of the three spots, and of the entries for a spot one at most is valid as the
next block begins, so that at most three entries of the pool are.
Source: `validate_unsigned`, `validate_transaction_parameters` -/
theorem pool_spots (hpos : 0 < R.unsignedInterval)
    (hrun : run step (State.start b₀) tr = some node)
    (hfit : ExampleOffchainWorker.Fits R.example node.best.blockNumber) :
    TagPool.Apart node.pool ∧
    (∀ e ∈ node.pool, ∃ x, spot e.request = some x) ∧
    (∀ x, ((validEntries node).filter fun e => spot e.request = some x).length ≤ 1) ∧
    (validEntries node).length ≤ 3 := by
  have h := sound_of_run hpos hrun hfit
  have hapart := h.apart_validEntries
  have htag := h.tag_of_validEntries hpos hfit
  refine ⟨h.apart, fun e he => spot_of_stamped (h.stamped e he), ?_, ?_⟩
  · intro x
    have hcover : ∀ e ∈ (validEntries node).filter fun e => spot e.request = some x,
        ∃ tag ∈ [x.tag node.best], tag ∈ e.provides := by
      intro e he
      obtain ⟨he, hx⟩ := List.mem_filter.mp he
      exact ⟨_, List.mem_singleton_self _, htag e he x (of_decide_eq_true hx)⟩
    exact (hapart.sublist List.filter_sublist).length_le hcover
  · have hcover : ∀ e ∈ validEntries node, ∃ tag ∈ [Spot.number.tag node.best,
        Spot.signedNumber.tag node.best, Spot.price.tag node.best], tag ∈ e.provides := by
      intro e he
      obtain ⟨x, hx⟩ := spot_of_stamped (h.stamped e (List.mem_filter.mp he).1)
      refine ⟨x.tag node.best, ?_, htag e he x hx⟩
      cases x <;> simp
    exact hapart.length_le hcover

theorem fits_of_eq_one {n : noSignatures.BlockNumber} (h : n = 1) :
    ExampleOffchainWorker.Fits noSignatures.example n := by
  subst h
  show _ < _
  decide

/-- A number and a price for block 1, submitted to a node at block 1. -/
def numberAndPrice : List (Label noSignatures) :=
  [.submit (.OcwDemo (.submitNumberUnsigned 7)) (.ok ()),
    .submit (.OcwExample (.submitPriceUnsigned 1 100)) (.ok ())]

theorem pool_spots_numberAndPrice :
    ∃ node, run step (State.start 1) numberAndPrice = some node ∧ node.pool.length = 2 ∧
      (validEntries node).length ≤ 3 := by
  obtain ⟨node, hrun, hlength, hnumber⟩ : ∃ node,
      run step (State.start 1) numberAndPrice = some node ∧ node.pool.length = 2 ∧
        node.best.blockNumber = 1 := ⟨_, rfl, rfl, rfl⟩
  obtain ⟨-, -, -, hthree⟩ := pool_spots (by decide) hrun (fits_of_eq_one hnumber)
  exact ⟨node, hrun, hlength, hthree⟩

/-- **What keeps a transaction out.** In every state that a node reaches, as long as block numbers
have room for `UnsignedInterval`, the pool refuses a valid call exactly when it holds an entry for
the same spot that is still valid and has at least its priority. Entries for the other spots, and
prices that are over, do not matter.
Source: `validate_unsigned`, `validate_transaction_parameters` -/
theorem submit_accepted_iff (hpos : 0 < R.unsignedInterval)
    (hrun : run step (State.start b₀) tr = some node)
    (hfit : ExampleOffchainWorker.Fits R.example node.best.blockNumber) {call : Call R}
    {priority : ℕ} {provides : List TransactionTag}
    (hvalid : poolValidity node.best call = some (priority, provides)) :
    (step node (.submit call (.ok ()))).isSome ↔
      ∀ e ∈ validEntries node, spot e.request = spot call → e.priority < priority := by
  have h := sound_of_run hpos hrun hfit
  have hnext := toNat_next hpos hfit
  -- the call as an entry of its own
  have hstamped : Stamped (node.best.blockNumber.toNat + 1) node.best
      ⟨call, priority, provides⟩ := stamped_of_valid h.bounded hnext hvalid
  obtain ⟨x, hx⟩ := spot_of_stamped hstamped
  have hspot : spot call = some x := hx
  have hprovides : provides = [x.tag node.best] := by
    have hown := (Node.tag_mem_iff x h.bounded hnext hstamped).mpr ⟨hx, by rw [hvalid]; rfl⟩
    obtain ⟨tag, htag⟩ := provides_of_stamped hstamped
    rw [htag, List.mem_singleton] at hown
    rw [hown]
    exact htag
  have hcollides : ∀ e ∈ node.pool, e.Collides ⟨call, priority, provides⟩ ↔
      spot e.request = some x ∧ (poolValidity node.best e.request).isSome := by
    intro e he
    rw [← h.tag_mem_iff hpos hfit he x, TagPool.Entry.Collides, hprovides]
    simp
  have hstep : (step node (.submit call (.ok ()))).isSome ↔
      (TagPool.insert node.pool ⟨call, priority, provides⟩).2 = .ok () := by
    simp [step, TagPool.submit, hvalid]
  rw [hstep, TagPool.insert_snd_eq_ok_iff, hspot]
  simp only [validEntries, List.mem_filter, not_le]
  constructor
  · rintro hall e ⟨he, hvalid'⟩ hsame
    exact hall e he ((hcollides e he).mpr ⟨hsame, hvalid'⟩)
  · intro hall e he hcollide
    obtain ⟨hsame, hvalid'⟩ := (hcollides e he).mp hcollide
    exact hall e ⟨he, hvalid'⟩ hsame

/-- Another price with the same distance from the average does not get in. -/
theorem submit_accepted_iff_numberAndPrice :
    ∃ node priority provides, run step (State.start 1) numberAndPrice = some node ∧
      poolValidity node.best (.OcwExample (.submitPriceUnsigned 2 300)) =
        some (priority, provides) ∧
      ((step node (.submit (.OcwExample (.submitPriceUnsigned 2 300)) (.ok ()))).isSome ↔
        ∀ e ∈ validEntries node, spot e.request = some .price → e.priority < priority) := by
  obtain ⟨node, hrun, hnumber, hvalid⟩ : ∃ node,
      run step (State.start 1) numberAndPrice = some node ∧ node.best.blockNumber = 1 ∧
        poolValidity node.best (.OcwExample (.submitPriceUnsigned 2 300)) =
          some (3, [ExampleOffchainWorker.providedTag (T := noSignatures.example) 0]) :=
    ⟨_, rfl, rfl, rfl⟩
  exact ⟨node, 3, _, hrun, hvalid,
    submit_accepted_iff (by decide) hrun (fits_of_eq_one hnumber) hvalid⟩

/-! ## Including what is valid -/

/-- A valid unsigned call succeeds. -/
theorem dispatch_of_valid {s : Storage R} {call : Call R} {v : ValidTransaction}
    (hbounded : s.prices.length ≤ ExampleOffchainWorker.MAX_LEN)
    (hvalid : validateUnsigned s call = .ok (.ok v)) :
    ∃ s', dispatch s .none call = .ok (.ok (), s') := by
  cases call with
  | TemplateModule call => cases hvalid
  | OcwDemo call =>
      rw [validateUnsigned_ocwDemo] at hvalid
      refine dispatch_of_ocwDemo (t := s.ocwDemo.submitted call.number none) ?_
      cases call with
      | submitNumberSigned number => cases hvalid
      | submitNumberUnsigned number => rw [Ocw.dispatch_eq]; rfl
      | submitNumberUnsignedWithSignedPayload payload signature => rw [Ocw.dispatch_eq]; rfl
  | OcwExample call =>
      rw [validateUnsigned_ocwExample] at hvalid
      have hbounded' : s.ocwExample.prices.length ≤ ExampleOffchainWorker.MAX_LEN := hbounded
      obtain ⟨b, hb, -⟩ :=
        (ExampleOffchainWorker.validateUnsigned_eq_valid_iff hbounded').mp hvalid
      refine dispatch_of_ocwExample
        (t := s.ocwExample.submitted call R.example.defaultAccountId) ?_
      rw [ExampleOffchainWorker.dispatch_eq_ok hbounded']
      cases call with
      | submitPrice price => cases hb
      | submitPriceUnsigned b price => rfl
      | submitPriceUnsignedWithSignedPayload payload signature => rfl

/-- A valid call of `OcwExample` is for the price. -/
theorem spot_of_valid_price {s : Storage R} {call : ExampleOffchainWorker.Call R.example}
    {v : ValidTransaction} (hbounded : s.prices.length ≤ ExampleOffchainWorker.MAX_LEN)
    (hvalid : validateUnsigned s (.OcwExample call) = .ok (.ok v)) :
    spot (.OcwExample call) = some .price := by
  rw [validateUnsigned_ocwExample] at hvalid
  have hbounded' : s.ocwExample.prices.length ≤ ExampleOffchainWorker.MAX_LEN := hbounded
  obtain ⟨b, hb, -⟩ :=
    (ExampleOffchainWorker.validateUnsigned_eq_valid_iff hbounded').mp hvalid
  exact spot_of_price hb

/-- What a valid unsigned call does to the price oracle: nothing, unless it is a price. -/
theorem ocwExample_of_valid {s s' : Storage R} {call : Call R} {v : ValidTransaction}
    (hbounded : s.prices.length ≤ ExampleOffchainWorker.MAX_LEN)
    (hvalid : validateUnsigned s call = .ok (.ok v))
    (hcall : dispatch s .none call = .ok (.ok (), s')) :
    (spot call ≠ some .price → s'.ocwExample = s.ocwExample) ∧
      (spot call = some .price → s'.nextUnsignedAt = s.blockNumber + R.unsignedInterval) := by
  cases call with
  | TemplateModule call => cases hvalid
  | OcwDemo call =>
      refine ⟨fun _ => (views_of_ocwDemo hcall).2.2.1, ?_⟩
      intro hprice
      cases call <;> cases hprice
  | OcwExample call =>
      have hprice := spot_of_valid_price hbounded hvalid
      refine ⟨fun h => absurd hprice h, fun _ => ?_⟩
      have hown := (views_of_ocwExample hcall).1
      have hbounded' : s.ocwExample.prices.length ≤ ExampleOffchainWorker.MAX_LEN := hbounded
      rw [ExampleOffchainWorker.dispatch_eq_ok hbounded', Except.ok.injEq] at hown
      cases call with
      | submitPrice price => cases hprice
      | submitPriceUnsigned b price =>
          exact congrArg (fun r => r.2.nextUnsignedAt) hown.symm
      | submitPriceUnsignedWithSignedPayload payload signature =>
          exact congrArg (fun r => r.2.nextUnsignedAt) hown.symm

/-- What is valid stays valid while another spot is taken. -/
theorem valid_of_dispatch {s s' : Storage R} {call call' : Call R} {v v' : ValidTransaction}
    (hbounded : s.prices.length ≤ ExampleOffchainWorker.MAX_LEN)
    (hvalid : validateUnsigned s call = .ok (.ok v))
    (hcall : dispatch s .none call = .ok (.ok (), s'))
    (hspots : spot call = some .price → spot call' ≠ some .price)
    (hvalid' : validateUnsigned s call' = .ok (.ok v')) :
    ∃ v, validateUnsigned s' call' = .ok (.ok v) := by
  cases call' with
  | TemplateModule call' => cases hvalid'
  | OcwDemo call' => exact ⟨v', hvalid'⟩
  | OcwExample call' =>
      have hother : spot call ≠ some .price := fun h =>
        hspots h (spot_of_valid_price hbounded hvalid')
      have hsame := (ocwExample_of_valid hbounded hvalid hcall).1 hother
      rw [validateUnsigned_ocwExample, ← hsame] at hvalid'
      exact ⟨v', validateUnsigned_ocwExample.mpr hvalid'⟩

/-- **Valid calls go into a block together**, with at most one price among them; a price starts a
new cool-down. -/
theorem run_includes (es : List (Entry R)) {s : Storage R}
    (hbounded : s.prices.length ≤ ExampleOffchainWorker.MAX_LEN)
    (hvalid : ∀ e ∈ es, ∃ v, validateUnsigned s e.request = .ok (.ok v))
    (hone : es.Pairwise fun e e' =>
      spot e.request = some .price → spot e'.request ≠ some .price) :
    ∃ s', run chainStep s (es.map fun e => (includes e).label s.blockNumber) = some s' ∧
      s'.blockNumber = s.blockNumber ∧
      ((∀ e ∈ es, spot e.request ≠ some .price) → s'.ocwExample = s.ocwExample) ∧
      ((∃ e ∈ es, spot e.request = some .price) →
        s'.nextUnsignedAt = s.blockNumber + R.unsignedInterval) := by
  induction es generalizing s with
  | nil => exact ⟨s, rfl, rfl, fun _ => rfl, by simp⟩
  | cons e es ih =>
      obtain ⟨hfirst, hone⟩ := List.pairwise_cons.mp hone
      obtain ⟨v, hv⟩ := hvalid e List.mem_cons_self
      obtain ⟨u, hu⟩ := dispatch_of_valid hbounded hv
      obtain ⟨hother, hprice⟩ := ocwExample_of_valid hbounded hv hu
      have hnumber := number_of_dispatch hu
      have hstep : chainStep s ((includes e).label s.blockNumber) = some u := by
        refine chainStep_dispatch_eq_some.mpr ⟨?_, rfl, hu⟩
        simp [includes, preDispatch, hv]
      have hbounded' := bounded_of_run hbounded (run_cons_eq_some.mpr ⟨u, hstep, run_nil u⟩)
      obtain ⟨s', hrun, hnumber', hsame, hlast⟩ := ih hbounded' (fun e' he' => by
        obtain ⟨v', hv'⟩ := hvalid e' (List.mem_cons_of_mem e he')
        exact valid_of_dispatch hbounded hv hu (hfirst e' he') hv') hone
      rw [hnumber] at hrun hnumber' hlast
      refine ⟨s', run_cons_eq_some.mpr ⟨u, hstep, hrun⟩, hnumber', ?_, ?_⟩
      · intro hnone
        rw [hsame fun e' he' => hnone e' (List.mem_cons_of_mem e he')]
        exact hother (hnone e List.mem_cons_self)
      · by_cases hrest : ∃ e' ∈ es, spot e'.request = some .price
        · exact fun _ => hlast hrest
        · rintro ⟨e', he', hspot⟩
          rcases List.mem_cons.mp he' with rfl | he'
          · -- the price came first, and nothing after it changes `NextUnsignedAt`
            have hkept := hsame fun e' he' hspot' => hrest ⟨e', he', hspot'⟩
            exact (congrArg ExampleOffchainWorker.Storage.nextUnsignedAt hkept).trans
              (hprice hspot)
          · exact absurd ⟨e', he', hspot⟩ hrest

/-- A price is over once `NextUnsignedAt` is past what it may claim. -/
theorem over_of_lt_next {s s' : Storage R} {e : Entry R} {bound : ℕ} (h : Stamped bound s e)
    (hbounded : s'.prices.length ≤ ExampleOffchainWorker.MAX_LEN)
    (hlater : bound < s'.nextUnsignedAt.toNat) (hspot : spot e.request = some .price) :
    poolValidity s' e.request = none := by
  unfold Stamped at h
  cases hcall : e.request with
  | TemplateModule call => simp [hcall] at h
  | OcwDemo call =>
      rw [hcall] at hspot
      cases call <;> cases hspot
  | OcwExample call =>
      simp only [hcall] at h
      obtain ⟨b, next, hb, -, -, hlast, -⟩ := h
      rw [Option.eq_none_iff_forall_not_mem]
      rintro ⟨priority, provides⟩ hvalid
      obtain ⟨v, hv, -, -⟩ := poolValidity_eq_some hvalid
      obtain ⟨b', hb', hle, -, -⟩ := (price_valid_iff hbounded).mp hv
      obtain rfl : b = b' := Option.some.inj (hb.symm.trans hb')
      have hle' : s'.nextUnsignedAt.toNat ≤ b.toNat := BitVec.le_def.mp hle
      omega

/-- An entry that is valid as the next block begins passes `validate_unsigned` there. -/
theorem validates_of_validEntries {e : Entry R} (he : e ∈ validEntries node) :
    ∃ v, validateUnsigned (node.best.beginBlock (node.best.blockNumber + 1)) e.request =
      .ok (.ok v) := by
  obtain ⟨⟨priority, provides⟩, hv⟩ := Option.isSome_iff_exists.mp (List.mem_filter.mp he).2
  obtain ⟨v, hv, -⟩ := poolValidity_eq_some hv
  exact ⟨v, hv⟩

/-- One price at most is among the entries that are valid. -/
theorem Sound.one_price (h : Sound node) (hpos : 0 < R.unsignedInterval)
    (hfit : ExampleOffchainWorker.Fits R.example node.best.blockNumber) :
    (validEntries node).Pairwise fun e e' =>
      spot e.request = some .price → spot e'.request ≠ some .price := by
  refine h.apart_validEntries.imp_of_mem ?_
  intro e e' he he' hapart hx hx'
  exact hapart ⟨_, h.tag_of_validEntries hpos hfit e he _ hx,
    h.tag_of_validEntries hpos hfit e' he' _ hx'⟩

/-- A block is imported if its extrinsics can be applied one after the other. -/
theorem step_importBlock_includes {es : List (Entry R)} {best : Storage R}
    (hlast : node.best.blockNumber < node.best.blockNumber + 1)
    (hblock : run chainStep (node.best.beginBlock (node.best.blockNumber + 1))
      (es.map fun e => (includes e).label (node.best.blockNumber + 1)) = some best) :
    step node (.importBlock (es.map includes)) = some ⟨best, node.pool⟩ := by
  have hnext : nextBlock node.best (es.map includes) =
      .beginBlock (node.best.blockNumber + 1) ::
        es.map fun e => (includes e).label (node.best.blockNumber + 1) := by
    rw [nextBlock, List.map_map]
    rfl
  have hbegin : chainStep node.best (.beginBlock (node.best.blockNumber + 1)) =
      some (node.best.beginBlock (node.best.blockNumber + 1)) := if_pos hlast
  simp only [step, hnext, Option.map_eq_some_iff]
  exact ⟨best, run_cons_eq_some.mpr ⟨_, hbegin, hblock⟩, rfl⟩

/-- **All that is valid can be included.** In every state that a node reaches, as long as block
numbers have room for `UnsignedInterval`, the next block may consist of all entries of the pool that
are valid as it begins, each applied with success. If there is a price among them, no price of the
pool is valid after that block.
Source: `validate_unsigned`, `validate_transaction_parameters` -/
theorem valid_entries_includable (hpos : 0 < R.unsignedInterval)
    (hrun : run step (State.start b₀) tr = some node)
    (hfit : ExampleOffchainWorker.Fits R.example (node.best.blockNumber + 1))
    (hlast : node.best.blockNumber < node.best.blockNumber + 1) :
    ∃ node', step node (.importBlock ((validEntries node).map includes)) = some node' ∧
      ((∃ e ∈ validEntries node, spot e.request = some .price) →
        ∀ e ∈ validEntries node', spot e.request ≠ some .price) := by
  have hfit₀ := hfit.of_le (BitVec.le_of_lt hlast)
  have h := sound_of_run hpos hrun hfit₀
  have hbounded : (node.best.beginBlock (node.best.blockNumber + 1)).prices.length ≤
      ExampleOffchainWorker.MAX_LEN := h.bounded
  obtain ⟨best, hblock, -, -, hprice⟩ := run_includes (validEntries node) hbounded
    (fun e he => validates_of_validEntries he) (h.one_price hpos hfit₀)
  have hstep : step node (.importBlock ((validEntries node).map includes)) =
      some ⟨best, node.pool⟩ := step_importBlock_includes hlast hblock
  refine ⟨_, hstep, ?_⟩
  intro hsome e he hx
  obtain ⟨he, hvalid'⟩ := List.mem_filter.mp he
  -- the new cool-down is past every block number that the pool claims
  have hlater : node.best.blockNumber.toNat + 1 < best.nextUnsignedAt.toNat := by
    have hinterval : 0 < R.unsignedInterval.toNat := toNat_pos hpos
    have hroom : (node.best.blockNumber + 1).toNat + R.unsignedInterval.toNat <
        2 ^ (8 * R.blockNumberBytes) := hfit
    have hsum : best.nextUnsignedAt.toNat =
        (node.best.blockNumber + 1).toNat + R.unsignedInterval.toNat := by
      rw [hprice hsome]
      exact (BitVec.toNat_add _ _).trans (Nat.mod_eq_of_lt hroom)
    rw [hsum, toNat_next hpos hfit₀]
    omega
  have hbounded' : best.prices.length ≤ ExampleOffchainWorker.MAX_LEN :=
    bounded_of_run hbounded hblock
  rw [over_of_lt_next (h.stamped e he) hbounded' hlater hx] at hvalid'
  cases hvalid'

/-- The number and the price go into block 2, and then the spot of the price is taken. -/
theorem valid_entries_includable_numberAndPrice :
    ∃ node node', run step (State.start 1) numberAndPrice = some node ∧
      step node (.importBlock ((validEntries node).map includes)) = some node' ∧
      ∀ e ∈ validEntries node', spot e.request ≠ some .price := by
  obtain ⟨node, hrun, hnumber, hprice⟩ : ∃ node,
      run step (State.start 1) numberAndPrice = some node ∧ node.best.blockNumber = 1 ∧
        ∃ e ∈ validEntries node, spot e.request = some .price :=
    ⟨_, rfl, rfl, _, List.mem_cons_of_mem _ List.mem_cons_self, rfl⟩
  obtain ⟨node', hstep, hover⟩ := valid_entries_includable (by decide) hrun
    (by rw [hnumber]; show _ < _; decide) (by rw [hnumber]; decide)
  exact ⟨node, node', hrun, hstep, hover hprice⟩

end

end OffchainPallets.Node
