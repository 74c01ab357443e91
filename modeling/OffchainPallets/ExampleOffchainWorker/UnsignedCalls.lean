import Mathlib.Data.List.Pairwise
import OffchainPallets.ExampleOffchainWorker.Chain
import OffchainPallets.ExampleOffchainWorker.Senders
import OffchainPallets.Runtime

/-!
# Unsigned submissions over whole runs of the chain

What the cool-down of `UnsignedInterval` blocks gives in every run from empty storage, whatever
block numbers, prices, payloads and signatures the calls claim. `UnsignedInterval` is positive and
`block number + UnsignedInterval` does not overflow.

* `unsigned_rate_limit` — two applied unsigned submissions are at least `UnsignedInterval` blocks
  apart, and after that many blocks the next one is accepted.
* `unsigned_life_cycle` — the verdicts on one call along a run; that no call is applied twice; and
  that the guard of the senders is the verdict of the validator.
* `one_unsigned_per_session` — the tags a pool sees.

Each is the corresponding result about the admission gate, read through `chain_sim`.
-/

namespace OffchainPallets.ExampleOffchainWorker

open Lib OffchainPallets.Runtime

variable {T : Config} {b₀ : T.BlockNumber} {s u : Storage T} {tr tr₁ tr₂ : List (Label T)}

instance (n : T.BlockNumber) : Decidable (Fits T n) := inferInstanceAs (Decidable (_ < _))

theorem NoOverflow.left (h : NoOverflow (tr₁ ++ tr₂)) : NoOverflow tr₁ :=
  fun n hn => h n (List.mem_append_left _ hn)

theorem NoOverflow.right (h : NoOverflow (tr₁ ++ tr₂)) : NoOverflow tr₂ :=
  fun n hn => h n (List.mem_append_right _ hn)

/-! ## Two sessions on the runtime -/

/-- A session that ends with a submission in block 1, and the next one up to block 4. -/
def firstSession : List (Label noSignatures) :=
  [.dispatch 1 .none (.submitPriceUnsigned 1 100) (.ok ()), .beginBlock 4]

/-- The submission that ends the second session, and the next one up to block 7. -/
def secondSession : List (Label noSignatures) :=
  [.dispatch 4 .none (.submitPriceUnsigned 4 200) (.ok ()), .beginBlock 7]

/-- The state after the first session. -/
def afterFirst : Storage noSignatures where
  blockNumber := 4
  prices := [100]
  nextUnsignedAt := 4
  events := [.NewPrice 100 noSignatures.defaultAccountId]

/-- The state after both sessions. -/
def afterSecond : Storage noSignatures where
  blockNumber := 7
  prices := [100, 200]
  nextUnsignedAt := 7
  events := [.NewPrice 100 noSignatures.defaultAccountId,
    .NewPrice 200 noSignatures.defaultAccountId]

theorem noOverflow_sessions : NoOverflow (firstSession ++ secondSession) := by
  intro n hn
  simp only [firstSession, secondSession, List.cons_append, List.nil_append, List.mem_cons,
    reduceCtorEq, Label.beginBlock.injEq, List.not_mem_nil, or_false, false_or] at hn
  rcases hn with rfl | rfl <;> decide

/-! ## The rate limit -/

/-- **Rate limit of the unsigned submissions.** In every run two applied unsigned submissions are in
blocks at least `UnsignedInterval` apart, so never in one block; and once the current block is
`UnsignedInterval` past the last of them, or there was none, an unsigned `submit_price_unsigned`
with the current block number is accepted.
Source: `validate_unsigned`, `submit_price_unsigned`,
`submit_price_unsigned_with_signed_payload` -/
theorem unsigned_rate_limit (hpos : 0 < T.unsignedInterval) (hb₀ : Fits T b₀)
    (hfit : NoOverflow tr) (hrun : run chainStep (Storage.empty b₀) tr = some s) :
    ((appliedUnsigned tr).Pairwise fun m m' =>
      m.toNat + T.unsignedInterval.toNat ≤ m'.toNat ∧ m ≠ m') ∧
    ((∀ m ∈ (appliedUnsigned tr).getLast?,
        m.toNat + T.unsignedInterval.toNat ≤ s.blockNumber.toNat) →
      ∀ price, ∃ v,
        validateUnsigned s (.submitPriceUnsigned s.blockNumber price) = .ok (.ok v)) := by
  have hpos' := toNat_pos hpos
  obtain ⟨hs, hgate⟩ := chain_sim (.empty hb₀) hfit hrun
  constructor
  · have hspacing := Gate.admitted_spacing hpos' hgate
    rw [admitted_map_gateLabel, List.pairwise_map] at hspacing
    refine hspacing.imp fun {m m'} h => ⟨h, ?_⟩
    rintro rfl
    omega
  · intro hlast price
    -- the gate is open at the current block
    have hopen : s.nextUnsignedAt ≤ s.blockNumber := by
      have hnext := Gate.next_eq_of_run hgate
      rw [admitted_map_gateLabel, List.getLast?_map] at hnext
      rw [BitVec.le_def]
      show (gateOf s).next ≤ _
      rw [hnext]
      cases hl : (appliedUnsigned tr).getLast? with
      | none => simp [gateOf, Storage.empty]
      | some m => exact hlast m (by rw [hl]; rfl)
    exact ⟨_, (validateUnsigned_eq_valid_iff hs.bounded).mpr
      ⟨s.blockNumber, rfl, hopen, BitVec.le_refl _, rfl⟩⟩

/-- Submissions in the blocks 1 and 4, and the next one accepted in block 7. -/
theorem unsigned_rate_limit_sessions :
    run chainStep (Storage.empty 1) (firstSession ++ secondSession) = some afterSecond ∧
    appliedUnsigned (firstSession ++ secondSession) = [1, 4] ∧
    ((appliedUnsigned (firstSession ++ secondSession)).Pairwise fun m m' =>
      m.toNat + 3 ≤ m'.toNat ∧ m ≠ m') ∧
    ∀ price, ∃ v, validateUnsigned afterSecond (.submitPriceUnsigned 7 price) = .ok (.ok v) := by
  have hrun : run chainStep (Storage.empty 1) (firstSession ++ secondSession) =
      some afterSecond := rfl
  obtain ⟨hspacing, hopen⟩ :=
    unsigned_rate_limit (by decide) (by decide) noOverflow_sessions hrun
  refine ⟨hrun, rfl, hspacing, hopen fun m hm => ?_⟩
  have hlast : (appliedUnsigned (firstSession ++ secondSession)).getLast? = some 4 := rfl
  rw [hlast, Option.mem_some_iff] at hm
  subst hm
  decide

/-! ## The life of a call -/

/-- The verdict on a call at a state of a run. -/
theorem verdict_of_run (hs : Sound s) (hfit : NoOverflow tr) (hrun : run chainStep s tr = some u)
    {c : Call T} {b : T.BlockNumber} (hc : c.claim = some b) :
    verdict u c = some ((gateOf u).phase b.toNat) :=
  verdict_eq_phase (chain_sim hs hfit hrun).1.bounded hc

/-- A call is over in every state after an unsigned submission was applied while it was valid. -/
theorem stale_of_applied (hpos : 0 < T.unsignedInterval) (hs : Sound s) (hfit : NoOverflow tr)
    (hrun : run chainStep s tr = some u) (happ : appliedUnsigned tr ≠ []) {c : Call T}
    {b : T.BlockNumber} (hc : c.claim = some b) (hvalid : verdict s c = some .valid) :
    verdict u c = some .stale := by
  obtain ⟨-, hgate⟩ := chain_sim hs hfit hrun
  rw [verdict_eq_phase hs.bounded hc, Option.some.injEq] at hvalid
  rw [verdict_of_run hs hfit hrun hc, Option.some.injEq]
  refine Gate.stale_of_admitted (toNat_pos hpos) hgate ?_ hvalid
  rwa [admitted_map_gateLabel, ne_eq, List.map_eq_nil_iff]

/-- A call that is over stays over. -/
theorem stale_of_run (hpos : 0 < T.unsignedInterval) (hs : Sound s) (hfit : NoOverflow tr)
    (hrun : run chainStep s tr = some u) {c : Call T} {b : T.BlockNumber} (hc : c.claim = some b)
    (hstale : verdict s c = some .stale) : verdict u c = some .stale := by
  obtain ⟨-, hgate⟩ := chain_sim hs hfit hrun
  rw [verdict_eq_phase hs.bounded hc, Option.some.injEq] at hstale
  rw [verdict_of_run hs hfit hrun hc, Option.some.injEq]
  exact Gate.stale_of_run (toNat_pos hpos) hgate hstale

/-- An unsigned call that is applied was valid. -/
theorem valid_of_chainStep {block : T.BlockNumber} {c : Call T} {result : DispatchResult}
    (h : chainStep s (.dispatch block .none c result) = some u) : verdict s c = some .valid := by
  rw [chainStep, Option.ite_none_right_eq_some] at h
  rw [verdict_eq_valid_iff]
  have hpre := h.1
  simp only [preDispatch] at hpre
  split at hpre
  · rename_i v hv
    exact ⟨v, hv⟩
  · cases hpre

/-- No unsigned call is applied twice. -/
theorem not_mem_of_applied (hpos : 0 < T.unsignedInterval) (hs : Sound s) {block : T.BlockNumber}
    {c : Call T} {b : T.BlockNumber} (hc : c.claim = some b)
    (hfit : NoOverflow (.dispatch block .none c (.ok ()) :: tr))
    (hrun : run chainStep s (.dispatch block .none c (.ok ()) :: tr) = some u)
    (block' : T.BlockNumber) : .dispatch block' .none c (.ok ()) ∉ tr := by
  intro hmem
  obtain ⟨tr₁, tr₂, rfl⟩ := List.append_of_mem hmem
  rw [← List.cons_append] at hrun hfit
  obtain ⟨t, ht, hrest⟩ := run_append_eq_some.mp hrun
  obtain ⟨v, hv, -⟩ := run_cons_eq_some.mp hrest
  obtain ⟨v', hv', -⟩ := run_cons_eq_some.mp ht
  have hstale := stale_of_applied hpos hs hfit.left ht (List.cons_ne_nil _ _) hc
    (valid_of_chainStep hv')
  simp [valid_of_chainStep hv] at hstale

/-- A signed submission leaves the verdict on every unsigned call. -/
theorem verdict_of_signed (hs : Sound s) {block : T.BlockNumber} {who : T.AccountId}
    {c' : Call T} {result : DispatchResult}
    (h : chainStep s (.dispatch block (.signed who) c' result) = some u) {c : Call T}
    {b : T.BlockNumber} (hc : c.claim = some b) : verdict u c = verdict s c := by
  obtain ⟨hu, hgate⟩ := chainStep_sim hs (by rintro n ⟨⟩) h
  have hsame : gateOf u = gateOf s := Gate.step_eq_some.mp hgate
  rw [verdict_eq_phase hu.bounded hc, verdict_eq_phase hs.bounded hc, hsame]

/-- A call that is stale in a state and in every later one. -/
def StaleForever (s : Storage T) (c : Call T) : Prop :=
  ∀ tr u, NoOverflow tr → run chainStep s tr = some u → verdict u c = some .stale

/-- A call is stale for ever exactly when its claim is before `NextUnsignedAt`. -/
theorem staleForever_iff (hpos : 0 < T.unsignedInterval) (hs : Sound s) {c : Call T}
    {b : T.BlockNumber} (hc : c.claim = some b) : StaleForever s c ↔ b < s.nextUnsignedAt := by
  have hnow : verdict s c = some .stale ↔ b < s.nextUnsignedAt := by
    rw [verdict_eq_phase hs.bounded hc, Option.some.injEq, Gate.phase_eq_stale, BitVec.lt_def]
    rfl
  constructor
  · intro h
    exact hnow.mp (h [] s (by rintro n ⟨⟩) rfl)
  · intro h tr u hfit hrun
    exact stale_of_run hpos hs hfit hrun hc (hnow.mpr h)

/-- **Life cycle of an unsigned call.** For a call that claims a block number (with a signature that
verifies, where it has one), in every run:
the verdicts in the states of the run are first `Future`, then `Valid`, then `Stale`;
the call is stale once an unsigned submission was applied while it was valid, itself included;
it is applied at most once;
a signed submission leaves its verdict;
and in the state after a block the guard of each unsigned sender refuses that block's number
exactly when the calls for it are stale from then on.
Source: `validate_transaction_parameters`, `fetch_price_and_send_raw_unsigned`,
`fetch_price_and_send_unsigned_for_any_account`,
`fetch_price_and_send_unsigned_for_all_accounts` -/
theorem unsigned_life_cycle (hpos : 0 < T.unsignedInterval) (hb₀ : Fits T b₀)
    (hfit : NoOverflow tr) (hrun : run chainStep (Storage.empty b₀) tr = some s) {c : Call T}
    {b : T.BlockNumber} (hc : c.claim = some b) :
    (∃ i j k, (visited chainStep (Storage.empty b₀) tr).map (fun t => verdict t c) =
      List.replicate i (some .future) ++ List.replicate j (some .valid) ++
        List.replicate k (some .stale)) ∧
    (∀ tr₁ t block c' tr₂, tr = tr₁ ++ .dispatch block .none c' (.ok ()) :: tr₂ →
      run chainStep (Storage.empty b₀) tr₁ = some t → verdict t c = some .valid →
      verdict s c = some .stale) ∧
    (∀ tr₁ block tr₂, tr = tr₁ ++ .dispatch block .none c (.ok ()) :: tr₂ →
      ∀ block', .dispatch block' .none c (.ok ()) ∉ tr₂) ∧
    (∀ block who c' result u, chainStep s (.dispatch block (.signed who) c' result) = some u →
      verdict u c = verdict s c) ∧
    (∀ c' : Call T, c'.claim = some s.blockNumber →
      ∀ (Pool : Type) (host : Offchain T Pool) (pool : Pool),
        ((fetchPriceAndSendRawUnsigned s host s.blockNumber pool).2 = tooEarly ↔
          StaleForever s c') ∧
        ((fetchPriceAndSendUnsignedForAnyAccount s host s.blockNumber pool).2 = tooEarly ↔
          StaleForever s c') ∧
        ((fetchPriceAndSendUnsignedForAllAccounts s host s.blockNumber pool).2 = tooEarly ↔
          StaleForever s c')) := by
  have hs₀ : Sound (Storage.empty b₀) := .empty hb₀
  obtain ⟨hs, hgate⟩ := chain_sim hs₀ hfit hrun
  refine ⟨?_, ?_, ?_, ?_, ?_⟩
  · obtain ⟨i, j, k, hphase⟩ := Gate.visited_phase (toNat_pos hpos) hgate b.toNat
    refine ⟨i, j, k, ?_⟩
    have hvisited : visited (Gate.step T.unsignedInterval.toNat) (gateOf (Storage.empty b₀))
        (tr.map gateLabel) = (visited chainStep (Storage.empty b₀) tr).map gateOf :=
      visited_sim (C := fun l => ∀ n, l = .beginBlock n → Fits T n)
        (fun _ _ _ ht hl hstep => chainStep_sim ht hl hstep)
        (fun _ hl n hn => hfit n (hn ▸ hl)) hs₀ hrun
    have hverdict : (visited chainStep (Storage.empty b₀) tr).map (fun t => verdict t c) =
        ((visited chainStep (Storage.empty b₀) tr).map gateOf).map
          (fun g => some (g.phase b.toNat)) := by
      rw [List.map_map]
      apply List.map_congr_left
      intro t ht
      obtain ⟨tr₁, tr₂, rfl, h₁, -⟩ := exists_prefix_of_mem_visited hrun ht
      exact verdict_of_run hs₀ hfit.left h₁ hc
    have hsome : ∀ gs : List (Gate ℕ), gs.map (fun g => some (g.phase b.toNat)) =
        (gs.map fun g => g.phase b.toNat).map some := fun gs => by simp
    rw [hverdict, ← hvisited, hsome, hphase]
    simp
  · rintro tr₁ t block c' tr₂ rfl h₁ hvalid
    exact stale_of_applied hpos (chain_sim hs₀ hfit.left h₁).1 hfit.right (run_of_append h₁ hrun)
      (List.cons_ne_nil _ _) hc hvalid
  · rintro tr₁ block tr₂ rfl
    obtain ⟨t, h₁, hrest⟩ := run_append_eq_some.mp hrun
    exact not_mem_of_applied hpos (chain_sim hs₀ hfit.left h₁).1 hc hfit.right hrest
  · intro block who c' result u h
    exact verdict_of_signed hs h hc
  · intro c' hc' Pool host pool
    rw [staleForever_iff hpos hs hc']
    exact ⟨fetchPriceAndSendRawUnsigned_tooEarly_iff pool,
      fetchPriceAndSendUnsignedForAnyAccount_tooEarly_iff pool,
      fetchPriceAndSendUnsignedForAllAccounts_tooEarly_iff pool⟩

/-- The call for block 4 is early in block 1, valid in block 4 and over when it was applied. -/
theorem unsigned_life_cycle_sessions :
    run chainStep (Storage.empty 1) (firstSession ++ secondSession) = some afterSecond ∧
    (∃ i j k, (visited chainStep (Storage.empty 1) (firstSession ++ secondSession)).map
        (fun t => verdict t (.submitPriceUnsigned 4 200)) =
      List.replicate i (some .future) ++ List.replicate j (some .valid) ++
        List.replicate k (some .stale)) ∧
    verdict afterSecond (.submitPriceUnsigned 4 200) = some .stale := by
  have hrun : run chainStep (Storage.empty 1) (firstSession ++ secondSession) =
      some afterSecond := rfl
  have hclaim : (Call.submitPriceUnsigned 4 200 : Call noSignatures).claim = some 4 := rfl
  obtain ⟨hphases, happlied, -, -, -⟩ :=
    unsigned_life_cycle (by decide) (by decide) noOverflow_sessions hrun hclaim
  exact ⟨hrun, hphases, happlied firstSession afterFirst 4 (.submitPriceUnsigned 4 200)
    [.beginBlock 7] rfl rfl rfl⟩

/-! ## Sessions and tags -/

/-- The tag of a call that is valid at two states of a run is the same at both. -/
theorem provides_eq_of_valid (hpos : 0 < T.unsignedInterval) (hs : Sound s)
    (hfit : NoOverflow tr) (hrun : run chainStep s tr = some u) {x : Call T}
    {v v' : ValidTransaction} (hx : validateUnsigned s x = .ok (.ok v))
    (hx' : validateUnsigned u x = .ok (.ok v')) : v.provides = [providedTag u.nextUnsignedAt] := by
  obtain ⟨hu, hgate⟩ := chain_sim hs hfit hrun
  obtain ⟨b, hb, hnext, hcur, rfl⟩ := (validateUnsigned_eq_valid_iff hs.bounded).mp hx
  obtain ⟨b', hb', hnext', hcur', -⟩ := (validateUnsigned_eq_valid_iff hu.bounded).mp hx'
  obtain rfl : b = b' := by rwa [hb, Option.some.injEq] at hb'
  have hsame : u.nextUnsignedAt.toNat = s.nextUnsignedAt.toNat :=
    Gate.next_eq_of_valid_of_valid (toNat_pos hpos) hgate (b := b.toNat)
      (Gate.phase_eq_valid.mpr ⟨BitVec.le_def.mp hnext, BitVec.le_def.mp hcur⟩)
      (Gate.phase_eq_valid.mpr ⟨BitVec.le_def.mp hnext', BitVec.le_def.mp hcur'⟩)
  rw [BitVec.eq_of_toNat_eq hsame]
  rfl

/-- A transaction in the pool: the call, and what the validator returned when it was submitted. -/
structure PoolEntry (T : Config) where
  call : Call T
  validity : ValidTransaction

/-- The entry was validated at some state of the run. -/
def PoolEntry.ValidatedIn (e : PoolEntry T) (s₀ : Storage T) (tr : List (Label T)) : Prop :=
  ∃ tr₁ tr₂ t, tr = tr₁ ++ tr₂ ∧ run chainStep s₀ tr₁ = some t ∧
    validateUnsigned t e.call = .ok (.ok e.validity)

/-- **One unsigned transaction per session.** Let `s₁` and then `s₂` be states of a run, `x` valid
in `s₁` and `y` valid in `s₂`. The tags are equal if `x` is still valid in `s₂`; they differ, and
`x` is no longer valid, if an unsigned submission was applied between. So of the transactions of a
pool that were validated anywhere in the run, with no tag twice, at most one is valid in `s₂`. (The
pool validates a call in the state in which the block after the best one has just begun, which is a
state of the run.)
Source: `validate_transaction_parameters` -/
theorem one_unsigned_per_session (hpos : 0 < T.unsignedInterval) (hb₀ : Fits T b₀)
    {s₁ s₂ : Storage T} (hfit : NoOverflow (tr₁ ++ tr₂))
    (h₁ : run chainStep (Storage.empty b₀) tr₁ = some s₁) (h₂ : run chainStep s₁ tr₂ = some s₂)
    {x y : Call T} {vx vy : ValidTransaction} (hx : validateUnsigned s₁ x = .ok (.ok vx))
    (hy : validateUnsigned s₂ y = .ok (.ok vy)) :
    ((∃ v, validateUnsigned s₂ x = .ok (.ok v)) → vx.provides = vy.provides) ∧
    (appliedUnsigned tr₂ ≠ [] →
      vx.provides ≠ vy.provides ∧ ¬ ∃ v, validateUnsigned s₂ x = .ok (.ok v)) ∧
    (∀ pool : List (PoolEntry T),
      (∀ e ∈ pool, e.ValidatedIn (Storage.empty b₀) (tr₁ ++ tr₂)) →
      pool.Pairwise (fun e e' => e.validity.provides ≠ e'.validity.provides) →
      ∀ e ∈ pool, ∀ e' ∈ pool, (∃ v, validateUnsigned s₂ e.call = .ok (.ok v)) →
        (∃ v, validateUnsigned s₂ e'.call = .ok (.ok v)) → e = e') := by
  have hs₁ := (chain_sim (.empty hb₀) hfit.left h₁).1
  obtain ⟨hs₂, hgate⟩ := chain_sim hs₁ hfit.right h₂
  have hyTag : vy.provides = [providedTag s₂.nextUnsignedAt] := by
    obtain ⟨-, -, -, -, rfl⟩ := (validateUnsigned_eq_valid_iff hs₂.bounded).mp hy
    rfl
  refine ⟨?_, ?_, ?_⟩
  · rintro ⟨v, hv⟩
    rw [hyTag, provides_eq_of_valid hpos hs₁ hfit.right h₂ hx hv]
  · intro happ
    obtain ⟨b, hb, hnext, hcur, hvx⟩ := (validateUnsigned_eq_valid_iff hs₁.bounded).mp hx
    have hxvalid : verdict s₁ x = some .valid := verdict_eq_valid_iff.mpr ⟨vx, hx⟩
    constructor
    · have hlt : s₁.nextUnsignedAt.toNat < s₂.nextUnsignedAt.toNat := by
        refine Gate.next_lt_of_admitted (toNat_pos hpos) hgate ?_ (b := b.toNat)
          (Gate.phase_eq_valid.mpr ⟨BitVec.le_def.mp hnext, BitVec.le_def.mp hcur⟩)
        rwa [admitted_map_gateLabel, ne_eq, List.map_eq_nil_iff]
      rw [hyTag, hvx]
      intro htag
      have hsame := providedTag_injective (List.singleton_inj.mp htag)
      rw [hsame] at hlt
      exact lt_irrefl _ hlt
    · rw [← verdict_eq_valid_iff, stale_of_applied hpos hs₁ hfit.right h₂ happ hb hxvalid]
      simp
  · intro pool hpool hdistinct e he e' he' hvalid hvalid'
    -- both tags are the one of `s₂`
    have htag : ∀ e ∈ pool, (∃ v, validateUnsigned s₂ e.call = .ok (.ok v)) →
        e.validity.provides = [providedTag s₂.nextUnsignedAt] := by
      rintro e he ⟨v, hv⟩
      obtain ⟨tr₁', tr₂', t, htr, ht, hvt⟩ := hpool e he
      have hrun : run chainStep (Storage.empty b₀) (tr₁' ++ tr₂') = some s₂ := by
        rw [← htr, run_append_eq_some]
        exact ⟨s₁, h₁, h₂⟩
      rw [htr] at hfit
      exact provides_eq_of_valid hpos (chain_sim (.empty hb₀) hfit.left ht).1 hfit.right
        (run_of_append ht hrun) hvt hv
    have hsymm : Std.Symm fun e e' : PoolEntry T => e.validity.provides ≠ e'.validity.provides :=
      ⟨fun _ _ h => h.symm⟩
    by_contra hne
    exact hdistinct.forall he he' hne ((htag e he hvalid).trans (htag e' he' hvalid').symm)

/-- The calls of the two sessions have different tags. -/
theorem one_unsigned_per_session_sessions :
    run chainStep (Storage.empty 1) firstSession = some afterFirst ∧
    run chainStep afterFirst secondSession = some afterSecond ∧
    (validTransaction afterFirst 200).provides ≠ (validTransaction afterSecond 300).provides ∧
      ¬ ∃ v, validateUnsigned afterSecond (.submitPriceUnsigned 4 200) = .ok (.ok v) := by
  have h₁ : run chainStep (Storage.empty 1) firstSession = some afterFirst := rfl
  have h₂ : run chainStep afterFirst secondSession = some afterSecond := rfl
  have hx : validateUnsigned afterFirst (.submitPriceUnsigned 4 200) =
      .ok (.ok (validTransaction afterFirst 200)) := rfl
  have hy : validateUnsigned afterSecond (.submitPriceUnsigned 7 300) =
      .ok (.ok (validTransaction afterSecond 300)) := rfl
  obtain ⟨-, happlied, -⟩ :=
    one_unsigned_per_session (by decide) (by decide) noOverflow_sessions h₁ h₂ hx hy
  exact ⟨h₁, h₂, happlied (by decide)⟩

end OffchainPallets.ExampleOffchainWorker
