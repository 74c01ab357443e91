import OffchainPallets.ExampleOffchainWorker.Worker

/-!
# Workers that compete for the right to send

`choose_transaction_type` in concurrent workers, from the other side than the grace period: when is
a worker told to send?

* `told_to_send_iff` — exactly when the value it has read is `GracePeriod` old, and nobody else is
  told to send between its read and its write. The compare-and-set compares bytes, but no value
  comes back: the senders write increasing block numbers.
* `one_sender_a_round` — workers that run for blocks less than `GracePeriod` apart, when it is time
  to send, agree on one sender, as soon as one of them is done.
-/

namespace OffchainPallets.ExampleOffchainWorker

open Lib OffchainPallets.Runtime

variable {T : Config} {ι : Type} {blockNumber : ι → T.BlockNumber}

/-! ## One sender after the other -/

/-- The closure finds a value to write exactly if the grace period is over. -/
theorem updateLastSend_ok_iff {n : T.BlockNumber} {raw : RawValue}
    (hfit : ∀ last : T.BlockNumber, LastSend raw last → GraceFits last) :
    (∃ m, updateLastSend n (StorageValueRef.get (lastSendCodec T) raw) = .ok m) ↔
      ∀ last : T.BlockNumber, LastSend raw last →
        last.toNat + T.gracePeriod.toNat ≤ n.toNat := by
  unfold LastSend at hfit ⊢
  rcases hget : StorageValueRef.get (lastSendCodec T) raw with e | _ | block
  · simp [updateLastSend]
  · simp [updateLastSend]
  · have hsum : (block + T.gracePeriod).toNat = block.toNat + T.gracePeriod.toNat := by
      rw [BitVec.toNat_add, Nat.mod_eq_of_lt (hfit block hget)]
    simp only [updateLastSend, Except.ok.injEq, Option.some.injEq, forall_eq']
    rw [← hsum, ← BitVec.le_def]
    split_ifs with hlt
    · simp [BitVec.not_le.mpr hlt]
    · simp [BitVec.not_lt.mp hlt]

theorem lastSend_set_iff {n last : T.BlockNumber} :
    LastSend (StorageValueRef.set (lastSendCodec T) n) last ↔ last = n := by
  rw [LastSend, StorageValueRef.get_set]
  simp [eq_comm]

/-- The value after some senders is the block number of the last. -/
theorem set_of_run {is : List ι} {cell cell' : RawValue} (hsome : is ≠ [])
    (hrun : run (Cas.apply (StorageValueRef.set (lastSendCodec T)) fun i raw =>
      updateLastSend (blockNumber i) (StorageValueRef.get (lastSendCodec T) raw)) cell is =
        some cell') :
    ∃ i ∈ is, cell' = StorageValueRef.set (lastSendCodec T) (blockNumber i) := by
  induction is using List.reverseRecOn with
  | nil => exact absurd rfl hsome
  | append_singleton is i ih =>
      obtain ⟨mid, -, hlast⟩ := run_snoc_eq_some.mp hrun
      unfold Cas.apply at hlast
      split at hlast
      · rename_i n hn
        cases hlast
        obtain ⟨rfl, -⟩ := updateLastSend_eq_ok hn
        exact ⟨i, by simp, rfl⟩
      · cases hlast

/-- What any senders leave has room for the grace period. -/
theorem graceFits_of_run {is : List ι} {cell cell' : RawValue}
    (hfit : ∀ i, GraceFits (blockNumber i))
    (hcell : ∀ last : T.BlockNumber, LastSend cell last → GraceFits last)
    (hrun : run (Cas.apply (StorageValueRef.set (lastSendCodec T)) fun i raw =>
      updateLastSend (blockNumber i) (StorageValueRef.get (lastSendCodec T) raw)) cell is =
        some cell') :
    ∀ last : T.BlockNumber, LastSend cell' last → GraceFits last := by
  by_cases hsome : is = []
  · subst hsome
    cases hrun
    exact hcell
  · obtain ⟨i, -, rfl⟩ := set_of_run hsome hrun
    intro last hlast
    rw [lastSend_set_iff.mp hlast]
    exact hfit i

/-- Block numbers less than a grace period apart leave room for one sender. -/
theorem length_le_one_of_spaced {is : List ι}
    (hround : ∀ i j, (blockNumber j).toNat < (blockNumber i).toNat + T.gracePeriod.toNat)
    (hspaced : is.Pairwise fun i j =>
      (blockNumber i).toNat + T.gracePeriod.toNat ≤ (blockNumber j).toNat) : is.length ≤ 1 := by
  rcases is with _ | ⟨i, _ | ⟨j, is⟩⟩
  · simp
  · simp
  · have hle := (List.pairwise_cons.mp hspaced).1 j List.mem_cons_self
    have hlt := hround i j
    omega

/-! ## Workers that interleave -/

section workers

variable [DecidableEq ι] {w w' : Choosing T ι} {tr : List (ChoosingLabel T ι)} {i : ι}

/-- **No value comes back**: the last sender is a grace period past whatever stood before. -/
theorem ne_of_run (hpos : 0 < T.gracePeriod) {is : List ι} {cell : RawValue}
    (hfit : ∀ i, GraceFits (blockNumber i))
    (hcell : ∀ last : T.BlockNumber, LastSend cell last → GraceFits last) (hsome : is ≠ []) :
    run (Cas.apply (StorageValueRef.set (lastSendCodec T)) fun i raw =>
      updateLastSend (blockNumber i) (StorageValueRef.get (lastSendCodec T) raw)) cell is ≠
        some cell := by
  intro hrun
  obtain ⟨i, hi, hset⟩ := set_of_run hsome hrun
  have hlast : LastSend cell (blockNumber i) := by
    rw [hset]
    exact lastSend_set_iff.mpr rfl
  have hle := (spaced_of_run hfit hcell hrun).1 _ hlast i hi
  have hpos' := toNat_pos hpos
  omega

/-- **When a worker is told to send.** In every interleaving of workers with any block numbers, from
any raw value of `example_ocw::last_send`, when a positive `GracePeriod` after each of these blocks,
and after the one of that value, is still a block number: a worker that has concluded was told to
send exactly if the value it had read stands for no block or for one `GracePeriod` earlier than its
own, and no worker was told to send between its read and its write.
Source: `choose_transaction_type` -/
theorem told_to_send_iff (hpos : 0 < T.gracePeriod) (hfit : ∀ i, GraceFits (blockNumber i))
    (hfirst : ∀ last : T.BlockNumber, LastSend w.shared last → GraceFits last)
    {result : Except (MutateStorageError T.BlockNumber Unit) T.BlockNumber}
    (hstart : w.phase i = .start)
    (hrun : run (chooseStep blockNumber) w (tr ++ [(i, .finish result)]) = some w') :
    ∃ tr₁ tr₂ w₁, tr = tr₁ ++ (i, .load) :: tr₂ ∧ run (chooseStep blockNumber) w tr₁ = some w₁ ∧
      answer w' i = some (transactionType result) ∧
      (transactionType result ≠ .none ↔
        (∀ last : T.BlockNumber, LastSend w₁.shared last →
          last.toNat + T.gracePeriod.toNat ≤ (blockNumber i).toNat) ∧
        senders tr₂ = []) := by
  obtain ⟨tr₁, tr₂, w₁, htr, h₁, hok⟩ := Cas.finish_ok_iff
    (fun js v hjs is his => ne_of_run hpos hfit (graceFits_of_run hfit hfirst hjs) his)
    hstart hrun
  obtain ⟨w₂, -, hlast⟩ := run_snoc_eq_some.mp hrun
  obtain ⟨-, -, hanswer, -⟩ := chooseTransactionType_of_step hlast
  refine ⟨tr₁, tr₂, w₁, htr, h₁, hanswer, ?_⟩
  have hroom := graceFits_of_run hfit hfirst (Cas.run_winners h₁)
  rw [← updateLastSend_ok_iff hroom, senders_eq_winners, ← hok, ne_eq,
    transactionType_eq_none_iff]
  cases result <;> simp

/-- Who has not won is not told to send. -/
theorem answer_of_not_mem_winners (hstart : ∀ i, w.phase i = .start)
    (hrun : run (chooseStep blockNumber) w tr = some w') (hi : i ∉ Cas.winners tr) :
    answer w' i = none ∨ answer w' i = some .none := by
  have hlost := (Cas.mem_winners_iff hstart hrun i).not.mp hi
  unfold answer
  split
  · rename_i result hphase
    right
    rw [Option.some.injEq, transactionType_eq_none_iff]
    rcases result with e | n
    · exact ⟨e, rfl⟩
    · exact absurd ⟨n, hphase⟩ hlost
  · exact Or.inl rfl

/-- **One sender a round.** Let workers run for blocks less than `GracePeriod` apart, in any
interleaving, at a time when the value of `example_ocw::last_send` stands for no block or for one
`GracePeriod` earlier than all of theirs. As long as none is done, the value is as it was. From the
moment when one is done, exactly one has been told to send; the value stands for its block, and
everyone else who is done was told `None`.
Source: `choose_transaction_type` -/
theorem one_sender_a_round (hfit : ∀ i, GraceFits (blockNumber i))
    (hdue : ∀ last : T.BlockNumber, LastSend w.shared last →
      ∀ i, last.toNat + T.gracePeriod.toNat ≤ (blockNumber i).toNat)
    (hround : ∀ i j, (blockNumber j).toNat < (blockNumber i).toNat + T.gracePeriod.toNat)
    (hstart : ∀ i, w.phase i = .start) (hrun : run (chooseStep blockNumber) w tr = some w') :
    ((∀ i, answer w' i = none) ∧ w'.shared = w.shared) ∨
      ∃ i mode, senders tr = [i] ∧ answer w' i = some mode ∧ mode ≠ .none ∧
        LastSend w'.shared (blockNumber i) ∧
        ∀ j, j ≠ i → answer w' j = none ∨ answer w' j = some .none := by
  have hfirst : ∀ last : T.BlockNumber, LastSend w.shared last → ∀ i : ι, GraceFits last := by
    intro last hlast i
    have hle := hdue last hlast i
    have hroom := (blockNumber i).isLt
    have hgrace := hround i i
    unfold GraceFits
    omega
  by_cases hnone : Cas.winners tr = []
  · -- nobody has won, so nobody is done
    have hvalue : ∀ i, ∃ n, updateLastSend (blockNumber i)
        (StorageValueRef.get (lastSendCodec T) w.shared) = .ok n := by
      intro i
      exact (updateLastSend_ok_iff fun last hlast => hfirst last hlast i).mpr
        fun last hlast => hdue last hlast i
    obtain ⟨hshared, hphases⟩ := Cas.unchanged_of_winners_eq_nil hstart hvalue hrun hnone
    refine Or.inl ⟨fun i => ?_, hshared⟩
    rcases hphases i with hphase | hphase
    · simp [answer, hphase]
    · simp [answer, hphase]
  · obtain ⟨i, hi⟩ := List.exists_mem_of_ne_nil _ hnone
    have hfirst' : ∀ last : T.BlockNumber, LastSend w.shared last → GraceFits last :=
      fun last hlast => hfirst last hlast i
    have hspaced := (spaced_of_run hfit hfirst' (Cas.run_winners hrun)).2
    have hone : Cas.winners tr = [i] := by
      obtain ⟨k, hk⟩ := List.length_eq_one_iff.mp
        (le_antisymm (length_le_one_of_spaced hround hspaced) (List.length_pos_iff.mpr hnone))
      rw [hk] at hi ⊢
      rw [List.mem_singleton.mp hi]
    right
    obtain ⟨n, hphase⟩ := (Cas.mem_winners_iff hstart hrun i).mp hi
    refine ⟨i, transactionType (.ok n), ?_, by rw [answer, hphase], ?_, ?_, ?_⟩
    · rw [senders_eq_winners, hone]
    · simp [transactionType_eq_none_iff]
    · have hcell := Cas.run_winners hrun
      rw [hone] at hcell
      obtain ⟨k, hk, hset⟩ := set_of_run (List.cons_ne_nil i []) hcell
      rw [hset, List.mem_singleton.mp hk]
      exact lastSend_set_iff.mpr rfl
    · intro j hj
      exact answer_of_not_mem_winners hstart hrun (by simp [hone, hj])

end workers

/-- The second worker of `oneSends` comes too late: the first was told to send between its read and
its write. -/
theorem told_to_send_iff_oneSends :
    ∃ w' : Choosing noSignatures Bool,
      run (chooseStep fun _ => (5 : noSignatures.BlockNumber)) bothRead oneSends = some w' ∧
      answer w' false = some .none := by
  have hlast : ∀ last : noSignatures.BlockNumber, LastSend bothRead.shared last →
      GraceFits last := by
    rintro last ⟨⟩
    unfold GraceFits
    decide
  obtain ⟨w', hrun⟩ : ∃ w', run (chooseStep fun _ => (5 : noSignatures.BlockNumber)) bothRead
      ([(true, .load), (false, .load), (true, .finish (.ok 5))] ++
        [(false, .finish (.error (.conflict 5)))]) = some w' := ⟨_, rfl⟩
  obtain ⟨-, -, -, -, -, hanswer, -⟩ :=
    told_to_send_iff (by decide) (by unfold GraceFits; decide) hlast rfl hrun
  exact ⟨w', hrun, hanswer⟩

theorem one_sender_a_round_oneSends :
    ∃ i, senders oneSends = [i] := by
  obtain ⟨w', hrun⟩ : ∃ w', run (chooseStep fun _ => (5 : noSignatures.BlockNumber)) bothRead
      oneSends = some w' := ⟨_, rfl⟩
  have hdue : ∀ last : noSignatures.BlockNumber, LastSend bothRead.shared last →
      ∀ _ : Bool, last.toNat + noSignatures.gracePeriod.toNat ≤
        (5 : noSignatures.BlockNumber).toNat := by
    rintro last ⟨⟩ _
    decide
  rcases one_sender_a_round (by unfold GraceFits; decide) hdue (by decide) (fun _ => rfl) hrun with
    ⟨hnone, -⟩ | ⟨i, -, hone, -⟩
  · have htrue := hnone true
    cases Option.some.inj hrun
    cases htrue
  · exact ⟨i, hone⟩

end OffchainPallets.ExampleOffchainWorker
