import OffchainPallets.Runtime

/-!
# The signed payloads of the two pallets

What is signed is the encoding of a payload, and nothing in it names the pallet. Within a pallet
the encoding says which payload was signed (`PricePayload.encode_injective`,
`Payload.encode_injective`).
Across the pallets it does not: in this runtime the `number` of the one is as wide as the
`block_number` and the `price` of the other together (`encode_eq_iff`).

`signed_payload_accepted` says what each validator makes of a signature that was given for a payload
of the other pallet. The signature scheme is a parameter, as the relation of which signatures were
given.
-/

namespace OffchainPallets

open Lib

/-! ## Within a pallet -/

theorem ExampleOffchainWorker.PricePayload.encode_injective {T : ExampleOffchainWorker.Config} :
    Function.Injective (ExampleOffchainWorker.PricePayload.encode (T := T)) := by
  intro p p' h
  simp only [encode, List.append_assoc] at h
  obtain ⟨hblock, h⟩ := Codec.encode_append_inj _ h
  obtain ⟨hprice, h⟩ := Codec.encode_append_inj _ h
  have hpublic := T.publicCodec.encode_injective h
  cases p
  cases p'
  simp_all

theorem Ocw.Payload.encode_injective {T : Ocw.Config} :
    Function.Injective (Ocw.Payload.encode (T := T)) := by
  intro p p' h
  obtain ⟨hnumber, h⟩ := Codec.encode_append_inj _ h
  have hpublic := T.publicCodec.encode_injective h
  cases p
  cases p'
  simp_all

namespace Runtime

/-! ## Across the pallets -/

variable {verify : Sr25519Verify}

/-- The payloads of the two pallets that have the same bytes: one key, and the number is the block
number and the price, side by side. -/
def SameBytes (q : Ocw.Payload (ocw verify))
    (p : ExampleOffchainWorker.PricePayload (exampleOffchainWorker verify)) : Prop :=
  q.public = p.public ∧ q.number.toNat = p.blockNumber.toNat + 2 ^ 32 * p.price.toNat

instance (q : Ocw.Payload (ocw verify))
    (p : ExampleOffchainWorker.PricePayload (exampleOffchainWorker verify)) :
    Decidable (SameBytes q p) :=
  @instDecidableAnd _ _ (instDecidableEqMultiSigner q.public p.public) (Nat.decEq _ _)

/-- The bytes of two payloads agree exactly for one key and one number. -/
theorem encode_eq_iff (q : Ocw.Payload (ocw verify))
    (p : ExampleOffchainWorker.PricePayload (exampleOffchainWorker verify)) :
    q.encode = p.encode ↔ SameBytes q p := by
  have hblock : p.blockNumber.toNat < 256 ^ 4 := p.blockNumber.isLt
  have hprice : p.price.toNat < 2 ^ 32 := p.price.toBitVec.isLt
  have hnumber : q.number.toNat < 256 ^ 8 := q.number.toBitVec.isLt
  -- the two integers of the oracle, as one
  have hp : p.encode = leBytes 8 (p.blockNumber.toNat + 2 ^ 32 * p.price.toNat) ++
      MultiSigner.codec.encode p.public :=
    congrArg (· ++ MultiSigner.codec.encode p.public) (leBytes_append hblock 4 p.price.toNat)
  have hq : q.encode = leBytes 8 q.number.toNat ++ MultiSigner.codec.encode q.public := rfl
  rw [hq, hp]
  constructor
  · intro h
    obtain ⟨hint, hpublic⟩ := List.append_inj h (by rw [length_leBytes, length_leBytes])
    exact ⟨MultiSigner.codec.encode_injective hpublic, leBytes_inj hnumber (by omega) hint⟩
  · rintro ⟨hpublic, hint⟩
    rw [hint]
    exact congrArg (leBytes 8 _ ++ MultiSigner.codec.encode ·) hpublic

/-! ## Signatures given for the other pallet -/

/-- A signature that was given with the key of an account, of which only an `sr25519` one has a
signature that the pallets accept. -/
def SignedBy (signed : List.Vector UInt8 32 → List UInt8 → List.Vector UInt8 64 → Prop)
    («public» : MultiSigner) (payload : List UInt8) (signature : MultiSignature) : Prop :=
  ∃ key sig, «public» = .sr25519 key ∧ signature = .sr25519 sig ∧ signed key payload sig

/-- A signature for one payload verifies for another exactly when the bytes agree, and then the keys
do. -/
theorem testAuthIdVerify_of_signedBy
    {signed : List.Vector UInt8 32 → List UInt8 → List.Vector UInt8 64 → Prop}
    (hsign : ∀ key payload sig, signed key payload sig → verify payload key sig = true)
    (hbind : ∀ key payload sig, signed key payload sig → ∀ payload' key',
      verify payload' key' sig = true → payload' = payload)
    {public₁ public₂ : MultiSigner} {payload₁ payload₂ : List UInt8} {signature : MultiSignature}
    (hpublic : payload₁ = payload₂ → public₁ = public₂)
    (h : SignedBy signed public₁ payload₁ signature) :
    testAuthIdVerify verify payload₂ public₂ signature = true ↔ payload₁ = payload₂ := by
  obtain ⟨key, sig, rfl, rfl, hsigned⟩ := h
  constructor
  · intro hver
    cases public₂ with
    | sr25519 key' => exact (hbind key payload₁ sig hsigned payload₂ key' hver).symm
    | ed25519 key' => cases hver
    | ecdsa key' => cases hver
  · rintro rfl
    rw [← hpublic rfl]
    exact hsign key payload₁ sig hsigned

/-- **What a signature for one pallet is worth at the other.** Within each pallet the bytes identify
the payload. Across the pallets they agree exactly for one key, when the number is the block number
and the price side by side; then a signature that was given for the one payload passes the signature
check of the other pallet, and in every other case it is a bad proof there.
Source: `Payload`, `PricePayload`, `validate_unsigned` -/
theorem signed_payload_accepted
    {signed : List.Vector UInt8 32 → List UInt8 → List.Vector UInt8 64 → Prop}
    (hsign : ∀ key payload sig, signed key payload sig → verify payload key sig = true)
    (hbind : ∀ key payload sig, signed key payload sig → ∀ payload' key',
      verify payload' key' sig = true → payload' = payload) :
    (∀ q q' : Ocw.Payload (ocw verify), q.encode = q'.encode → q = q') ∧
    (∀ p p' : ExampleOffchainWorker.PricePayload (exampleOffchainWorker verify),
      p.encode = p'.encode → p = p') ∧
    (∀ (q : Ocw.Payload (ocw verify))
      (p : ExampleOffchainWorker.PricePayload (exampleOffchainWorker verify)),
      q.encode = p.encode ↔ SameBytes q p) ∧
    (∀ (q : Ocw.Payload (ocw verify))
      (p : ExampleOffchainWorker.PricePayload (exampleOffchainWorker verify)) signature s,
      SignedBy signed q.public q.encode signature →
      ExampleOffchainWorker.validateUnsigned s
          (.submitPriceUnsignedWithSignedPayload p signature) =
        if SameBytes q p then
          ExampleOffchainWorker.validateTransactionParameters s p.blockNumber p.price
        else .ok (.error .badProof)) ∧
    (∀ (q : Ocw.Payload (ocw verify))
      (p : ExampleOffchainWorker.PricePayload (exampleOffchainWorker verify)) signature,
      SignedBy signed p.public p.encode signature →
      Ocw.validateUnsigned (.submitNumberUnsignedWithSignedPayload q signature) =
        if SameBytes q p then Ocw.validTx "submit_number_unsigned_with_signed_payload"
        else .error .badProof) := by
  refine ⟨fun q q' h => Ocw.Payload.encode_injective h,
    fun p p' h => ExampleOffchainWorker.PricePayload.encode_injective h, encode_eq_iff, ?_, ?_⟩
  · intro q p signature s h
    have hver : p.verify signature = true ↔ SameBytes q p :=
      (testAuthIdVerify_of_signedBy hsign hbind (fun h => ((encode_eq_iff q p).mp h).1) h).trans
        (encode_eq_iff q p)
    show (if !p.verify signature then _ else _) = _
    by_cases hsame : SameBytes q p
    · rw [hver.mpr hsame, if_pos hsame]
      rfl
    · rw [Bool.eq_false_iff.mpr (hver.not.mpr hsame), if_neg hsame]
      rfl
  · intro q p signature h
    have hver : q.verify signature = true ↔ SameBytes q p :=
      (testAuthIdVerify_of_signedBy hsign hbind
        (fun h => ((encode_eq_iff q p).mp h.symm).1.symm) h).trans
        (eq_comm.trans (encode_eq_iff q p))
    show (if !q.verify signature then _ else _) = _
    by_cases hsame : SameBytes q p
    · rw [hver.mpr hsame, if_pos hsame]
      rfl
    · rw [Bool.eq_false_iff.mpr (hver.not.mpr hsame), if_neg hsame]
      rfl

/-! ## One signature -/

/-- The key of the only account that signs. -/
def key : List.Vector UInt8 32 := List.Vector.replicate 32 7

/-- The only signature that was given. -/
def signature : List.Vector UInt8 64 := List.Vector.replicate 64 9

/-- The bytes it was given for. -/
def signedBytes : List UInt8 :=
  leBytes 8 (1 + 2 ^ 32 * 100) ++ MultiSigner.codec.encode (.sr25519 key)

/-- A verification that knows this signature. -/
def verifyOne : Sr25519Verify := fun payload k sig =>
  payload = signedBytes && k = key && sig = signature

/-- The payload of `pallet-ocw` that was signed. -/
def numberPayload : Ocw.Payload (ocw verifyOne) := ⟨429496729601, .sr25519 key⟩

/-- A payload of the price oracle: the price 100 in block 1. -/
def pricePayload : ExampleOffchainWorker.PricePayload (exampleOffchainWorker verifyOne) :=
  ⟨(1 : BitVec 32), 100, .sr25519 key⟩

/-- The oracle in block 1. -/
def atBlockOne : ExampleOffchainWorker.Storage (exampleOffchainWorker verifyOne) := .empty 1

theorem signed_payload_accepted_numberPayload :
    ExampleOffchainWorker.validateUnsigned atBlockOne
        (.submitPriceUnsignedWithSignedPayload { pricePayload with price := 101 }
          (.sr25519 signature)) = .ok (.error .badProof) := by
  have hsign : ∀ k payload sig, k = key ∧ payload = signedBytes ∧ sig = signature →
      verifyOne payload k sig = true := by
    rintro _ _ _ ⟨rfl, rfl, rfl⟩
    decide
  have hbind : ∀ k payload sig, k = key ∧ payload = signedBytes ∧ sig = signature →
      ∀ payload' k', verifyOne payload' k' sig = true → payload' = payload := by
    rintro _ _ _ ⟨rfl, rfl, rfl⟩ payload' k' h
    simp only [verifyOne, Bool.and_eq_true, decide_eq_true_eq] at h
    exact h.1.1
  obtain ⟨-, -, -, hprice, -⟩ := signed_payload_accepted hsign hbind
  rw [hprice numberPayload _ (.sr25519 signature) _ ⟨key, signature, rfl, rfl, rfl, by decide, rfl⟩]
  rfl

/-- The signature that was given for the number is accepted for the price. -/
theorem signature_crosses :
    numberPayload.encode = pricePayload.encode ∧
    numberPayload.verify (.sr25519 signature) = true ∧
    ∃ v, ExampleOffchainWorker.validateUnsigned atBlockOne
      (.submitPriceUnsignedWithSignedPayload pricePayload (.sr25519 signature)) = .ok (.ok v) :=
  ⟨by decide, by decide, _, rfl⟩

end Runtime

end OffchainPallets
