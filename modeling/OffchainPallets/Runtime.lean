import OffchainPallets.ExampleOffchainWorker.Pallet
import OffchainPallets.Ocw.Pallet

/-!
# The runtime's configuration of the two pallets

From `runtime/src/lib.rs`: block numbers are `u32`, public keys and signatures are `MultiSigner`
and `MultiSignature`, accounts are 32 bytes, and both pallets verify with a `TestAuthId` that wraps
`sr25519`. The `sr25519` verification itself is a parameter.
-/

namespace OffchainPallets

open Lib

/-- `MultiSigner`, with the key bytes of each variant. -/
inductive MultiSigner where
  | ed25519 (key : List.Vector UInt8 32)
  | sr25519 (key : List.Vector UInt8 32)
  | ecdsa (key : List.Vector UInt8 33)
  deriving DecidableEq

/-- `MultiSignature`, with the signature bytes of each variant. -/
inductive MultiSignature where
  | ed25519 (signature : List.Vector UInt8 64)
  | sr25519 (signature : List.Vector UInt8 64)
  | ecdsa (signature : List.Vector UInt8 65)
  deriving DecidableEq

namespace MultiSigner

/-- A variant byte and the key bytes. -/
def encode : MultiSigner → List UInt8
  | .ed25519 key => 0 :: (Codec.fixed 32).encode key
  | .sr25519 key => 1 :: (Codec.fixed 32).encode key
  | .ecdsa key => 2 :: (Codec.fixed 33).encode key

/-- Read a variant byte and then the key bytes of this variant. -/
def decode : List UInt8 → Option (MultiSigner × List UInt8)
  | [] => none
  | b :: bs =>
      if b = 0 then ((Codec.fixed 32).decode bs).map fun x => (.ed25519 x.1, x.2)
      else if b = 1 then ((Codec.fixed 32).decode bs).map fun x => (.sr25519 x.1, x.2)
      else if b = 2 then ((Codec.fixed 33).decode bs).map fun x => (.ecdsa x.1, x.2)
      else none

/-- The SCALE encoding of `MultiSigner`. -/
def codec : Codec MultiSigner where
  encode := encode
  decode := decode
  decode_encode a rest := by
    cases a with
    | ed25519 key => simp [encode, decode, Codec.decode_encode]
    | sr25519 key => simp [encode, decode, Codec.decode_encode]
    | ecdsa key => simp [encode, decode, Codec.decode_encode]

end MultiSigner

namespace Runtime

/-- `frame_system::Config` and `SigningTypes` for `Runtime`.
Source: `BlockNumber`, `AccountId`, `Signature` -/
def system : System where
  blockNumberBytes := 4
  atLeast32Bit := le_rfl
  AccountId := List.Vector UInt8 32
  defaultAccountId := List.Vector.replicate 32 0
  Public := MultiSigner
  Signature := MultiSignature
  publicCodec := MultiSigner.codec

/-- The verification of an `sr25519` signature: message, key, signature. -/
abbrev Sr25519Verify := List UInt8 → List.Vector UInt8 32 → List.Vector UInt8 64 → Bool

/-- `AppCrypto::verify` for `TestAuthId`: a key or a signature of another kind is refused.
Source: `crypto::TestAuthId` of both pallets -/
def testAuthIdVerify (verify : Sr25519Verify) :
    List UInt8 → MultiSigner → MultiSignature → Bool
  | payload, .sr25519 key, .sr25519 signature => verify payload key signature
  | _, _, _ => false

/-- `pallet_example_offchain_worker::Config for Runtime`.
Source: `GracePeriod`, `UnsignedInterval`, `UnsignedPriority` -/
def exampleOffchainWorker (verify : Sr25519Verify) : ExampleOffchainWorker.Config where
  toSystem := system
  authorityVerify := testAuthIdVerify verify
  gracePeriod := (3 : BitVec 32)
  unsignedInterval := (3 : BitVec 32)
  unsignedPriority := 3

/-- The price oracle without a signature scheme, for runs in which no payload is signed. -/
abbrev noSignatures : ExampleOffchainWorker.Config := exampleOffchainWorker fun _ _ _ => false

/-- `pallet_ocw::Config for Runtime`. -/
def ocw (verify : Sr25519Verify) : Ocw.Config where
  toSystem := system
  authorityVerify := testAuthIdVerify verify

/-- `pallet-ocw` without a signature scheme, for runs in which no payload is signed. -/
abbrev noSignaturesOcw : Ocw.Config := ocw fun _ _ _ => false

end Runtime

end OffchainPallets
