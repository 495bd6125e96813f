import BbsFfi.Rust

/-!
# The cryptographic backend

The crate wraps `zkryptium`, whose code is not part of the repository.  The
backend is therefore a parameter: a value of `Zkryptium` gives every type,
decoder, encoder and operation the crate calls, with the arguments in the order
of the call.  Operations that draw randomness take it as a `Seed`.
-/

namespace BbsFfi.Backend

open BbsFfi.Rust

/-- Errors returned by FFI operations (`FfiError`). -/
inductive FfiError where
  | KeyGenerationFailed (msg : String)
  | SigningFailed (msg : String)
  | VerificationFailed (msg : String)
  | ProofGenFailed (msg : String)
  | ProofVerifyFailed (msg : String)
  | CommitmentFailed (msg : String)
  | CredentialParseFailed (msg : String)
  deriving DecidableEq, Repr

/-- The messages at the given positions, which a proof discloses. -/
def disclosed (messages : List Bytes) (indices : List Nat) : List Bytes :=
  indices.filterMap fun i => messages[i]?

/-- An instance of `zkryptium` for the scheme `BbsBls12381Sha256`. -/
structure Zkryptium where
  Error : Type
  /-- The text of `{e:?}`. -/
  debug : Error → String
  Seed : Type
  SecretKey : Type
  PublicKey : Type
  BBSplusSignature : Type
  Signature : Type
  BlindSignature : Type
  PoKSignature : Type
  Commitment : Type
  BlindFactor : Type
  PseudonymSecret : Type
  Pseudonym : Type
  /-- `KeyPair::random` -/
  keyPairRandom : Seed → Except Error (SecretKey × PublicKey)
  secretKeyToBytes : SecretKey → Bytes
  secretKeyFromBytes : Bytes → Except Error SecretKey
  publicKeyToBytes : PublicKey → Bytes
  publicKeyFromBytes : Bytes → Except Error PublicKey
  /-- `BBSplusSignature::from_bytes` -/
  bbsPlusSignatureFromBytes : U8Array 80 → Except Error BBSplusSignature
  /-- `Signature::sign(messages, sk, pk, header)` -/
  sign : Seed → Option (List Bytes) → SecretKey → PublicKey → Option Bytes →
    Except Error Signature
  signatureToBytes : Signature → Bytes
  signatureFromBytes : U8Array 80 → Except Error Signature
  /-- `sig.verify(pk, messages, header)` -/
  verify : Signature → PublicKey → Option (List Bytes) → Option Bytes → Except Error Unit
  /-- `PoKSignature::proof_gen(pk, signature, header, ph, messages, indices)` -/
  proofGen : Seed → PublicKey → Bytes → Option Bytes → Option Bytes → Option (List Bytes) →
    Option (List Nat) → Except Error PoKSignature
  pokSignatureToBytes : PoKSignature → Bytes
  pokSignatureFromBytes : Bytes → Except Error PoKSignature
  /-- `pok.proof_verify(pk, disclosed_messages, indices, header, ph)` -/
  proofVerify : PoKSignature → PublicKey → Option (List Bytes) → Option (List Nat) →
    Option Bytes → Option Bytes → Except Error Unit
  /-- `PseudonymSecret::random` -/
  pseudonymSecretRandom : Seed → PseudonymSecret
  pseudonymSecretToBytes : PseudonymSecret → Bytes
  pseudonymSecretFromBytes : U8Array 32 → Except Error PseudonymSecret
  /-- `Commitment::commit_with_nym(committed_messages, prover_nym)` -/
  commitWithNym : Seed → Option (List Bytes) → Option PseudonymSecret →
    Except Error (Commitment × BlindFactor)
  commitmentToBytes : Commitment → Bytes
  blindFactorToBytes : BlindFactor → Bytes
  blindFactorFromBytes : U8Array 32 → Except Error BlindFactor
  /-- `BlindSignature::blind_sign_with_nym(sk, pk, commitment, header, signer_nym, messages)` -/
  blindSignWithNym : Seed → SecretKey → PublicKey → Option Bytes → Option Bytes →
    PseudonymSecret → Option (List Bytes) → Except Error BlindSignature
  blindSignatureToBytes : BlindSignature → Bytes
  blindSignatureFromBytes : U8Array 80 → Except Error BlindSignature
  /-- `blind_sig.verify_blind_sign_with_nym(pk, header, messages, committed_messages,
  prover_nym, signer_nym, blind_factor)` -/
  verifyBlindSignWithNym : BlindSignature → PublicKey → Option Bytes → Option (List Bytes) →
    Option (List Bytes) → Option PseudonymSecret → Option PseudonymSecret →
    Option BlindFactor → Except Error PseudonymSecret
  /-- `PoKSignature::proof_gen_with_nym(pk, signature, header, ph, nym, scope, messages,
  committed_messages, indices, commitment_indices, blind_factor)` -/
  proofGenWithNym : Seed → PublicKey → Bytes → Option Bytes → Option Bytes →
    PseudonymSecret → Bytes → Option (List Bytes) → Option (List Bytes) →
    Option (List Nat) → Option (List Nat) → Option BlindFactor →
    Except Error (PoKSignature × Pseudonym)
  pseudonymToBytes : Pseudonym → Bytes
  pseudonymFromBytes : Bytes → Except Error Pseudonym
  /-- `pok.proof_verify_with_nym(pk, header, ph, nym, scope, total, disclosed_messages,
  disclosed_committed_messages, indices, commitment_indices)` -/
  proofVerifyWithNym : PoKSignature → PublicKey → Option Bytes → Option Bytes → Pseudonym →
    Bytes → Option Nat → Option (List Bytes) → Option (List Bytes) → Option (List Nat) →
    Option (List Nat) → Except Error Unit

end BbsFfi.Backend
