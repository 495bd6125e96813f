import BbsFfi.Backend

/-!
# The Rust operations (`lib.rs`)

Each operation decodes its byte arguments, calls the backend once and encodes
the result; the first failing decode ends it.  `u32` indices become `usize`
without loss, since every target of the crate has at least 32 bits.
-/

namespace BbsFfi.Operations

open BbsFfi.Rust BbsFfi.Backend

structure BbsKeyPair where
  secretKey : Bytes
  publicKey : Bytes
  deriving DecidableEq, Repr

structure BbsBlindCommitmentResult where
  commitmentWithProof : Bytes
  blindFactor : Bytes
  deriving DecidableEq, Repr

structure BbsVerifyBlindSignResult where
  nymSecret : Bytes
  deriving DecidableEq, Repr

structure BbsProofWithPseudonym where
  proof : Bytes
  pseudonym : Bytes
  deriving DecidableEq, Repr

/-- `disclosed_indices.iter().map(|&i| i as usize).collect()` -/
def asUsize (indices : List UInt32) : List Nat := indices.map UInt32.toNat

/-- `if messages.is_empty() { None } else { Some(messages.as_slice()) }` -/
def noneIfEmpty (messages : List Bytes) : Option (List Bytes) :=
  if messages.isEmpty then none else some messages

/-- `match verifier(..) { Ok(()) => Ok(true), Err(_) => Ok(false) }` -/
def okAsBool {ε : Type} : Except ε Unit → Except FfiError Bool
  | .ok () => .ok true
  | .error _ => .ok false

variable (Z : Zkryptium)

/-! ## Keys, signatures -/

def bbsGenerateKeypair (seed : Z.Seed) : Except FfiError BbsKeyPair := do
  let keypair ← (Z.keyPairRandom seed).mapError fun e =>
    .KeyGenerationFailed ("BBS+ key generation failed: " ++ Z.debug e)
  let skBytes := Z.secretKeyToBytes keypair.1
  let pkBytes := Z.publicKeyToBytes keypair.2
  return { secretKey := skBytes, publicKey := pkBytes }

def bbsSign (seed : Z.Seed) (secretKey publicKey header : Bytes) (messages : List Bytes) :
    Except FfiError Bytes := do
  let sk ← (Z.secretKeyFromBytes secretKey).mapError fun e =>
    .SigningFailed ("Invalid secret key: " ++ Z.debug e)
  let pk ← (Z.publicKeyFromBytes publicKey).mapError fun e =>
    .SigningFailed ("Invalid public key: " ++ Z.debug e)
  let sig ← (Z.sign seed (some messages) sk pk (some header)).mapError fun e =>
    .SigningFailed ("BBS+ sign failed: " ++ Z.debug e)
  return Z.signatureToBytes sig

def bbsVerify (publicKey header signature : Bytes) (messages : List Bytes) :
    Except FfiError Bool := do
  let pk ← (Z.publicKeyFromBytes publicKey).mapError fun e =>
    .VerificationFailed ("Invalid public key: " ++ Z.debug e)
  if signature.length ≠ 80 then
    throw (.VerificationFailed
      ("Signature must be " ++ toString 80 ++ " bytes, got " ++ toString signature.length))
  let sigBytes ← (tryInto 80 signature).mapError fun _ =>
    .VerificationFailed "Failed to convert signature bytes"
  let sig ← (Z.signatureFromBytes sigBytes).mapError fun e =>
    .VerificationFailed ("Invalid signature: " ++ Z.debug e)
  okAsBool (Z.verify sig pk (some messages) (some header))

/-! ## Selective disclosure proofs -/

def bbsProofGen (seed : Z.Seed) (publicKey signature header presentationHeader : Bytes)
    (messages : List Bytes) (disclosedIndices : List UInt32) : Except FfiError Bytes := do
  let pk ← (Z.publicKeyFromBytes publicKey).mapError fun e =>
    .ProofGenFailed ("Invalid public key: " ++ Z.debug e)
  let indices := asUsize disclosedIndices
  let proof ← (Z.proofGen seed pk signature (some header) (some presentationHeader)
      (some messages) (some indices)).mapError fun e =>
    .ProofGenFailed ("BBS+ proof generation failed: " ++ Z.debug e)
  return Z.pokSignatureToBytes proof

def bbsProofVerify (publicKey proof header presentationHeader : Bytes)
    (disclosedMessages : List Bytes) (disclosedIndices : List UInt32) :
    Except FfiError Bool := do
  let pk ← (Z.publicKeyFromBytes publicKey).mapError fun e =>
    .ProofVerifyFailed ("Invalid public key: " ++ Z.debug e)
  let indices := asUsize disclosedIndices
  let pok ← (Z.pokSignatureFromBytes proof).mapError fun e =>
    .ProofVerifyFailed ("Invalid proof bytes: " ++ Z.debug e)
  okAsBool (Z.proofVerify pok pk (some disclosedMessages) (some indices) (some header)
    (some presentationHeader))

/-! ## Blind signing with pseudonyms -/

def bbsGenerateNymSecret (seed : Z.Seed) : Except FfiError Bytes :=
  return Z.pseudonymSecretToBytes (Z.pseudonymSecretRandom seed)

def bbsCommitWithNym (seed : Z.Seed) (committedMessages : List Bytes) (proverNymSecret : Bytes) :
    Except FfiError BbsBlindCommitmentResult := do
  let nymSecretBytes ← (tryInto 32 proverNymSecret).mapError fun _ =>
    .CommitmentFailed "Prover nym secret must be 32 bytes"
  let proverNym ← (Z.pseudonymSecretFromBytes nymSecretBytes).mapError fun e =>
    .CommitmentFailed ("Invalid prover nym secret: " ++ Z.debug e)
  let committedMsgs := noneIfEmpty committedMessages
  let (commitmentWithProof, blindFactor) ←
    (Z.commitWithNym seed committedMsgs (some proverNym)).mapError fun e =>
      .CommitmentFailed ("Blind commitment failed: " ++ Z.debug e)
  return { commitmentWithProof := Z.commitmentToBytes commitmentWithProof
           blindFactor := Z.blindFactorToBytes blindFactor }

def bbsBlindSignWithNym (seed : Z.Seed)
    (secretKey publicKey commitmentWithProof header signerNymEntropy : Bytes)
    (messages : List Bytes) : Except FfiError Bytes := do
  let sk ← (Z.secretKeyFromBytes secretKey).mapError fun e =>
    .SigningFailed ("Invalid secret key: " ++ Z.debug e)
  let pk ← (Z.publicKeyFromBytes publicKey).mapError fun e =>
    .SigningFailed ("Invalid public key: " ++ Z.debug e)
  let nymEntropyBytes ← (tryInto 32 signerNymEntropy).mapError fun _ =>
    .SigningFailed "Signer nym entropy must be 32 bytes"
  let signerNym ← (Z.pseudonymSecretFromBytes nymEntropyBytes).mapError fun e =>
    .SigningFailed ("Invalid signer nym entropy: " ++ Z.debug e)
  let blindSig ← (Z.blindSignWithNym seed sk pk (some commitmentWithProof) (some header)
      signerNym (some messages)).mapError fun e =>
    .SigningFailed ("Blind sign with nym failed: " ++ Z.debug e)
  return Z.blindSignatureToBytes blindSig

def bbsVerifyBlindSignWithNym (publicKey blindSignature header : Bytes)
    (messages committedMessages : List Bytes)
    (proverNymSecret signerNymEntropy blindFactor : Bytes) :
    Except FfiError BbsVerifyBlindSignResult := do
  let pk ← (Z.publicKeyFromBytes publicKey).mapError fun e =>
    .VerificationFailed ("Invalid public key: " ++ Z.debug e)
  let sigBytes ← (tryInto 80 blindSignature).mapError fun _ =>
    .VerificationFailed ("Blind signature must be " ++ toString 80 ++ " bytes")
  let blindSig ← (Z.blindSignatureFromBytes sigBytes).mapError fun e =>
    .VerificationFailed ("Invalid blind signature: " ++ Z.debug e)
  let proverNymBytes ← (tryInto 32 proverNymSecret).mapError fun _ =>
    .VerificationFailed "Prover nym secret must be 32 bytes"
  let proverNym ← (Z.pseudonymSecretFromBytes proverNymBytes).mapError fun e =>
    .VerificationFailed ("Invalid prover nym secret: " ++ Z.debug e)
  let signerNymBytes ← (tryInto 32 signerNymEntropy).mapError fun _ =>
    .VerificationFailed "Signer nym entropy must be 32 bytes"
  let signerNym ← (Z.pseudonymSecretFromBytes signerNymBytes).mapError fun e =>
    .VerificationFailed ("Invalid signer nym entropy: " ++ Z.debug e)
  let bfBytes ← (tryInto 32 blindFactor).mapError fun _ =>
    .VerificationFailed "Blind factor must be 32 bytes"
  let bf ← (Z.blindFactorFromBytes bfBytes).mapError fun e =>
    .VerificationFailed ("Invalid blind factor: " ++ Z.debug e)
  let committedMsgs := noneIfEmpty committedMessages
  let msgs := noneIfEmpty messages
  let nymSecret ← (Z.verifyBlindSignWithNym blindSig pk (some header) msgs committedMsgs
      (some proverNym) (some signerNym) (some bf)).mapError fun e =>
    .VerificationFailed ("Blind signature verification failed: " ++ Z.debug e)
  return { nymSecret := Z.pseudonymSecretToBytes nymSecret }

def bbsProofGenWithNym (seed : Z.Seed)
    (publicKey signature header presentationHeader nymSecret scope : Bytes)
    (messages committedMessages : List Bytes)
    (disclosedIndices disclosedCommitmentIndices : List UInt32) (blindFactor : Bytes) :
    Except FfiError BbsProofWithPseudonym := do
  let pk ← (Z.publicKeyFromBytes publicKey).mapError fun e =>
    .ProofGenFailed ("Invalid public key: " ++ Z.debug e)
  let nymBytes ← (tryInto 32 nymSecret).mapError fun _ =>
    .ProofGenFailed "Nym secret must be 32 bytes"
  let nym ← (Z.pseudonymSecretFromBytes nymBytes).mapError fun e =>
    .ProofGenFailed ("Invalid nym secret: " ++ Z.debug e)
  let bfBytes ← (tryInto 32 blindFactor).mapError fun _ =>
    .ProofGenFailed "Blind factor must be 32 bytes"
  let bf ← (Z.blindFactorFromBytes bfBytes).mapError fun e =>
    .ProofGenFailed ("Invalid blind factor: " ++ Z.debug e)
  let dIdx := asUsize disclosedIndices
  let dcIdx := asUsize disclosedCommitmentIndices
  let msgs := noneIfEmpty messages
  let committedMsgs := noneIfEmpty committedMessages
  let (pok, pseudonym) ← (Z.proofGenWithNym seed pk signature (some header)
      (some presentationHeader) nym scope msgs committedMsgs (some dIdx) (some dcIdx)
      (some bf)).mapError fun e =>
    .ProofGenFailed ("Proof generation with pseudonym failed: " ++ Z.debug e)
  return { proof := Z.pokSignatureToBytes pok, pseudonym := Z.pseudonymToBytes pseudonym }

def bbsProofVerifyWithNym
    (publicKey proof pseudonym header presentationHeader scope : Bytes)
    (totalSignerMessages : UInt32) (disclosedMessages disclosedCommittedMessages : List Bytes)
    (disclosedIndices disclosedCommitmentIndices : List UInt32) : Except FfiError Bool := do
  let pk ← (Z.publicKeyFromBytes publicKey).mapError fun e =>
    .ProofVerifyFailed ("Invalid public key: " ++ Z.debug e)
  let pok ← (Z.pokSignatureFromBytes proof).mapError fun e =>
    .ProofVerifyFailed ("Invalid proof bytes: " ++ Z.debug e)
  let nym ← (Z.pseudonymFromBytes pseudonym).mapError fun e =>
    .ProofVerifyFailed ("Invalid pseudonym: " ++ Z.debug e)
  let dIdx := asUsize disclosedIndices
  let dcIdx := asUsize disclosedCommitmentIndices
  let discMsgs := noneIfEmpty disclosedMessages
  let discCommittedMsgs := noneIfEmpty disclosedCommittedMessages
  okAsBool (Z.proofVerifyWithNym pok pk (some header) (some presentationHeader) nym scope
    (some totalSignerMessages.toNat) discMsgs discCommittedMsgs (some dIdx) (some dcIdx))

end BbsFfi.Operations
