import BbsFfi.Operations

/-!
# The operations on byte strings

An `Operation` is one of the functions that return byte strings, applied to
its arguments and the randomness it draws; a `Check` is one of the verifying
functions.  Both bindings of the crate are measured against their values.
-/

namespace BbsFfi.Values

open BbsFfi.Rust BbsFfi.Backend BbsFfi.Operations

inductive Operation (Z : Zkryptium) where
  | generateKeypair (seed : Z.Seed)
  | sign (seed : Z.Seed) (sk pk header : Bytes) (messages : List Bytes)
  | proofGen (seed : Z.Seed) (pk sig header ph : Bytes) (messages : List Bytes)
      (disclosedIndices : List UInt32)
  | generateNymSecret (seed : Z.Seed)
  | commitWithNym (seed : Z.Seed) (committedMessages : List Bytes) (proverNym : Bytes)
  | blindSignWithNym (seed : Z.Seed) (sk pk commitment header signerNym : Bytes)
      (messages : List Bytes)
  | verifyBlindSignWithNym (pk blindSig header : Bytes) (messages committedMessages : List Bytes)
      (proverNym signerNym blindFactor : Bytes)
  | proofGenWithNym (seed : Z.Seed) (pk sig header ph nymSecret scope : Bytes)
      (messages committedMessages : List Bytes)
      (disclosedIndices disclosedCommitmentIndices : List UInt32) (blindFactor : Bytes)

namespace Operation

variable {Z : Zkryptium}

/-- The Rust function, with its results in order. -/
def eval : Operation Z → Except FfiError (List Bytes)
  | .generateKeypair seed =>
    (bbsGenerateKeypair Z seed).map fun kp => [kp.secretKey, kp.publicKey]
  | .sign seed sk pk header messages =>
    (bbsSign Z seed sk pk header messages).map fun sig => [sig]
  | .proofGen seed pk sig header ph messages disclosedIndices =>
    (bbsProofGen Z seed pk sig header ph messages disclosedIndices).map fun proof => [proof]
  | .generateNymSecret seed => (bbsGenerateNymSecret Z seed).map fun secret => [secret]
  | .commitWithNym seed committedMessages proverNym =>
    (bbsCommitWithNym Z seed committedMessages proverNym).map fun result =>
      [result.commitmentWithProof, result.blindFactor]
  | .blindSignWithNym seed sk pk commitment header signerNym messages =>
    (bbsBlindSignWithNym Z seed sk pk commitment header signerNym messages).map fun sig => [sig]
  | .verifyBlindSignWithNym pk blindSig header messages committedMessages proverNym signerNym
      blindFactor =>
    (bbsVerifyBlindSignWithNym Z pk blindSig header messages committedMessages proverNym
      signerNym blindFactor).map fun result => [result.nymSecret]
  | .proofGenWithNym seed pk sig header ph nymSecret scope messages committedMessages
      disclosedIndices disclosedCommitmentIndices blindFactor =>
    (bbsProofGenWithNym Z seed pk sig header ph nymSecret scope messages committedMessages
      disclosedIndices disclosedCommitmentIndices blindFactor).map
      fun result => [result.proof, result.pseudonym]

/-- The arguments the C functions require to be there. -/
def guarded : Operation Z → List Bytes
  | .generateKeypair _ => []
  | .sign _ sk pk _ _ => [sk, pk]
  | .proofGen _ pk sig _ _ _ _ => [pk, sig]
  | .generateNymSecret _ => []
  | .commitWithNym _ _ proverNym => [proverNym]
  | .blindSignWithNym _ sk pk _ _ signerNym _ => [sk, pk, signerNym]
  | .verifyBlindSignWithNym pk blindSig _ _ _ proverNym signerNym blindFactor =>
    [pk, blindSig, proverNym, signerNym, blindFactor]
  | .proofGenWithNym _ pk sig _ _ nymSecret scope _ _ _ _ _ => [pk, sig, nymSecret, scope]

end Operation

inductive Check where
  | verify (pk header sig : Bytes) (messages : List Bytes)
  | proofVerify (pk proof header ph : Bytes) (disclosedMessages : List Bytes)
      (disclosedIndices : List UInt32)
  | proofVerifyWithNym (pk proof pseudonym header ph scope : Bytes) (totalSignerMessages : UInt32)
      (disclosedMessages disclosedCommittedMessages : List Bytes)
      (disclosedIndices disclosedCommitmentIndices : List UInt32)

namespace Check

def eval (Z : Zkryptium) : Check → Except FfiError Bool
  | .verify pk header sig messages => bbsVerify Z pk header sig messages
  | .proofVerify pk proof header ph disclosedMessages disclosedIndices =>
    bbsProofVerify Z pk proof header ph disclosedMessages disclosedIndices
  | .proofVerifyWithNym pk proof pseudonym header ph scope totalSignerMessages disclosedMessages
      disclosedCommittedMessages disclosedIndices disclosedCommitmentIndices =>
    bbsProofVerifyWithNym Z pk proof pseudonym header ph scope totalSignerMessages
      disclosedMessages disclosedCommittedMessages disclosedIndices disclosedCommitmentIndices

def guarded : Check → List Bytes
  | .verify pk _ sig _ => [pk, sig]
  | .proofVerify pk proof _ _ _ _ => [pk, proof]
  | .proofVerifyWithNym pk proof pseudonym _ _ scope _ _ _ _ _ => [pk, proof, pseudonym, scope]

end Check

end BbsFfi.Values
