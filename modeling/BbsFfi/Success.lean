import BbsFfi.Library.Results
import BbsFfi.Operations

/-!
# When the Rust operations succeed

One lemma for each operation: it returns a value exactly when every decode and
the backend succeed, and the value is then the encoding of what the backend
returned.  Later modules use these and never the definitions.
-/

namespace BbsFfi.Success

open Results BbsFfi.Rust BbsFfi.Backend BbsFfi.Operations

theorem tryInto_eq_ok {n : Nat} {v : Bytes} {a : U8Array n} : tryInto n v = .ok a ↔ a.val = v := by
  constructor
  · intro h
    rw [tryInto] at h
    split at h
    · cases h
      rfl
    · cases h
  · rintro rfl
    exact tryInto_of_length a.property

theorem okAsBool_eq_ok {ε : Type} {x : Except ε Unit} {b : Bool} :
    okAsBool x = .ok b ↔ (b = true ↔ x = .ok ()) := by
  cases x with
  | error e => cases b <;> simp [okAsBool]
  | ok u => cases b <;> simp [okAsBool]

variable {Z : Zkryptium} {seed : Z.Seed}

/-! ## Keys, signatures -/

theorem bbsGenerateKeypair_eq_ok {kp : BbsKeyPair} :
    bbsGenerateKeypair Z seed = .ok kp ↔ ∃ keys, Z.keyPairRandom seed = .ok keys ∧
      ⟨Z.secretKeyToBytes keys.1, Z.publicKeyToBytes keys.2⟩ = kp := by
  simp only [bbsGenerateKeypair, mapError_bind_eq_ok, pure_eq_ok]

theorem bbsSign_eq_ok {secretKey publicKey header : Bytes} {messages : List Bytes} {out : Bytes} :
    bbsSign Z seed secretKey publicKey header messages = .ok out ↔
      ∃ sk, Z.secretKeyFromBytes secretKey = .ok sk ∧
      ∃ pk, Z.publicKeyFromBytes publicKey = .ok pk ∧
      ∃ sig, Z.sign seed (some messages) sk pk (some header) = .ok sig ∧
        Z.signatureToBytes sig = out := by
  simp only [bbsSign, mapError_bind_eq_ok, pure_eq_ok]

theorem bbsVerify_eq_ok {publicKey header signature : Bytes} {messages : List Bytes} {b : Bool} :
    bbsVerify Z publicKey header signature messages = .ok b ↔
      ∃ pk, Z.publicKeyFromBytes publicKey = .ok pk ∧
      ∃ arr : U8Array 80, arr.val = signature ∧
      ∃ sig, Z.signatureFromBytes arr = .ok sig ∧
        (b = true ↔ Z.verify sig pk (some messages) (some header) = .ok ()) := by
  simp only [bbsVerify, mapError_bind_eq_ok, ite_throw_bind_eq_ok, tryInto_eq_ok, okAsBool_eq_ok,
    not_not]
  constructor
  · rintro ⟨pk, hpk, _, h⟩
    exact ⟨pk, hpk, h⟩
  · rintro ⟨pk, hpk, arr, rfl, h⟩
    exact ⟨pk, hpk, arr.property, arr, rfl, h⟩

/-! ## Selective disclosure proofs -/

theorem bbsProofGen_eq_ok {publicKey signature header presentationHeader : Bytes}
    {messages : List Bytes} {disclosedIndices : List UInt32} {out : Bytes} :
    bbsProofGen Z seed publicKey signature header presentationHeader messages disclosedIndices
        = .ok out ↔
      ∃ pk, Z.publicKeyFromBytes publicKey = .ok pk ∧
      ∃ proof, Z.proofGen seed pk signature (some header) (some presentationHeader)
          (some messages) (some (asUsize disclosedIndices)) = .ok proof ∧
        Z.pokSignatureToBytes proof = out := by
  simp only [bbsProofGen, mapError_bind_eq_ok, pure_eq_ok]

theorem bbsProofVerify_eq_ok {publicKey proof header presentationHeader : Bytes}
    {disclosedMessages : List Bytes} {disclosedIndices : List UInt32} {b : Bool} :
    bbsProofVerify Z publicKey proof header presentationHeader disclosedMessages
        disclosedIndices = .ok b ↔
      ∃ pk, Z.publicKeyFromBytes publicKey = .ok pk ∧
      ∃ pok, Z.pokSignatureFromBytes proof = .ok pok ∧
        (b = true ↔ Z.proofVerify pok pk (some disclosedMessages)
          (some (asUsize disclosedIndices)) (some header) (some presentationHeader) = .ok ()) := by
  simp only [bbsProofVerify, mapError_bind_eq_ok, okAsBool_eq_ok]

/-! ## Blind signing with pseudonyms -/

theorem bbsCommitWithNym_eq_ok {committedMessages : List Bytes} {proverNymSecret : Bytes}
    {out : BbsBlindCommitmentResult} :
    bbsCommitWithNym Z seed committedMessages proverNymSecret = .ok out ↔
      ∃ arr : U8Array 32, arr.val = proverNymSecret ∧
      ∃ proverNym, Z.pseudonymSecretFromBytes arr = .ok proverNym ∧
      ∃ commitment, Z.commitWithNym seed (noneIfEmpty committedMessages) (some proverNym)
          = .ok commitment ∧
        ⟨Z.commitmentToBytes commitment.1, Z.blindFactorToBytes commitment.2⟩ = out := by
  simp only [bbsCommitWithNym, mapError_bind_eq_ok, tryInto_eq_ok, pure_eq_ok]

theorem bbsBlindSignWithNym_eq_ok
    {secretKey publicKey commitmentWithProof header signerNymEntropy : Bytes}
    {messages : List Bytes} {out : Bytes} :
    bbsBlindSignWithNym Z seed secretKey publicKey commitmentWithProof header signerNymEntropy
        messages = .ok out ↔
      ∃ sk, Z.secretKeyFromBytes secretKey = .ok sk ∧
      ∃ pk, Z.publicKeyFromBytes publicKey = .ok pk ∧
      ∃ arr : U8Array 32, arr.val = signerNymEntropy ∧
      ∃ signerNym, Z.pseudonymSecretFromBytes arr = .ok signerNym ∧
      ∃ sig, Z.blindSignWithNym seed sk pk (some commitmentWithProof) (some header) signerNym
          (some messages) = .ok sig ∧
        Z.blindSignatureToBytes sig = out := by
  simp only [bbsBlindSignWithNym, mapError_bind_eq_ok, tryInto_eq_ok, pure_eq_ok]

theorem bbsVerifyBlindSignWithNym_eq_ok {publicKey blindSignature header : Bytes}
    {messages committedMessages : List Bytes}
    {proverNymSecret signerNymEntropy blindFactor : Bytes} {out : BbsVerifyBlindSignResult} :
    bbsVerifyBlindSignWithNym Z publicKey blindSignature header messages committedMessages
        proverNymSecret signerNymEntropy blindFactor = .ok out ↔
      ∃ pk, Z.publicKeyFromBytes publicKey = .ok pk ∧
      ∃ sigArr : U8Array 80, sigArr.val = blindSignature ∧
      ∃ sig, Z.blindSignatureFromBytes sigArr = .ok sig ∧
      ∃ proverArr : U8Array 32, proverArr.val = proverNymSecret ∧
      ∃ proverNym, Z.pseudonymSecretFromBytes proverArr = .ok proverNym ∧
      ∃ signerArr : U8Array 32, signerArr.val = signerNymEntropy ∧
      ∃ signerNym, Z.pseudonymSecretFromBytes signerArr = .ok signerNym ∧
      ∃ bfArr : U8Array 32, bfArr.val = blindFactor ∧
      ∃ bf, Z.blindFactorFromBytes bfArr = .ok bf ∧
      ∃ nym, Z.verifyBlindSignWithNym sig pk (some header) (noneIfEmpty messages)
          (noneIfEmpty committedMessages) (some proverNym) (some signerNym) (some bf) = .ok nym ∧
        ⟨Z.pseudonymSecretToBytes nym⟩ = out := by
  simp only [bbsVerifyBlindSignWithNym, mapError_bind_eq_ok, tryInto_eq_ok, pure_eq_ok]

theorem bbsProofGenWithNym_eq_ok
    {publicKey signature header presentationHeader nymSecret scope : Bytes}
    {messages committedMessages : List Bytes}
    {disclosedIndices disclosedCommitmentIndices : List UInt32} {blindFactor : Bytes}
    {out : BbsProofWithPseudonym} :
    bbsProofGenWithNym Z seed publicKey signature header presentationHeader nymSecret scope
        messages committedMessages disclosedIndices disclosedCommitmentIndices blindFactor
        = .ok out ↔
      ∃ pk, Z.publicKeyFromBytes publicKey = .ok pk ∧
      ∃ nymArr : U8Array 32, nymArr.val = nymSecret ∧
      ∃ nym, Z.pseudonymSecretFromBytes nymArr = .ok nym ∧
      ∃ bfArr : U8Array 32, bfArr.val = blindFactor ∧
      ∃ bf, Z.blindFactorFromBytes bfArr = .ok bf ∧
      ∃ proof, Z.proofGenWithNym seed pk signature (some header) (some presentationHeader) nym
          scope (noneIfEmpty messages) (noneIfEmpty committedMessages)
          (some (asUsize disclosedIndices)) (some (asUsize disclosedCommitmentIndices)) (some bf)
            = .ok proof ∧
        ⟨Z.pokSignatureToBytes proof.1, Z.pseudonymToBytes proof.2⟩ = out := by
  simp only [bbsProofGenWithNym, mapError_bind_eq_ok, tryInto_eq_ok, pure_eq_ok]

theorem bbsProofVerifyWithNym_eq_ok
    {publicKey proof pseudonym header presentationHeader scope : Bytes}
    {totalSignerMessages : UInt32} {disclosedMessages disclosedCommittedMessages : List Bytes}
    {disclosedIndices disclosedCommitmentIndices : List UInt32} {b : Bool} :
    bbsProofVerifyWithNym Z publicKey proof pseudonym header presentationHeader scope
        totalSignerMessages disclosedMessages disclosedCommittedMessages disclosedIndices
        disclosedCommitmentIndices = .ok b ↔
      ∃ pk, Z.publicKeyFromBytes publicKey = .ok pk ∧
      ∃ pok, Z.pokSignatureFromBytes proof = .ok pok ∧
      ∃ nym, Z.pseudonymFromBytes pseudonym = .ok nym ∧
        (b = true ↔ Z.proofVerifyWithNym pok pk (some header) (some presentationHeader) nym scope
          (some totalSignerMessages.toNat) (noneIfEmpty disclosedMessages)
          (noneIfEmpty disclosedCommittedMessages) (some (asUsize disclosedIndices))
          (some (asUsize disclosedCommitmentIndices)) = .ok ()) := by
  simp only [bbsProofVerifyWithNym, mapError_bind_eq_ok, okAsBool_eq_ok]

end BbsFfi.Success
