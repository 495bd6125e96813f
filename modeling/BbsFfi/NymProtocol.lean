import BbsFfi.PlainProtocol

/-!
# Credentials with pseudonyms

A holder commits to messages, an issuer signs blindly, the holder verifies the
signature and shows parts of the credential under a pseudonym.
`Issuance` and `Presentation` say what the parties did at the backend when all
hand it the same values.  Assuming that the backend is complete on these
(`PseudonymScheme`), the crate is complete, although its parties write empty
lists in different ways (`nym_complete`).
-/

namespace BbsFfi.NymProtocol

open Results BbsFfi.Rust BbsFfi.Backend BbsFfi.Operations BbsFfi.Values BbsFfi.Memory BbsFfi.Success
  BbsFfi.Steps BbsFfi.PlainProtocol BbsFfi.Transparent

/-! ## Honest runs of the backend -/

/-- An issued credential: generated keys and nym secrets, and a blind signature
over the commitment of the holder. -/
structure Issuance (Z : Zkryptium) where
  keySeed : Z.Seed
  proverSeed : Z.Seed
  signerSeed : Z.Seed
  commitSeed : Z.Seed
  signSeed : Z.Seed
  header : Bytes
  messages : List Bytes
  committedMessages : List Bytes
  keys : Z.SecretKey × Z.PublicKey
  commitment : Z.Commitment
  blindFactor : Z.BlindFactor
  signature : Z.BlindSignature
  generated : Z.keyPairRandom keySeed = .ok keys
  committed : Z.commitWithNym commitSeed (some committedMessages)
    (some (Z.pseudonymSecretRandom proverSeed)) = .ok (commitment, blindFactor)
  signed : Z.blindSignWithNym signSeed keys.1 keys.2 (some (Z.commitmentToBytes commitment))
    (some header) (Z.pseudonymSecretRandom signerSeed) (some messages) = .ok signature

/-- The holder verifies the signature and obtains the combined secret. -/
def Issuance.verify {Z : Zkryptium} (i : Issuance Z) : Except Z.Error Z.PseudonymSecret :=
  Z.verifyBlindSignWithNym i.signature i.keys.2 (some i.header) (some i.messages)
    (some i.committedMessages) (some (Z.pseudonymSecretRandom i.proverSeed))
    (some (Z.pseudonymSecretRandom i.signerSeed)) (some i.blindFactor)

/-- A proof made from an issued credential. -/
structure Presentation (Z : Zkryptium) extends Issuance Z where
  proofSeed : Z.Seed
  ph : Bytes
  scope : Bytes
  indices : List Nat
  commitmentIndices : List Nat
  nym : Z.PseudonymSecret
  proof : Z.PoKSignature
  pseudonym : Z.Pseudonym
  verified : toIssuance.verify = .ok nym
  scope_ne_nil : scope ≠ []
  ascending : indices.Pairwise (· < ·)
  commitment_ascending : commitmentIndices.Pairwise (· < ·)
  in_range : ∀ i ∈ indices, i < messages.length
  commitment_in_range : ∀ i ∈ commitmentIndices, i < committedMessages.length
  proved : Z.proofGenWithNym proofSeed keys.2 (Z.blindSignatureToBytes signature) (some header)
    (some ph) nym scope (some messages) (some committedMessages) (some indices)
    (some commitmentIndices) (some blindFactor) = .ok (proof, pseudonym)

/-- The verifier checks the proof against the disclosed messages. -/
def Presentation.verify {Z : Zkryptium} (p : Presentation Z) : Except Z.Error Unit :=
  Z.proofVerifyWithNym p.proof p.keys.2 (some p.header) (some p.ph) p.pseudonym p.scope
    (some p.messages.length) (some (disclosed p.messages p.indices))
    (some (disclosed p.committedMessages p.commitmentIndices)) (some p.indices)
    (some p.commitmentIndices)

/-! ## What is assumed of the backend -/

/-- A secret the backend made: drawn by a party, or combined from two. -/
inductive IsSecret (Z : Zkryptium) : Z.PseudonymSecret → Prop
  | random (seed : Z.Seed) : IsSecret Z (Z.pseudonymSecretRandom seed)
  | combined {nym : Z.PseudonymSecret} (i : Issuance Z) : i.verify = .ok nym → IsSecret Z nym

/-- No messages and an empty list of messages mean the same. -/
structure NoneIsEmpty (Z : Zkryptium) : Prop where
  commit : ∀ seed nym, Z.commitWithNym seed none nym = Z.commitWithNym seed (some []) nym
  verify_messages : ∀ sig pk header committed prover signer bf,
    Z.verifyBlindSignWithNym sig pk header none committed prover signer bf
      = Z.verifyBlindSignWithNym sig pk header (some []) committed prover signer bf
  verify_committed : ∀ sig pk header messages prover signer bf,
    Z.verifyBlindSignWithNym sig pk header messages none prover signer bf
      = Z.verifyBlindSignWithNym sig pk header messages (some []) prover signer bf
  proofGen_messages : ∀ seed pk sig header ph nym scope committed indices cIndices bf,
    Z.proofGenWithNym seed pk sig header ph nym scope none committed indices cIndices bf
      = Z.proofGenWithNym seed pk sig header ph nym scope (some []) committed indices cIndices bf
  proofGen_committed : ∀ seed pk sig header ph nym scope messages indices cIndices bf,
    Z.proofGenWithNym seed pk sig header ph nym scope messages none indices cIndices bf
      = Z.proofGenWithNym seed pk sig header ph nym scope messages (some []) indices cIndices bf
  proofVerify_messages : ∀ pok pk header ph nym scope total committed indices cIndices,
    Z.proofVerifyWithNym pok pk header ph nym scope total none committed indices cIndices
      = Z.proofVerifyWithNym pok pk header ph nym scope total (some []) committed indices cIndices
  proofVerify_committed : ∀ pok pk header ph nym scope total messages indices cIndices,
    Z.proofVerifyWithNym pok pk header ph nym scope total messages none indices cIndices
      = Z.proofVerifyWithNym pok pk header ph nym scope total messages (some []) indices cIndices

/-- What is assumed of the backend: its own outputs decode and have the
documented sizes, `None` means the empty list, and the chain is complete when
all parties hand it the same values. -/
structure PseudonymScheme (Z : Zkryptium) : Prop extends KeysDecode Z, NoneIsEmpty Z where
  secret : ∀ {nym}, IsSecret Z nym → ∀ arr : U8Array 32, arr.val = Z.pseudonymSecretToBytes nym →
    Z.pseudonymSecretFromBytes arr = .ok nym
  secret_length : ∀ {nym}, IsSecret Z nym → (Z.pseudonymSecretToBytes nym).length = 32
  blindFactor : ∀ (i : Issuance Z) (arr : U8Array 32),
    arr.val = Z.blindFactorToBytes i.blindFactor → Z.blindFactorFromBytes arr = .ok i.blindFactor
  blindFactor_length : ∀ i : Issuance Z, (Z.blindFactorToBytes i.blindFactor).length = 32
  signature : ∀ (i : Issuance Z) (arr : U8Array 80),
    arr.val = Z.blindSignatureToBytes i.signature → Z.blindSignatureFromBytes arr = .ok i.signature
  signature_length : ∀ i : Issuance Z, (Z.blindSignatureToBytes i.signature).length = 80
  proof : ∀ p : Presentation Z,
    Z.pokSignatureFromBytes (Z.pokSignatureToBytes p.proof) = .ok p.proof
  proof_ne_nil : ∀ p : Presentation Z, Z.pokSignatureToBytes p.proof ≠ []
  pseudonym : ∀ p : Presentation Z,
    Z.pseudonymFromBytes (Z.pseudonymToBytes p.pseudonym) = .ok p.pseudonym
  pseudonym_ne_nil : ∀ p : Presentation Z, Z.pseudonymToBytes p.pseudonym ≠ []
  issue_verify : ∀ i : Issuance Z, ∃ nym, i.verify = .ok nym
  prove_verify : ∀ p : Presentation Z, p.verify = .ok ()

variable {Z : Zkryptium}

/-- A function that takes `None` as the empty list takes every list the crate
passes on as that list. -/
theorem apply_noneIfEmpty {α : Type} {f : Option (List Bytes) → α} (h : f none = f (some []))
    (messages : List Bytes) : f (noneIfEmpty messages) = f (some messages) := by
  cases messages with
  | nil => exact h
  | cons m ms => rfl

theorem NoneIsEmpty.commitWithNym_eq (hZ : NoneIsEmpty Z) (seed : Z.Seed) (committed : List Bytes)
    (nym : Option Z.PseudonymSecret) :
    Z.commitWithNym seed (noneIfEmpty committed) nym
      = Z.commitWithNym seed (some committed) nym :=
  apply_noneIfEmpty (f := fun ms => Z.commitWithNym seed ms nym) (hZ.commit seed nym) committed

theorem NoneIsEmpty.verifyBlindSignWithNym_eq (hZ : NoneIsEmpty Z) (sig : Z.BlindSignature)
    (pk : Z.PublicKey) (header : Option Bytes) (messages committed : List Bytes)
    (prover signer : Option Z.PseudonymSecret) (bf : Option Z.BlindFactor) :
    Z.verifyBlindSignWithNym sig pk header (noneIfEmpty messages) (noneIfEmpty committed)
        prover signer bf
      = Z.verifyBlindSignWithNym sig pk header (some messages) (some committed) prover signer
          bf := by
  rw [apply_noneIfEmpty (f := fun ms => Z.verifyBlindSignWithNym sig pk header ms
      (noneIfEmpty committed) prover signer bf) (hZ.verify_messages ..),
    apply_noneIfEmpty (f := fun ms => Z.verifyBlindSignWithNym sig pk header (some messages) ms
      prover signer bf) (hZ.verify_committed ..)]

theorem NoneIsEmpty.proofGenWithNym_eq (hZ : NoneIsEmpty Z) (seed : Z.Seed) (pk : Z.PublicKey)
    (sig : Bytes) (header ph : Option Bytes) (nym : Z.PseudonymSecret) (scope : Bytes)
    (messages committed : List Bytes) (indices cIndices : Option (List Nat))
    (bf : Option Z.BlindFactor) :
    Z.proofGenWithNym seed pk sig header ph nym scope (noneIfEmpty messages)
        (noneIfEmpty committed) indices cIndices bf
      = Z.proofGenWithNym seed pk sig header ph nym scope (some messages) (some committed)
          indices cIndices bf := by
  rw [apply_noneIfEmpty (f := fun ms => Z.proofGenWithNym seed pk sig header ph nym scope ms
      (noneIfEmpty committed) indices cIndices bf) (hZ.proofGen_messages ..),
    apply_noneIfEmpty (f := fun ms => Z.proofGenWithNym seed pk sig header ph nym scope
      (some messages) ms indices cIndices bf) (hZ.proofGen_committed ..)]

theorem NoneIsEmpty.proofVerifyWithNym_eq (hZ : NoneIsEmpty Z) (pok : Z.PoKSignature)
    (pk : Z.PublicKey) (header ph : Option Bytes) (nym : Z.Pseudonym) (scope : Bytes)
    (total : Option Nat) (messages committed : List Bytes)
    (indices cIndices : Option (List Nat)) :
    Z.proofVerifyWithNym pok pk header ph nym scope total (noneIfEmpty messages)
        (noneIfEmpty committed) indices cIndices
      = Z.proofVerifyWithNym pok pk header ph nym scope total (some messages) (some committed)
          indices cIndices := by
  rw [apply_noneIfEmpty (f := fun ms => Z.proofVerifyWithNym pok pk header ph nym scope total ms
      (noneIfEmpty committed) indices cIndices) (hZ.proofVerify_messages ..),
    apply_noneIfEmpty (f := fun ms => Z.proofVerifyWithNym pok pk header ph nym scope total
      (some messages) ms indices cIndices) (hZ.proofVerify_committed ..)]

/-! ## Issuing -/

theorem nymSecret_of_done {seed : Z.Seed} {secret : Bytes}
    (h : Done (.generateNymSecret seed) [secret]) :
    Z.pseudonymSecretToBytes (Z.pseudonymSecretRandom seed) = secret := by
  cases h.eval
  rfl

/-- The backend's commitment behind the bytes of a commit step. -/
theorem commitment_of_done (hZ : PseudonymScheme Z) {proverSeed commitSeed : Z.Seed}
    {committed : List Bytes} {commitment blindFactor : Bytes}
    (h : Done (.commitWithNym commitSeed committed
      (Z.pseudonymSecretToBytes (Z.pseudonymSecretRandom proverSeed))) [commitment, blindFactor]) :
    ∃ c, Z.commitWithNym commitSeed (some committed) (some (Z.pseudonymSecretRandom proverSeed))
        = .ok c ∧
      Z.commitmentToBytes c.1 = commitment ∧ Z.blindFactorToBytes c.2 = blindFactor := by
  obtain ⟨result, hcommit, heq⟩ := map_eq_ok.mp h.eval
  cases heq
  obtain ⟨arr, harr, prover, hprover, c, hc, rfl⟩ := bbsCommitWithNym_eq_ok.mp hcommit
  cases (hZ.secret (.random proverSeed) arr harr).symm.trans hprover
  rw [hZ.commitWithNym_eq] at hc
  exact ⟨c, hc, rfl, rfl⟩

/-- The backend's signature behind the bytes of a blind signing step. -/
theorem blindSignature_of_done (hZ : PseudonymScheme Z) {keySeed signerSeed signSeed : Z.Seed}
    {keys : Z.SecretKey × Z.PublicKey} (hkeys : Z.keyPairRandom keySeed = .ok keys)
    {commitment header sig : Bytes} {messages : List Bytes}
    (h : Done (.blindSignWithNym signSeed (Z.secretKeyToBytes keys.1)
      (Z.publicKeyToBytes keys.2) commitment header
      (Z.pseudonymSecretToBytes (Z.pseudonymSecretRandom signerSeed)) messages) [sig]) :
    ∃ signature, Z.blindSignWithNym signSeed keys.1 keys.2 (some commitment) (some header)
        (Z.pseudonymSecretRandom signerSeed) (some messages) = .ok signature ∧
      Z.blindSignatureToBytes signature = sig := by
  obtain ⟨out, hsign, heq⟩ := map_eq_ok.mp h.eval
  cases heq
  obtain ⟨sk, hsk, pk, hpk, arr, harr, signer, hsigner, signature, hsig, hout⟩ :=
    bbsBlindSignWithNym_eq_ok.mp hsign
  cases (hZ.secretKey hkeys).symm.trans hsk
  cases (hZ.publicKey hkeys).symm.trans hpk
  cases (hZ.secret (.random signerSeed) arr harr).symm.trans hsigner
  exact ⟨signature, hsig, hout⟩

/-- The issuance behind the bytes the parties exchanged. -/
theorem issuance_of_done (hZ : PseudonymScheme Z)
    {keySeed proverSeed signerSeed commitSeed signSeed : Z.Seed}
    {sk pk prover signer commitment blindFactor header sig : Bytes}
    {messages committed : List Bytes}
    (hkeys : Done (.generateKeypair keySeed) [sk, pk])
    (hprover : Done (.generateNymSecret proverSeed) [prover])
    (hsigner : Done (.generateNymSecret signerSeed) [signer])
    (hcommit : Done (.commitWithNym commitSeed committed prover) [commitment, blindFactor])
    (hsign : Done (.blindSignWithNym signSeed sk pk commitment header signer messages) [sig]) :
    ∃ i : Issuance Z, i.header = header ∧ i.messages = messages ∧
      i.committedMessages = committed ∧ Z.publicKeyToBytes i.keys.2 = pk ∧
      Z.pseudonymSecretToBytes (Z.pseudonymSecretRandom i.proverSeed) = prover ∧
      Z.pseudonymSecretToBytes (Z.pseudonymSecretRandom i.signerSeed) = signer ∧
      Z.blindFactorToBytes i.blindFactor = blindFactor ∧
      Z.blindSignatureToBytes i.signature = sig := by
  obtain ⟨keys, hgen, rfl, rfl⟩ := keys_of_done hkeys
  obtain rfl := nymSecret_of_done hprover
  obtain rfl := nymSecret_of_done hsigner
  obtain ⟨⟨c, bf⟩, hc, rfl, rfl⟩ := commitment_of_done hZ hcommit
  obtain ⟨signature, hsig, rfl⟩ := blindSignature_of_done hZ hgen hsign
  exact ⟨⟨keySeed, proverSeed, signerSeed, commitSeed, signSeed, header, messages, committed, keys,
    c, bf, signature, hgen, hc, hsig⟩, rfl, rfl, rfl, rfl, rfl, rfl, rfl, rfl⟩

/-- The holder's verification of an issued signature succeeds. -/
theorem Issuance.verify_succeeds (hZ : PseudonymScheme Z) (i : Issuance Z)
    {nym : Z.PseudonymSecret} (hnym : i.verify = .ok nym) :
    Succeeds (Z := Z) (.verifyBlindSignWithNym (Z.publicKeyToBytes i.keys.2)
        (Z.blindSignatureToBytes i.signature) i.header i.messages i.committedMessages
        (Z.pseudonymSecretToBytes (Z.pseudonymSecretRandom i.proverSeed))
        (Z.pseudonymSecretToBytes (Z.pseudonymSecretRandom i.signerSeed))
        (Z.blindFactorToBytes i.blindFactor))
      [Z.pseudonymSecretToBytes nym] := by
  have hprover := hZ.secret_length (.random i.proverSeed)
  have hsigner := hZ.secret_length (.random i.signerSeed)
  refine Succeeds.of_eval (map_eq_ok.mpr ⟨_, bbsVerifyBlindSignWithNym_eq_ok.mpr
    ⟨i.keys.2, hZ.publicKey i.generated,
      ⟨_, hZ.signature_length i⟩, rfl, i.signature, hZ.signature i _ rfl,
      ⟨_, hprover⟩, rfl, _, hZ.secret (.random i.proverSeed) _ rfl,
      ⟨_, hsigner⟩, rfl, _, hZ.secret (.random i.signerSeed) _ rfl,
      ⟨_, hZ.blindFactor_length i⟩, rfl, i.blindFactor, hZ.blindFactor i _ rfl,
      nym, ?_, rfl⟩, rfl⟩) ?_
  · rw [hZ.verifyBlindSignWithNym_eq]
    exact hnym
  · simp [Operation.guarded, hZ.publicKey_ne_nil i.generated,
      List.ne_nil_of_length_eq_add_one (hZ.signature_length i),
      List.ne_nil_of_length_eq_add_one hprover, List.ne_nil_of_length_eq_add_one hsigner,
      List.ne_nil_of_length_eq_add_one (hZ.blindFactor_length i)]

/-! ## Showing -/

/-- The presentation behind the bytes of a proof step. -/
theorem presentation_of_done (hZ : PseudonymScheme Z) (i : Issuance Z)
    {nym : Z.PseudonymSecret} (hnym : i.verify = .ok nym) {proofSeed : Z.Seed}
    {ph scope proof pseudonym : Bytes} {indices cIndices : List UInt32} (hscope : scope ≠ [])
    (hasc : indices.Pairwise (· < ·)) (hcasc : cIndices.Pairwise (· < ·))
    (hrange : ∀ j ∈ indices, j.toNat < i.messages.length)
    (hcrange : ∀ j ∈ cIndices, j.toNat < i.committedMessages.length)
    (h : Done (.proofGenWithNym proofSeed (Z.publicKeyToBytes i.keys.2)
      (Z.blindSignatureToBytes i.signature) i.header ph (Z.pseudonymSecretToBytes nym) scope
      i.messages i.committedMessages indices cIndices (Z.blindFactorToBytes i.blindFactor))
      [proof, pseudonym]) :
    ∃ p : Presentation Z, p.toIssuance = i ∧ p.ph = ph ∧ p.scope = scope ∧
      p.indices = asUsize indices ∧ p.commitmentIndices = asUsize cIndices ∧
      Z.pokSignatureToBytes p.proof = proof ∧ Z.pseudonymToBytes p.pseudonym = pseudonym := by
  obtain ⟨out, hgen, heq⟩ := map_eq_ok.mp h.eval
  cases heq
  obtain ⟨pk, hpk, nymArr, hnymArr, nym', hnym', bfArr, hbfArr, bf, hbf, ⟨pok, psd⟩, hproof, rfl⟩ :=
    bbsProofGenWithNym_eq_ok.mp hgen
  cases (hZ.publicKey i.generated).symm.trans hpk
  cases (hZ.secret (.combined i hnym) nymArr hnymArr).symm.trans hnym'
  cases (hZ.blindFactor i bfArr hbfArr).symm.trans hbf
  rw [hZ.proofGenWithNym_eq] at hproof
  exact ⟨⟨i, proofSeed, ph, scope, asUsize indices, asUsize cIndices, nym, pok, psd, hnym, hscope,
    pairwise_asUsize hasc, pairwise_asUsize hcasc, asUsize_lt hrange, asUsize_lt hcrange, hproof⟩,
    rfl, rfl, rfl, rfl, rfl, rfl, rfl⟩

/-- The verifier accepts a presentation. -/
theorem Presentation.accepted (hZ : PseudonymScheme Z) (p : Presentation Z)
    {indices cIndices : List UInt32} {total : UInt32} (hindices : p.indices = asUsize indices)
    (hcindices : p.commitmentIndices = asUsize cIndices)
    (htotal : total.toNat = p.messages.length) :
    Accepted Z (.proofVerifyWithNym (Z.publicKeyToBytes p.keys.2) (Z.pokSignatureToBytes p.proof)
      (Z.pseudonymToBytes p.pseudonym) p.header p.ph p.scope total
      (disclosed p.messages p.indices) (disclosed p.committedMessages p.commitmentIndices)
      indices cIndices) := by
  refine Accepted.of_eval (bbsProofVerifyWithNym_eq_ok.mpr ⟨p.keys.2, hZ.publicKey p.generated,
    p.proof, hZ.proof p, p.pseudonym, hZ.pseudonym p, ?_⟩) ?_
  · rw [hZ.proofVerifyWithNym_eq, htotal, ← hindices, ← hcindices]
    exact ⟨fun _ => hZ.prove_verify p, fun _ => rfl⟩
  · simp [Check.guarded, hZ.publicKey_ne_nil p.generated, hZ.proof_ne_nil p,
      hZ.pseudonym_ne_nil p, p.scope_ne_nil]

/-- **The pseudonym protocol is complete.**  When committing and blind signing
succeed, the holder's verification does too; and the verifier accepts every
proof made with the secret it returns, each step in Rust or in C. -/
theorem nym_complete (hZ : PseudonymScheme Z)
    {keySeed proverSeed signerSeed commitSeed signSeed : Z.Seed}
    {sk pk prover signer commitment blindFactor header sig : Bytes}
    {messages committed : List Bytes}
    (hkeys : Done (.generateKeypair keySeed) [sk, pk])
    (hprover : Done (.generateNymSecret proverSeed) [prover])
    (hsigner : Done (.generateNymSecret signerSeed) [signer])
    (hcommit : Done (.commitWithNym commitSeed committed prover) [commitment, blindFactor])
    (hsign : Done (.blindSignWithNym signSeed sk pk commitment header signer messages) [sig]) :
    ∃ nym, Succeeds (Z := Z) (.verifyBlindSignWithNym pk sig header messages committed prover
        signer blindFactor) [nym] ∧
      ∀ (proofSeed : Z.Seed) ph scope (indices cIndices : List UInt32) total proof pseudonym,
        scope ≠ [] → indices.Pairwise (· < ·) → cIndices.Pairwise (· < ·) →
        (∀ i ∈ indices, i.toNat < messages.length) →
        (∀ i ∈ cIndices, i.toNat < committed.length) → total.toNat = messages.length →
        Done (.proofGenWithNym proofSeed pk sig header ph nym scope messages committed indices
          cIndices blindFactor) [proof, pseudonym] →
        Accepted Z (.proofVerifyWithNym pk proof pseudonym header ph scope total
          (disclosed messages (asUsize indices)) (disclosed committed (asUsize cIndices)) indices
          cIndices) := by
  obtain ⟨i, rfl, rfl, rfl, rfl, rfl, rfl, rfl, rfl⟩ :=
    issuance_of_done hZ hkeys hprover hsigner hcommit hsign
  obtain ⟨nym, hnym⟩ := hZ.issue_verify i
  refine ⟨_, i.verify_succeeds hZ hnym, ?_⟩
  intro proofSeed ph scope indices cIndices total proof pseudonym hscope hasc hcasc hrange hcrange
    htotal hproof
  obtain ⟨p, rfl, rfl, rfl, hindices, hcindices, rfl, rfl⟩ :=
    presentation_of_done hZ i hnym hscope hasc hcasc hrange hcrange hproof
  rw [← hindices, ← hcindices]
  exact p.accepted hZ hindices hcindices htotal

/-! ## The transparent backend -/

theorem transparent_noneIsEmpty : NoneIsEmpty transparent where
  commit _ _ := rfl
  verify_messages _ _ _ _ _ _ _ := rfl
  verify_committed _ _ _ _ _ _ _ := rfl
  proofGen_messages _ _ _ _ _ _ _ _ _ _ _ := rfl
  proofGen_committed _ _ _ _ _ _ _ _ _ _ _ := rfl
  proofVerify_messages _ _ _ _ _ _ _ _ _ _ := rfl
  proofVerify_committed _ _ _ _ _ _ _ _ _ _ := rfl

theorem transparent_issue_verify (i : Issuance transparent) : ∃ nym, i.verify = .ok nym := by
  obtain ⟨keySeed, proverSeed, signerSeed, commitSeed, signSeed, header, messages, committed, keys,
    c, bf, sig, hkeys, hcommit, hsign⟩ := i
  cases hkeys
  cases hcommit
  obtain ⟨c, hc, hsig⟩ := bind_eq_ok.mp hsign
  cases (gather_spread 111 _).symm.trans hc
  cases hsig
  exact ⟨_, bind_eq_ok.mpr ⟨(), if_pos rfl, rfl⟩⟩

theorem transparent_prove_verify (p : Presentation transparent) : p.verify = .ok () := by
  obtain ⟨_, _, hrest⟩ := bind_eq_ok.mp p.proved
  obtain ⟨_, _, hproof⟩ := bind_eq_ok.mp hrest
  obtain ⟨hpok, hpsd⟩ := Prod.mk.inj (Except.ok.inj hproof)
  rw [Presentation.verify, ← hpok, ← hpsd]
  exact if_pos ⟨rfl, rfl⟩

theorem transparent_pseudonymScheme : PseudonymScheme transparent where
  toKeysDecode := transparent_keysDecode
  toNoneIsEmpty := transparent_noneIsEmpty
  secret _ _ harr := gather_of_eq harr
  secret_length _ := spread_length 32 _
  blindFactor _ _ harr := gather_of_eq harr
  blindFactor_length _ := spread_length 32 _
  signature _ _ harr := gather_of_eq harr
  signature_length _ := spread_length 80 _
  proof p := gather_spread 47 p.proof
  proof_ne_nil p := spread_ne_nil 47 p.proof
  pseudonym _ := rfl
  pseudonym_ne_nil _ := nofun
  issue_verify := transparent_issue_verify
  prove_verify := transparent_prove_verify

/-- A credential over two messages and two committed ones, of which the holder
shows the first and the second.  The holder commits in C, with the empty message
given as null. -/
theorem nym_complete_two :
    Succeeds (Z := transparent) (.verifyBlindSignWithNym (spread 96 7) (spread 80 35) [9]
        [[], [1]] [[], [8]] (spread 32 2) (spread 32 3) (spread 32 5)) [spread 32 5] ∧
      Accepted transparent (.proofVerifyWithNym (spread 96 7) (spread 48 42) [5, 6] [9] [4] [6] 2
        [[]] [[8]] [0] [1]) := by
  have hkeys : Done (Z := transparent) (.generateKeypair (7 : UInt8)) [spread 32 7, spread 96 7] :=
    .rust rfl
  have hprover : Done (Z := transparent) (.generateNymSecret (2 : UInt8)) [spread 32 2] := .rust rfl
  have hsigner : Done (Z := transparent) (.generateNymSecret (3 : UInt8)) [spread 32 3] := .rust rfl
  have hcommit : Done (Z := transparent) (.commitWithNym (5 : UInt8) [[], [8]] (spread 32 2))
      [spread 112 15, spread 32 5] := by
    have hsucceeds : Succeeds (Z := transparent) (.commitWithNym (5 : UInt8) [[], [8]]
        (spread 32 2)) [spread 112 15, spread 32 5] :=
      .of_eval rfl (List.forall_mem_singleton.mpr (spread_ne_nil 31 2))
    obtain ⟨w', hrun, houts⟩ := hsucceeds.c (.bits64 false) (.commitWithNym (5 : UInt8)
      (fun _ => 1) (CSlice.of [CSlice.null 0, CSlice.of [8]]) (CSlice.of (spread 32 2)) (some 0)
      (some 1)) World.initial rfl (by decide) (by decide)
    exact .c _ _ _ w' rfl (by decide) (by decide) hrun houts
  have hsign : Done (Z := transparent) (.blindSignWithNym (0 : UInt8) (spread 32 7) (spread 96 7)
      (spread 112 15) [9] (spread 32 3) [[], [1]]) [spread 80 35] := .rust rfl
  obtain ⟨nym, hverify, hshow⟩ :=
    nym_complete transparent_pseudonymScheme hkeys hprover hsigner hcommit hsign
  have hnym : Operation.eval (Z := transparent) (.verifyBlindSignWithNym (spread 96 7)
      (spread 80 35) [9] [[], [1]] [[], [8]] (spread 32 2) (spread 32 3) (spread 32 5))
        = .ok [spread 32 5] := rfl
  cases hnym.symm.trans hverify.rust
  refine ⟨hverify, hshow (0 : UInt8) [4] [6] [0] [1] 2 (spread 48 42) [5, 6]
    (List.cons_ne_nil _ _) ?_ ?_ ?_ ?_ rfl (.rust rfl)⟩
  · decide
  · decide
  · simp
  · simp

end BbsFfi.NymProtocol
