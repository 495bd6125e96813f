import Mathlib.Logic.Relation
import BbsFfi.CredentialDiagnosis
import BbsFfi.Pseudonyms
import BbsFfi.NymProtocol

/-!
# Issuers, holders and verifiers

The protocols of the crate as a system of parties.  Issuers generate keys and
sign, holders store credentials and enroll under pseudonyms, both show parts of
them to verifiers; the parties take their steps in any order, any number of
times, each in Rust or in C, and stored credentials are parsed on any target
(`Step`).  In every reachable state everything in flight is accepted where it
arrives (`deployment_accepts`), and pseudonyms tell holders and scopes apart
(`deployment_pseudonyms`).
-/

namespace BbsFfi.Deployment

open BbsFfi.Rust BbsFfi.Backend BbsFfi.Operations BbsFfi.Values BbsFfi.Credential
  BbsFfi.CredentialDiagnosis BbsFfi.Steps BbsFfi.PlainProtocol BbsFfi.NymProtocol
  BbsFfi.Pseudonyms BbsFfi.Transparent

/-! ## What the parties hold -/

structure Issuer where
  sk : Bytes
  pk : Bytes

/-- A credential as its holder keeps it: the signature and the messages behind
their lengths. -/
structure StoredCredential where
  pk : Bytes
  header : Bytes
  bytes : Bytes

/-- A proof on its way to a verifier, with what is disclosed. -/
structure PlainProof where
  pk : Bytes
  proof : Bytes
  header : Bytes
  ph : Bytes
  disclosedMessages : List Bytes
  indices : List UInt32

def PlainProof.check (p : PlainProof) : Check :=
  .proofVerify p.pk p.proof p.header p.ph p.disclosedMessages p.indices

/-- A holder who has committed to messages and waits for a signature. -/
structure Committed where
  prover : Bytes
  committedMessages : List Bytes
  commitment : Bytes
  blindFactor : Bytes

/-- A holder who has received a blind signature. -/
structure Signed extends Committed where
  pk : Bytes
  header : Bytes
  signer : Bytes
  messages : List Bytes
  sig : Bytes

/-- The holder's verification of the blind signature. -/
def Signed.verification {Z : Zkryptium} (c : Signed) : Operation Z :=
  .verifyBlindSignWithNym c.pk c.sig c.header c.messages c.committedMessages c.prover c.signer
    c.blindFactor

/-- An enrollment, as far as it has come. -/
inductive Enrollment where
  | started (prover : Bytes)
  | committed (c : Committed)
  | signed (c : Signed)
  | enrolled (c : Signed) (nymSecret : Bytes)

/-- A proof with pseudonym on its way to a verifier, and the secret it was made
with, which stays with the holder. -/
structure NymProof where
  nymSecret : Bytes
  pk : Bytes
  proof : Bytes
  pseudonym : Bytes
  header : Bytes
  ph : Bytes
  scope : Bytes
  totalSignerMessages : UInt32
  disclosedMessages : List Bytes
  disclosedCommittedMessages : List Bytes
  indices : List UInt32
  commitmentIndices : List UInt32

def NymProof.check (p : NymProof) : Check :=
  .proofVerifyWithNym p.pk p.proof p.pseudonym p.header p.ph p.scope p.totalSignerMessages
    p.disclosedMessages p.disclosedCommittedMessages p.indices p.commitmentIndices

structure State where
  issuers : List Issuer
  stored : List StoredCredential
  shown : List PlainProof
  enrollments : List Enrollment
  nymShown : List NymProof

def State.empty : State := ⟨[], [], [], [], []⟩

/-! ## What they do -/

/-- One step of one party. -/
inductive Step (Z : Zkryptium) : State → State → Prop
  | generateKeys (s : State) (seed : Z.Seed) (issuer : Issuer) :
      Done (Z := Z) (.generateKeypair seed) [issuer.sk, issuer.pk] →
      Step Z s { s with issuers := issuer :: s.issuers }
  | issue (s : State) (issuer : Issuer) (seed : Z.Seed) (header : Bytes) (messages : List Bytes)
      (sig : Bytes) : issuer ∈ s.issuers → (∀ m ∈ messages, m.length < 2 ^ 32) →
      Done (.sign seed issuer.sk issuer.pk header messages) [sig] →
      Step Z s { s with
        stored := ⟨issuer.pk, header, sig ++ framing.encodeAll messages⟩ :: s.stored }
  | present (s : State) (c : StoredCredential) (t : Target) (ms : List Bytes) (seed : Z.Seed)
      (ph : Bytes) (indices : List UInt32) (proof : Bytes) : c ∈ s.stored → 32 ≤ t.bits →
      c.bytes.length ≤ t.isizeMax → parseBbsCredential t Z c.bytes = .returned (.ok ms) →
      indices.Pairwise (· < ·) → (∀ i ∈ indices, i.toNat < ms.length) →
      Done (.proofGen seed c.pk (c.bytes.take 80) c.header ph ms indices) [proof] →
      Step Z s { s with
        shown := ⟨c.pk, proof, c.header, ph, disclosed ms (asUsize indices), indices⟩ :: s.shown }
  | start (s : State) (seed : Z.Seed) (prover : Bytes) :
      Done (Z := Z) (.generateNymSecret seed) [prover] →
      Step Z s { s with enrollments := s.enrollments ++ [.started prover] }
  | commit (s : State) (i : Nat) (seed : Z.Seed) (c : Committed) :
      s.enrollments[i]? = some (.started c.prover) →
      Done (.commitWithNym seed c.committedMessages c.prover) [c.commitment, c.blindFactor] →
      Step Z s { s with enrollments := s.enrollments.set i (.committed c) }
  | sign (s : State) (i : Nat) (issuer : Issuer) (signerSeed seed : Z.Seed) (c : Signed) :
      issuer ∈ s.issuers → issuer.pk = c.pk →
      s.enrollments[i]? = some (.committed c.toCommitted) →
      Done (Z := Z) (.generateNymSecret signerSeed) [c.signer] →
      Done (.blindSignWithNym seed issuer.sk issuer.pk c.commitment c.header c.signer c.messages)
        [c.sig] →
      Step Z s { s with enrollments := s.enrollments.set i (.signed c) }
  | verify (s : State) (i : Nat) (c : Signed) (nymSecret : Bytes) :
      s.enrollments[i]? = some (.signed c) → Done (Z := Z) c.verification [nymSecret] →
      Step Z s { s with enrollments := s.enrollments.set i (.enrolled c nymSecret) }
  | presentNym (s : State) (c : Signed) (nymSecret : Bytes) (seed : Z.Seed) (ph scope : Bytes)
      (total : UInt32) (indices cIndices : List UInt32) (proof pseudonym : Bytes) :
      .enrolled c nymSecret ∈ s.enrollments → scope ≠ [] → total.toNat = c.messages.length →
      indices.Pairwise (· < ·) → cIndices.Pairwise (· < ·) →
      (∀ i ∈ indices, i.toNat < c.messages.length) →
      (∀ i ∈ cIndices, i.toNat < c.committedMessages.length) →
      Done (.proofGenWithNym seed c.pk c.sig c.header ph nymSecret scope c.messages
        c.committedMessages indices cIndices c.blindFactor) [proof, pseudonym] →
      Step Z s { s with
        nymShown := ⟨nymSecret, c.pk, proof, pseudonym, c.header, ph, scope, total,
          disclosed c.messages (asUsize indices), disclosed c.committedMessages (asUsize cIndices),
          indices, cIndices⟩ :: s.nymShown }

/-- A state the parties can come to. -/
def Reachable (Z : Zkryptium) (s : State) : Prop := Relation.ReflTransGen (Step Z) State.empty s

variable {Z : Zkryptium} {s : State}

/-! ## What the backend did -/

/-- The credential decoder takes the signatures the backend makes. -/
def Storable (Z : Zkryptium) : Prop :=
  ∀ {seed messages sk pk header sig}, Z.sign seed messages sk pk header = .ok sig →
    ∀ arr : U8Array 80, arr.val = Z.signatureToBytes sig → Accepts Z arr

/-- One of the issuers signed these messages, and the credential holds that
signature and the messages. -/
structure StoredCredential.Issued (Z : Zkryptium) (issuers : List Issuer) (c : StoredCredential)
    (messages : List Bytes) : Prop where
  short : ∀ m ∈ messages, m.length < 2 ^ 32
  signed : ∃ issuer ∈ issuers, issuer.pk = c.pk ∧ ∃ (seed : Z.Seed) (sig : Bytes),
    Done (.sign seed issuer.sk issuer.pk c.header messages) [sig] ∧
      c.bytes = sig ++ framing.encodeAll messages

/-- These are the bytes of the issuance `i`. -/
structure Signed.Of (c : Signed) (i : Issuance Z) : Prop where
  header : i.header = c.header
  messages : i.messages = c.messages
  committed : i.committedMessages = c.committedMessages
  pk : Z.publicKeyToBytes i.keys.2 = c.pk
  prover : Z.pseudonymSecretToBytes (Z.pseudonymSecretRandom i.proverSeed) = c.prover
  signer : Z.pseudonymSecretToBytes (Z.pseudonymSecretRandom i.signerSeed) = c.signer
  blindFactor : Z.blindFactorToBytes i.blindFactor = c.blindFactor
  sig : Z.blindSignatureToBytes i.signature = c.sig

/-- What is behind each stage of an enrollment. -/
def Enrollment.Genuine (Z : Zkryptium) : Enrollment → Prop
  | .started prover => ∃ seed, Done (Z := Z) (.generateNymSecret seed) [prover]
  | .committed c => ∃ proverSeed seed, Done (Z := Z) (.generateNymSecret proverSeed) [c.prover] ∧
      Done (Z := Z) (.commitWithNym seed c.committedMessages c.prover) [c.commitment, c.blindFactor]
  | .signed c => ∃ i : Issuance Z, c.Of i
  | .enrolled c nymSecret => ∃ (i : Issuance Z) (nym : Z.PseudonymSecret), c.Of i ∧
      i.verify = .ok nym ∧ Z.pseudonymSecretToBytes nym = nymSecret

/-- These are the bytes of the presentation `p`. -/
structure NymProof.Of (q : NymProof) (p : Presentation Z) : Prop where
  nymSecret : Z.pseudonymSecretToBytes p.nym = q.nymSecret
  pk : Z.publicKeyToBytes p.keys.2 = q.pk
  proof : Z.pokSignatureToBytes p.proof = q.proof
  pseudonym : Z.pseudonymToBytes p.pseudonym = q.pseudonym
  header : p.header = q.header
  ph : p.ph = q.ph
  scope : p.scope = q.scope
  total : q.totalSignerMessages.toNat = p.messages.length
  disclosedMessages : disclosed p.messages p.indices = q.disclosedMessages
  disclosedCommitted :
    disclosed p.committedMessages p.commitmentIndices = q.disclosedCommittedMessages
  indices : p.indices = asUsize q.indices
  commitmentIndices : p.commitmentIndices = asUsize q.commitmentIndices

/-- **The invariant.**  Whatever a party holds or shows, the backend has made. -/
structure Genuine (Z : Zkryptium) (s : State) : Prop where
  issuers : ∀ i ∈ s.issuers, ∃ seed, Done (Z := Z) (.generateKeypair seed) [i.sk, i.pk]
  stored : ∀ c ∈ s.stored, ∃ messages, c.Issued Z s.issuers messages
  shown : ∀ p ∈ s.shown, Accepted Z p.check
  enrollments : ∀ e ∈ s.enrollments, e.Genuine Z
  nymShown : ∀ q ∈ s.nymShown, ∃ p : Presentation Z, q.Of p

theorem genuine_empty (Z : Zkryptium) : Genuine Z State.empty :=
  ⟨nofun, nofun, nofun, nofun, nofun⟩

theorem StoredCredential.Issued.mono {issuers issuers' : List Issuer} {c : StoredCredential}
    {messages : List Bytes} (h : c.Issued Z issuers messages) (hsub : issuers ⊆ issuers') :
    c.Issued Z issuers' messages := by
  obtain ⟨hshort, issuer, hissuer, hsigned⟩ := h
  exact ⟨hshort, issuer, hsub hissuer, hsigned⟩

/-- Every target that can hold an issued credential finds its signature and its
messages. -/
theorem StoredCredential.Issued.parses (hZ : PlainScheme Z) (hstore : Storable Z)
    (h : Genuine Z s) {c : StoredCredential} {messages : List Bytes}
    (hc : c.Issued Z s.issuers messages) :
    ∃ keySeed keys seed signature, Z.keyPairRandom keySeed = .ok keys ∧
      Z.sign seed (some messages) keys.1 keys.2 (some c.header) = .ok signature ∧
      c.pk = Z.publicKeyToBytes keys.2 ∧ c.bytes.take 80 = Z.signatureToBytes signature ∧
      ∀ t : Target, 32 ≤ t.bits → c.bytes.length ≤ t.isizeMax → ∀ ms,
        parseBbsCredential t Z c.bytes = .returned (.ok ms) ↔ ms = messages := by
  obtain ⟨hshort, issuer, hissuer, hpk, seed, sig, hsign, hbytes⟩ := hc
  obtain ⟨keySeed, hdone⟩ := h.issuers issuer hissuer
  obtain ⟨keys, hkeys, hsk, hpk'⟩ := keys_of_done hdone
  rw [← hsk, ← hpk'] at hsign
  obtain ⟨signature, hsig, rfl⟩ := sig_of_done hZ.toKeysDecode hkeys hsign
  have hlen := hZ.signature_length hsig
  have htake : c.bytes.take 80 = Z.signatureToBytes signature := by
    rw [hbytes, List.take_left' hlen]
  refine ⟨keySeed, keys, seed, signature, hkeys, hsig, hpk.symm.trans hpk'.symm, htake,
    fun t hbits hfit ms => ?_⟩
  have hcred : IsCredential Z c.bytes messages :=
    ⟨⟨⟨Z.signatureToBytes signature, hlen⟩, hstore hsig _ rfl, hbytes⟩, hshort⟩
  have hparse := (parse_ok_iff hbits hfit).mpr hcred
  constructor
  · intro h
    rw [hparse] at h
    cases h
    rfl
  · rintro rfl
    exact hparse

/-- A holder who is waiting for nothing but the verification gets it. -/
theorem Signed.Of.succeeds (hZ : PseudonymScheme Z) {c : Signed} {i : Issuance Z} (h : c.Of i)
    {nym : Z.PseudonymSecret} (hnym : i.verify = .ok nym) :
    Succeeds (Z := Z) c.verification [Z.pseudonymSecretToBytes nym] := by
  have hverify := i.verify_succeeds hZ hnym
  rw [h.header, h.messages, h.committed, h.pk, h.prover, h.signer, h.blindFactor, h.sig] at hverify
  exact hverify

theorem NymProof.Of.accepted (hZ : PseudonymScheme Z) {q : NymProof} {p : Presentation Z}
    (h : q.Of p) : Accepted Z q.check := by
  have haccept := p.accepted hZ h.indices h.commitmentIndices h.total
  rw [h.pk, h.proof, h.pseudonym, h.header, h.ph, h.scope, h.disclosedMessages,
    h.disclosedCommitted] at haccept
  exact haccept

/-! ## One step -/

/-- Changing one enrollment leaves the others genuine. -/
theorem Genuine.set_enrollment (h : Genuine Z s) (i : Nat) {e : Enrollment} (he : e.Genuine Z) :
    Genuine Z { s with enrollments := s.enrollments.set i e } where
  issuers := h.issuers
  stored := h.stored
  shown := h.shown
  enrollments e' he' := by
    rcases List.mem_or_eq_of_mem_set he' with hmem | rfl
    · exact h.enrollments e' hmem
    · exact he
  nymShown := h.nymShown

theorem Genuine.enrollment (h : Genuine Z s) {i : Nat} {e : Enrollment}
    (he : s.enrollments[i]? = some e) : e.Genuine Z :=
  h.enrollments e (List.mem_of_getElem? he)

theorem accepted_present (hZ : PlainScheme Z) (hstore : Storable Z) (h : Genuine Z s)
    {c : StoredCredential} (hc : c ∈ s.stored) {t : Target} (hbits : 32 ≤ t.bits)
    (hfit : c.bytes.length ≤ t.isizeMax) {ms : List Bytes}
    (hparse : parseBbsCredential t Z c.bytes = .returned (.ok ms))
    {seed : Z.Seed} {ph proof : Bytes} {indices : List UInt32} (hasc : indices.Pairwise (· < ·))
    (hrange : ∀ i ∈ indices, i.toNat < ms.length)
    (hproof : Done (.proofGen seed c.pk (c.bytes.take 80) c.header ph ms indices) [proof]) :
    Accepted Z (.proofVerify c.pk proof c.header ph (disclosed ms (asUsize indices)) indices) := by
  obtain ⟨messages, hissued⟩ := h.stored c hc
  obtain ⟨keySeed, keys, _, signature, hkeys, hsig, hpk, htake, hms⟩ := hissued.parses hZ hstore h
  obtain rfl := (hms t hbits hfit ms).mp hparse
  rw [hpk, htake] at hproof
  rw [hpk]
  exact proof_accepted hZ hkeys hsig hasc hrange hproof

theorem genuine_signed (hZ : PseudonymScheme Z) (h : Genuine Z s) {i : Nat} {issuer : Issuer}
    {signerSeed seed : Z.Seed} {c : Signed} (hissuer : issuer ∈ s.issuers)
    (hpk : issuer.pk = c.pk) (hstage : s.enrollments[i]? = some (.committed c.toCommitted))
    (hsigner : Done (Z := Z) (.generateNymSecret signerSeed) [c.signer])
    (hsign : Done (.blindSignWithNym seed issuer.sk issuer.pk c.commitment c.header c.signer
      c.messages) [c.sig]) : (Enrollment.signed c).Genuine Z := by
  obtain ⟨keySeed, hkeys⟩ := h.issuers issuer hissuer
  obtain ⟨proverSeed, commitSeed, hprover, hcommit⟩ := h.enrollment hstage
  obtain ⟨iss, hheader, hmessages, hcommitted, hkey, hprv, hsgn, hbf, hsig⟩ :=
    issuance_of_done hZ hkeys hprover hsigner hcommit hsign
  exact ⟨iss, hheader, hmessages, hcommitted, hkey.trans hpk, hprv, hsgn, hbf, hsig⟩

theorem genuine_enrolled (hZ : PseudonymScheme Z) (h : Genuine Z s) {i : Nat} {c : Signed}
    {nymSecret : Bytes} (hstage : s.enrollments[i]? = some (.signed c))
    (hverify : Done (Z := Z) c.verification [nymSecret]) :
    (Enrollment.enrolled c nymSecret).Genuine Z := by
  obtain ⟨iss, hof⟩ := h.enrollment hstage
  obtain ⟨nym, hnym⟩ := hZ.issue_verify iss
  have hsame := (hof.succeeds hZ hnym).rust.symm.trans hverify.eval
  exact ⟨iss, nym, hof, hnym, (List.cons.inj (Except.ok.inj hsame)).1⟩

/-- The presentation behind a proof with pseudonym. -/
theorem presentation_of_enrolled (hZ : PseudonymScheme Z) {c : Signed} {nymSecret : Bytes}
    (hc : (Enrollment.enrolled c nymSecret).Genuine Z) {seed : Z.Seed}
    {ph scope proof pseudonym : Bytes} {total : UInt32} {indices cIndices : List UInt32}
    (hscope : scope ≠ []) (htotal : total.toNat = c.messages.length)
    (hasc : indices.Pairwise (· < ·)) (hcasc : cIndices.Pairwise (· < ·))
    (hrange : ∀ i ∈ indices, i.toNat < c.messages.length)
    (hcrange : ∀ i ∈ cIndices, i.toNat < c.committedMessages.length)
    (hproof : Done (.proofGenWithNym seed c.pk c.sig c.header ph nymSecret scope c.messages
      c.committedMessages indices cIndices c.blindFactor) [proof, pseudonym]) :
    ∃ p : Presentation Z, NymProof.Of ⟨nymSecret, c.pk, proof, pseudonym, c.header, ph, scope,
      total, disclosed c.messages (asUsize indices),
      disclosed c.committedMessages (asUsize cIndices), indices, cIndices⟩ p := by
  obtain ⟨i, nym, hof, hnym, hsecret⟩ := hc
  rw [← hof.pk, ← hof.sig, ← hof.header, ← hof.messages, ← hof.committed, ← hof.blindFactor,
    ← hsecret] at hproof
  rw [← hof.messages] at hrange htotal
  rw [← hof.committed] at hcrange
  obtain ⟨p, rfl, rfl, rfl, hindices, hcindices, hpok, hpsd⟩ :=
    presentation_of_done hZ i hnym hscope hasc hcasc hrange hcrange hproof
  have hsame : p.nym = nym := Except.ok.inj (p.verified.symm.trans hnym)
  exact ⟨p, {
    nymSecret := by rw [hsame, hsecret]
    pk := hof.pk
    proof := hpok
    pseudonym := hpsd
    header := hof.header
    ph := rfl
    scope := rfl
    total := htotal
    disclosedMessages := by rw [hof.messages, hindices]
    disclosedCommitted := by rw [hof.committed, hcindices]
    indices := hindices
    commitmentIndices := hcindices }⟩

/-- **Every step keeps the invariant**, whoever takes it. -/
theorem genuine_step (hplain : PlainScheme Z) (hstore : Storable Z) (hnym : PseudonymScheme Z)
    {s s' : State} (h : Genuine Z s) (hstep : Step Z s s') : Genuine Z s' := by
  cases hstep with
  | generateKeys seed issuer hdone =>
    have hstored : ∀ c ∈ s.stored, ∃ messages, c.Issued Z (issuer :: s.issuers) messages := by
      intro c hc
      obtain ⟨messages, hissued⟩ := h.stored c hc
      exact ⟨messages, hissued.mono (List.subset_cons_self issuer s.issuers)⟩
    exact { h with
      issuers := List.forall_mem_cons.mpr ⟨⟨seed, hdone⟩, h.issuers⟩
      stored := hstored }
  | issue issuer seed header messages sig hissuer hshort hsign =>
    have hnew : StoredCredential.Issued Z s.issuers
        ⟨issuer.pk, header, sig ++ framing.encodeAll messages⟩ messages :=
      ⟨hshort, issuer, hissuer, rfl, seed, sig, hsign, rfl⟩
    exact { h with stored := List.forall_mem_cons.mpr ⟨⟨messages, hnew⟩, h.stored⟩ }
  | present c t ms seed ph indices proof hc hbits hfit hparse hasc hrange hproof =>
    have hnew := accepted_present hplain hstore h hc hbits hfit hparse hasc hrange hproof
    exact { h with shown := List.forall_mem_cons.mpr ⟨hnew, h.shown⟩ }
  | start seed prover hdone =>
    refine { h with enrollments := fun e he => ?_ }
    rcases List.mem_append.mp he with hmem | hmem
    · exact h.enrollments e hmem
    · obtain rfl := List.mem_singleton.mp hmem
      exact ⟨seed, hdone⟩
  | commit i seed c hstage hcommit =>
    obtain ⟨proverSeed, hprover⟩ := h.enrollment hstage
    exact h.set_enrollment i ⟨proverSeed, seed, hprover, hcommit⟩
  | sign i issuer signerSeed seed c hissuer hpk hstage hsigner hsign =>
    exact h.set_enrollment i (genuine_signed hnym h hissuer hpk hstage hsigner hsign)
  | verify i c nymSecret hstage hverify =>
    exact h.set_enrollment i (genuine_enrolled hnym h hstage hverify)
  | presentNym c nymSecret seed ph scope total indices cIndices proof pseudonym hc hscope htotal
      hasc hcasc hrange hcrange hproof =>
    have hnew := presentation_of_enrolled hnym (h.enrollments _ hc) hscope htotal hasc hcasc
      hrange hcrange hproof
    exact { h with nymShown := List.forall_mem_cons.mpr ⟨hnew, h.nymShown⟩ }

theorem genuine_of_reachable (hplain : PlainScheme Z) (hstore : Storable Z)
    (hnym : PseudonymScheme Z) (hs : Reachable Z s) : Genuine Z s := by
  induction hs with
  | refl => exact genuine_empty Z
  | tail _ hstep ih => exact genuine_step hplain hstore hnym ih hstep

/-! ## Every reachable state -/

/-- **Whatever is in flight is accepted where it arrives.**  In every reachable
state, through whatever interleaving the parties came there: every target that
can hold a stored credential parses it to the messages of the step that issued
it, with which its signature verifies; every proof shown is accepted; every
holder of a blind signature can finish the enrollment; and every proof shown under
a pseudonym is accepted, all of it in Rust and in C. -/
theorem deployment_accepts (hplain : PlainScheme Z) (hstore : Storable Z)
    (hnym : PseudonymScheme Z) (hs : Reachable Z s) :
    (∀ c ∈ s.stored, ∃ messages, c.Issued Z s.issuers messages ∧
      Accepted Z (.verify c.pk c.header (c.bytes.take 80) messages) ∧
      ∀ t : Target, 32 ≤ t.bits → c.bytes.length ≤ t.isizeMax →
        parseBbsCredential t Z c.bytes = .returned (.ok messages)) ∧
    (∀ p ∈ s.shown, Accepted Z p.check) ∧
    (∀ c, .signed c ∈ s.enrollments → ∃ nymSecret, Succeeds (Z := Z) c.verification [nymSecret]) ∧
    (∀ q ∈ s.nymShown, Accepted Z q.check) := by
  have h := genuine_of_reachable hplain hstore hnym hs
  refine ⟨fun c hc => ?_, h.shown, fun c hc => ?_, fun q hq => ?_⟩
  · obtain ⟨messages, hissued⟩ := h.stored c hc
    obtain ⟨keySeed, keys, seed, signature, hkeys, hsig, hpk, htake, hms⟩ :=
      hissued.parses hplain hstore h
    refine ⟨messages, hissued, ?_, fun t hbits hfit => (hms t hbits hfit messages).mpr rfl⟩
    rw [hpk, htake]
    exact verify_accepted hplain hkeys hsig
  · obtain ⟨i, hof⟩ := h.enrollments _ hc
    obtain ⟨nym, hverify⟩ := hnym.issue_verify i
    exact ⟨_, hof.succeeds hnym hverify⟩
  · obtain ⟨p, hof⟩ := h.nymShown q hq
    exact hof.accepted hnym

def sampleSigned : Signed where
  prover := spread 32 2
  committedMessages := []
  commitment := spread 112 7
  blindFactor := spread 32 5
  pk := spread 96 7
  header := [9]
  signer := spread 32 3
  messages := [[], [1]]
  sig := spread 80 27

/-- The holder of `sampleSigned` shows the first message. -/
def sampleShown (scope proof pseudonym : Bytes) : NymProof where
  nymSecret := spread 32 5
  pk := spread 96 7
  proof := proof
  pseudonym := pseudonym
  header := [9]
  ph := [4]
  scope := scope
  totalSignerMessages := 2
  disclosedMessages := [[]]
  disclosedCommittedMessages := []
  indices := [0]
  commitmentIndices := []

/-- A credential is stored while an enrollment goes on; then its holder shows it
on two scopes. -/
theorem sample_reachable :
    ∃ s, Reachable transparent s ∧
      ⟨spread 96 7, [9], spread 80 22 ++ framing.encodeAll [[1, 2], [], [3]]⟩ ∈ s.stored ∧
      sampleShown [6] (spread 48 33) [5, 6] ∈ s.nymShown ∧
      sampleShown [7] (spread 48 34) [5, 7] ∈ s.nymShown := by
  refine ⟨_, .tail (.tail (.tail (.tail (.tail (.tail (.tail (.tail .refl
    (.generateKeys _ (7 : UInt8) ⟨spread 32 7, spread 96 7⟩ (.rust rfl)))
    (.start _ (2 : UInt8) (spread 32 2) (.rust rfl)))
    (.commit _ 0 (5 : UInt8) sampleSigned.toCommitted rfl (.rust rfl)))
    (.issue _ ⟨spread 32 7, spread 96 7⟩ (0 : UInt8) [9] [[1, 2], [], [3]] (spread 80 22)
      List.mem_cons_self (by decide) (.rust rfl)))
    (.sign _ 0 ⟨spread 32 7, spread 96 7⟩ (3 : UInt8) (0 : UInt8) sampleSigned
      List.mem_cons_self rfl rfl (.rust rfl) (.rust rfl)))
    (.verify _ 0 sampleSigned (spread 32 5) rfl (.rust rfl)))
    (.presentNym _ sampleSigned (spread 32 5) (0 : UInt8) [4] [6] 2 [0] [] (spread 48 33) [5, 6]
      List.mem_cons_self nofun rfl (by simp) (by simp) (by simp [sampleSigned]) nofun (.rust rfl)))
    (.presentNym _ sampleSigned (spread 32 5) (0 : UInt8) [4] [7] 2 [0] [] (spread 48 34) [5, 7]
      List.mem_cons_self nofun rfl (by simp) (by simp) (by simp [sampleSigned]) nofun (.rust rfl)),
    List.mem_cons_self, List.mem_cons_of_mem _ List.mem_cons_self, List.mem_cons_self⟩

theorem transparent_storable : Storable transparent := by
  intro _ _ _ _ _ sig _ arr harr
  exact ⟨sig, gather_of_eq harr⟩

/-- The verifier accepts what was shown on the first scope. -/
theorem deployment_accepts_sample :
    Accepted transparent (sampleShown [6] (spread 48 33) [5, 6]).check := by
  obtain ⟨s, hs, _, hshown, _⟩ := sample_reachable
  exact (deployment_accepts transparent_plainScheme transparent_storable
    transparent_pseudonymScheme hs).2.2.2 _ hshown

end BbsFfi.Deployment
