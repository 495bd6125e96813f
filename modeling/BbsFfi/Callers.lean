import BbsFfi.Deployment
import BbsFfi.Errors
import BbsFfi.Hex
import BbsFfi.Library.JsonTexts

/-!
# The sample programs

The crate's sample programs enroll a holder and let him show his credential: two
print one proof as a test vector, the benchmark makes and verifies many of them
in a loop.  Assuming that the backend is complete (`PseudonymScheme`), they end
only where it fails to make something: every vector that is printed is read, as
JSON, as a verification that succeeds (`vectors_accepted`), and the benchmark never
comes to its own error (`benchmark_never_rejects`).  Times are left out.
-/

namespace BbsFfi.Callers

open Results Loops BbsFfi.Rust BbsFfi.Backend BbsFfi.Operations BbsFfi.Values BbsFfi.CFfi
  BbsFfi.Steps BbsFfi.PlainProtocol BbsFfi.NymProtocol BbsFfi.Pseudonyms BbsFfi.Deployment
  BbsFfi.Errors BbsFfi.Hex BbsFfi.Transparent JsonTexts

/-! ## Issuing -/

/-- `b".."`, and `format!("..").into_bytes()`. -/
def utf8 (s : String) : Bytes := s.toUTF8.data.toList

/-- `value.to_be_bytes().to_vec()` -/
def encodeI64Be (value : Int64) : Bytes :=
  [(56 : UInt64), 48, 40, 32, 24, 16, 8, 0].map fun k => (value.toUInt64 >>> k).toUInt8

/-- What a program signs and in which scope it shows it. -/
structure Scenario where
  header : Bytes
  scope : Bytes
  attestationType : Bytes
  deviceType : Bytes
  issuedAt : Int64
  expiresAt : Int64
  signerNymEntropy : Bytes

def Scenario.signerMessages (sc : Scenario) : List Bytes :=
  [sc.attestationType, sc.deviceType, encodeI64Be sc.issuedAt, encodeI64Be sc.expiresAt]

def Scenario.disclosedMessages (sc : Scenario) : List Bytes :=
  [sc.attestationType, sc.deviceType, encodeI64Be sc.expiresAt]

structure Seeds (Z : Zkryptium) where
  keypair : Z.Seed
  proverNym : Z.Seed
  commit : Z.Seed
  blindSign : Z.Seed

structure Holder where
  keypair : BbsKeyPair
  proverNymSecret : Bytes
  commitment : BbsBlindCommitmentResult
  blindSignature : Bytes
  verifyResult : BbsVerifyBlindSignResult

variable (Z : Zkryptium)

/-- The calls that all three programs begin with. -/
def enroll (seeds : Seeds Z) (sc : Scenario) : Except FfiError Holder := do
  let keypair ← bbsGenerateKeypair Z seeds.keypair
  let proverNymSecret ← bbsGenerateNymSecret Z seeds.proverNym
  let commitment ← bbsCommitWithNym Z seeds.commit [] proverNymSecret
  let blindSignature ← bbsBlindSignWithNym Z seeds.blindSign keypair.secretKey keypair.publicKey
    commitment.commitmentWithProof sc.header sc.signerNymEntropy sc.signerMessages
  let verifyResult ← bbsVerifyBlindSignWithNym Z keypair.publicKey blindSignature sc.header
    sc.signerMessages [] proverNymSecret sc.signerNymEntropy commitment.blindFactor
  return ⟨keypair, proverNymSecret, commitment, blindSignature, verifyResult⟩

/-- The proof of all messages but the issue date. -/
def proofOf (proofSeed : Z.Seed) (sc : Scenario) (holder : Holder) (presentationHeader : Bytes) :
    Except FfiError BbsProofWithPseudonym :=
  bbsProofGenWithNym Z proofSeed holder.keypair.publicKey holder.blindSignature sc.header
    presentationHeader holder.verifyResult.nymSecret sc.scope sc.signerMessages [] [0, 1, 3] []
    holder.commitment.blindFactor

/-! ## Test vectors -/

/-- The format string of the JSON text, cut at its arguments. -/
def vectorPieces : List String :=
  ["\x7b\n  \"issuerPublicKeyHex\": \"",
    "\",\n  \"proofHex\": \"",
    "\",\n  \"pseudonymHex\": \"",
    "\",\n  \"headerHex\": \"",
    "\",\n  \"presentationHeaderHex\": \"",
    "\",\n  \"scopeHex\": \"",
    "\",\n  \"totalSignerMessages\": 4,\n  \"disclosedMessages\": [\n" ++
      "    \x7b\"index\": 0, \"valueHex\": \"",
    "\"\x7d,\n    \x7b\"index\": 1, \"valueHex\": \"",
    "\"\x7d,\n    \x7b\"index\": 3, \"valueHex\": \"",
    "\"\x7d\n  ],\n  \"disclosedCommittedMessages\": [],\n" ++
      "  \"disclosedCommitmentIndices\": []\n\x7d\n"]

/-- `format!`: the arguments between the pieces of the format string. -/
def format : List String → List String → String
  | piece :: pieces, arg :: args => piece ++ arg ++ format pieces args
  | pieces, _ => String.join pieces

theorem format_cons (piece arg : String) (pieces args : List String) :
    format (piece :: pieces) (arg :: args) = piece ++ (arg ++ format pieces args) := by
  rw [format, String.append_assoc]

/-- The JSON text that is printed; `encode` is `hex::encode`. -/
def vectorText (encode : Bytes → String) (issuerPublicKey proof pseudonym header
    presentationHeader scope attestationType deviceType expiresAt : Bytes) : String :=
  format vectorPieces ([issuerPublicKey, proof, pseudonym, header, presentationHeader, scope,
    attestationType, deviceType, expiresAt].map encode)

/-- The two programs differ in what they sign and show. -/
def generatePseudonymVector (encode : Bytes → String) (seeds : Seeds Z) (proofSeed : Z.Seed)
    (sc : Scenario) (presentationHeader : Bytes) : Except FfiError String := do
  let holder ← enroll Z seeds sc
  let proofWithPseudonym ← proofOf Z proofSeed sc holder presentationHeader
  return vectorText encode holder.keypair.publicKey proofWithPseudonym.proof
    proofWithPseudonym.pseudonym sc.header presentationHeader sc.scope sc.attestationType
    sc.deviceType (encodeI64Be sc.expiresAt)

def androidScenario : Scenario where
  header := utf8 "ackagent-anonymous-attestation-v2"
  scope := utf8 "123e4567-e89b-12d3-a456-426614174000"
  attestationType := utf8 "android_strongbox"
  deviceType := utf8 "android"
  issuedAt := 2100000000
  expiresAt := 2200000000
  signerNymEntropy := List.replicate 32 0x42

/-- `main` of `generate_android_pseudonym_vector.rs` -/
def generateAndroidPseudonymVector (encode : Bytes → String) (seeds : Seeds Z)
    (proofSeed : Z.Seed) : Except FfiError String :=
  generatePseudonymVector Z encode seeds proofSeed androidScenario androidScenario.scope

def webSdkScenario : Scenario where
  header := utf8 "ackagent-anonymous-attestation-v2"
  scope := utf8 "web-sdk-vector-request-id"
  attestationType := utf8 "ios_secure_enclave"
  deviceType := utf8 "ios"
  issuedAt := 2100000000
  expiresAt := 2200000000
  signerNymEntropy := List.replicate 32 0x42

/-- `main` of `generate_web_sdk_pseudonym_vector.rs` -/
def generateWebSdkPseudonymVector (encode : Bytes → String) (seeds : Seeds Z)
    (proofSeed : Z.Seed) : Except FfiError String :=
  generatePseudonymVector Z encode seeds proofSeed webSdkScenario
    (utf8 "web-sdk-vector-presentation-header")

/-! ## The benchmark -/

/-- A `Box<dyn Error>` of the benchmark. -/
inductive BoxedError where
  | ffi (e : FfiError)
  | text (s : String)
  deriving DecidableEq, Repr

def benchmarkScenario (expiresAtValue : Int64) : Scenario where
  header := utf8 "ackagent-anonymous-attestation-v2"
  scope := utf8 "predicate-prototype-request"
  attestationType := utf8 "ios_secure_enclave"
  deviceType := utf8 "ios"
  issuedAt := 2100000000
  expiresAt := expiresAtValue
  signerNymEntropy := List.replicate 32 0x22

def presentationHeader (i : Nat) : Bytes :=
  utf8 ("predicate-prototype-presentation-" ++ toString i)

/-- The verification of a proof, in the terms of the benchmark. -/
def verifyProof (sc : Scenario) (holder : Holder) (presentationHeader : Bytes)
    (proofWithPseudonym : BbsProofWithPseudonym) : Except FfiError Bool :=
  bbsProofVerifyWithNym Z holder.keypair.publicKey proofWithPseudonym.proof
    proofWithPseudonym.pseudonym sc.header presentationHeader sc.scope 4 sc.disclosedMessages []
    [0, 1, 3] []

/-- `for i in 0..iterations`, with the iterations to go and the size of the last proof. -/
def benchmarkLoop (proofSeeds : Nat → Z.Seed) (sc : Scenario) (holder : Holder) :
    Nat → Nat → Nat → Except BoxedError Nat
  | 0, _, proofSize => return proofSize
  | n + 1, i, _ => do
    let proofWithPseudonym ←
      (proofOf Z (proofSeeds i) sc holder (presentationHeader i)).mapError .ffi
    let verified ←
      (verifyProof Z sc holder (presentationHeader i) proofWithPseudonym).mapError .ffi
    if !verified then
      throw (.text "proof verification failed in benchmark loop")
    benchmarkLoop proofSeeds sc holder n (i + 1) proofWithPseudonym.proof.length

/-- `proof_size_bytes` of the result.  Room is made for the samples, a `u128` for
each iteration, before the first proof. -/
def runCase (t : Target) (seeds : Seeds Z) (proofSeeds : Nat → Z.Seed) (expiresAtValue : Int64)
    (iterations : Nat) : Outcome Panic (Except BoxedError Nat) :=
  let sc := benchmarkScenario expiresAtValue
  match enroll Z seeds sc with
  | .error e => return .error (.ffi e)
  | .ok holder => do
    withCapacity t 16 iterations
    withCapacity t 16 iterations
    return benchmarkLoop Z proofSeeds sc holder iterations 0 0

/-! ## Issuer keys -/

/-- `main` of `generate_issuer_keypair.rs`, with the lines it prints. -/
def generateIssuerKeypair (seed : Z.Seed) : Outcome Panic (List String) := do
  let keypair ← unwrap (bbsGenerateKeypair Z seed)
  return ["ISSUER_PRIVATE_KEY_HEX=" ++ toHex keypair.secretKey,
    "ISSUER_PUBLIC_KEY_HEX=" ++ toHex keypair.publicKey]

/-! ## Enrolling -/

variable {Z}

/-- The failure of an operation that makes something, not of a verification. -/
def MakingFailed (e : FfiError) : Prop :=
  ∃ code ∈ [BbsFfiResult.KeygenFailed, .CommitmentFailed, .SignFailed, .ProofGenFailed],
    codeOf e = some code

theorem making_of_failsAs {α : Type} {code : BbsFfiResult} {x : Except FfiError α}
    (h : FailsAs code x)
    (hcode : code ∈ [BbsFfiResult.KeygenFailed, .CommitmentFailed, .SignFailed, .ProofGenFailed]) :
    ErrorsIn MakingFailed x :=
  fun e he => ⟨code, hcode, h e he⟩

/-- A nym secret can come out as these bytes. -/
def Drawable (Z : Zkryptium) (secret : Bytes) : Prop :=
  ∃ seed, Z.pseudonymSecretToBytes (Z.pseudonymSecretRandom seed) = secret

def Holder.signed (holder : Holder) (sc : Scenario) : Signed where
  prover := holder.proverNymSecret
  committedMessages := []
  commitment := holder.commitment.commitmentWithProof
  blindFactor := holder.commitment.blindFactor
  pk := holder.keypair.publicKey
  header := sc.header
  signer := sc.signerNymEntropy
  messages := sc.signerMessages
  sig := holder.blindSignature

def Holder.Enrolled (Z : Zkryptium) (sc : Scenario) (holder : Holder) : Prop :=
  (Enrollment.enrolled (holder.signed sc) holder.verifyResult.nymSecret).Genuine Z

theorem verified_of_signed (hZ : PseudonymScheme Z) {sc : Scenario}
    (hentropy : Drawable Z sc.signerNymEntropy) {seeds : Seeds Z} {keypair : BbsKeyPair}
    {prover : Bytes} {commitment : BbsBlindCommitmentResult} {sig : Bytes}
    (hkeypair : bbsGenerateKeypair Z seeds.keypair = .ok keypair)
    (hprover : bbsGenerateNymSecret Z seeds.proverNym = .ok prover)
    (hcommit : bbsCommitWithNym Z seeds.commit [] prover = .ok commitment)
    (hsign : bbsBlindSignWithNym Z seeds.blindSign keypair.secretKey keypair.publicKey
      commitment.commitmentWithProof sc.header sc.signerNymEntropy sc.signerMessages = .ok sig) :
    ∃ result, bbsVerifyBlindSignWithNym Z keypair.publicKey sig sc.header sc.signerMessages []
        prover sc.signerNymEntropy commitment.blindFactor = .ok result ∧
      Holder.Enrolled Z sc ⟨keypair, prover, commitment, sig, result⟩ := by
  obtain ⟨signerSeed, hsigner⟩ := hentropy
  have hkeys : Done (.generateKeypair seeds.keypair) [keypair.secretKey, keypair.publicKey] :=
    .rust (map_eq_ok.mpr ⟨keypair, hkeypair, rfl⟩)
  have hdrawn : Done (Z := Z) (.generateNymSecret seeds.proverNym) [prover] :=
    .rust (congrArg (fun r => r.map fun b => [b]) hprover)
  have hdrawn' : Done (Z := Z) (.generateNymSecret signerSeed) [sc.signerNymEntropy] :=
    .rust (congrArg (fun b => Except.ok [b]) hsigner)
  have hcommitted : Done (Z := Z) (.commitWithNym seeds.commit [] prover)
      [commitment.commitmentWithProof, commitment.blindFactor] :=
    .rust (map_eq_ok.mpr ⟨commitment, hcommit, rfl⟩)
  have hsigned : Done (Z := Z) (.blindSignWithNym seeds.blindSign keypair.secretKey
      keypair.publicKey commitment.commitmentWithProof sc.header sc.signerNymEntropy
      sc.signerMessages) [sig] := .rust (map_eq_ok.mpr ⟨sig, hsign, rfl⟩)
  obtain ⟨i, hheader, hmessages, hnone, hpk, hprv, hsgn, hbf, hsig⟩ :=
    issuance_of_done hZ hkeys hdrawn hdrawn' hcommitted hsigned
  have hof : ∀ result, ((Holder.mk keypair prover commitment sig result).signed sc).Of i :=
    fun _ => ⟨hheader, hmessages, hnone, hpk, hprv, hsgn, hbf, hsig⟩
  obtain ⟨nym, hnym⟩ := hZ.issue_verify i
  obtain ⟨result, hresult, heq⟩ := map_eq_ok.mp ((hof ⟨[]⟩).succeeds hZ hnym).rust
  exact ⟨result, hresult, i, nym, hof result, hnym, (List.cons.inj heq).1.symm⟩

theorem enroll_ends (hZ : PseudonymScheme Z) {sc : Scenario}
    (hentropy : Drawable Z sc.signerNymEntropy) (seeds : Seeds Z) :
    Ends MakingFailed (Holder.Enrolled Z sc) (enroll Z seeds sc) := by
  unfold enroll
  refine ((making_of_failsAs (bbsGenerateKeypair_failsAs _) (by simp)).ends fun _ h => h).bind
    fun keypair hkeypair => ?_
  refine ((errorsIn_pure _).ends fun _ h => h).bind fun prover hprover => ?_
  refine ((making_of_failsAs (bbsCommitWithNym_failsAs _ _ _) (by simp)).ends fun _ h => h).bind
    fun commitment hcommit => ?_
  refine ((making_of_failsAs (bbsBlindSignWithNym_failsAs _ _ _ _ _ _ _) (by simp)).ends
    fun _ h => h).bind fun sig hsign => ?_
  obtain ⟨result, hresult, henrolled⟩ :=
    verified_of_signed hZ hentropy hkeypair hprover hcommit hsign
  rw [hresult]
  exact .ok henrolled

/-! ## Showing -/

def shownAs (sc : Scenario) (holder : Holder) (presentationHeader : Bytes)
    (proofWithPseudonym : BbsProofWithPseudonym) : Check :=
  .proofVerifyWithNym holder.keypair.publicKey proofWithPseudonym.proof
    proofWithPseudonym.pseudonym sc.header presentationHeader sc.scope 4 sc.disclosedMessages []
    [0, 1, 3] []

theorem accepted_of_proofOf (hZ : PseudonymScheme Z) {sc : Scenario} (hscope : sc.scope ≠ [])
    {holder : Holder} (h : holder.Enrolled Z sc) {proofSeed : Z.Seed} {ph : Bytes}
    {shown : BbsProofWithPseudonym} (hproof : proofOf Z proofSeed sc holder ph = .ok shown) :
    Accepted Z (shownAs sc holder ph shown) := by
  have hdone : Done (Z := Z) (.proofGenWithNym proofSeed holder.keypair.publicKey
      holder.blindSignature sc.header ph holder.verifyResult.nymSecret sc.scope sc.signerMessages
      [] [0, 1, 3] [] holder.commitment.blindFactor) [shown.proof, shown.pseudonym] :=
    .rust (map_eq_ok.mpr ⟨shown, hproof, rfl⟩)
  have htotal : (4 : UInt32).toNat = (holder.signed sc).messages.length := rfl
  obtain ⟨p, hof⟩ := presentation_of_enrolled hZ h hscope htotal (by simp) (by simp)
    (by simp [Holder.signed, Scenario.signerMessages]) (by simp) hdone
  exact hof.accepted hZ

/-- **Making a proof.**  It fails only in the backend, and what it gives is accepted. -/
theorem proofOf_ends (hZ : PseudonymScheme Z) {sc : Scenario} (hscope : sc.scope ≠ [])
    {holder : Holder} (h : holder.Enrolled Z sc) (proofSeed : Z.Seed) (ph : Bytes) :
    Ends MakingFailed (fun shown => proofOf Z proofSeed sc holder ph = .ok shown ∧
      Accepted Z (shownAs sc holder ph shown)) (proofOf Z proofSeed sc holder ph) := by
  have herrors : ErrorsIn MakingFailed (proofOf Z proofSeed sc holder ph) :=
    making_of_failsAs (bbsProofGenWithNym_failsAs _ _ _ _ _ _ _ _ _ _ _ _) (by simp)
  exact herrors.ends fun shown hproof => ⟨hproof, accepted_of_proofOf hZ hscope h hproof⟩

theorem exists_pseudonym (hZ : PseudonymScheme Z)
    {P : Z.PseudonymSecret → Bytes → Z.Pseudonym} (hP : DerivesFrom Z P) {sc : Scenario}
    {holder : Holder} (h : holder.Enrolled Z sc) :
    ∃ pseudonym, ∀ proofSeed ph shown, proofOf Z proofSeed sc holder ph = .ok shown →
      shown.pseudonym = pseudonym := by
  obtain ⟨i, nym, _, hnym, hsecret⟩ := h
  refine ⟨Z.pseudonymToBytes (P nym sc.scope), fun proofSeed ph shown hproof => ?_⟩
  have hlength := hZ.secret_length (.combined i hnym)
  have hof : SecretOf Z holder.verifyResult.nymSecret nym :=
    ⟨⟨_, hlength⟩, hsecret, hZ.secret (.combined i hnym) _ rfl⟩
  obtain ⟨nym', hof', hpseudonym⟩ := derived_of_rust hP hproof
  rw [hof.unique hof', hpseudonym]

/-! ## Reading a printed vector -/

def hexOf : Json → Option Bytes
  | .str s => bytesOfDigits s.toList
  | _ => none

def u32Of : Json → Option UInt32
  | .num n => if n < 2 ^ 32 then some (UInt32.ofNat n) else none
  | _ => none

def listOf {α : Type} (read : Json → Option α) : Json → Option (List α)
  | .arr items => items.mapM read
  | _ => none

def member {α : Type} (j : Json) (name : String) (read : Json → Option α) : Option α :=
  (j.get name).bind read

def disclosedOf (j : Json) : Option (UInt32 × Bytes) := do
  let index ← member j "index" u32Of
  let value ← member j "valueHex" hexOf
  return (index, value)

/-- The verification that a vector describes, by the names of its members. -/
def checkOf (j : Json) : Option Check := do
  let pk ← member j "issuerPublicKeyHex" hexOf
  let proof ← member j "proofHex" hexOf
  let pseudonym ← member j "pseudonymHex" hexOf
  let header ← member j "headerHex" hexOf
  let presentationHeader ← member j "presentationHeaderHex" hexOf
  let scope ← member j "scopeHex" hexOf
  let total ← member j "totalSignerMessages" u32Of
  let disclosed ← member j "disclosedMessages" (listOf disclosedOf)
  let committed ← member j "disclosedCommittedMessages" (listOf hexOf)
  let commitmentIndices ← member j "disclosedCommitmentIndices" (listOf u32Of)
  return .proofVerifyWithNym pk proof pseudonym header presentationHeader scope total
    (disclosed.map Prod.snd) committed (disclosed.map Prod.fst) commitmentIndices

def readVector (text : String) : Option Check := (parse text).bind checkOf

/-- The piece closes a string, and scans as these tokens from there on. -/
def Closes (piece : String) (toks : List Token) (st : Scan) : Prop :=
  piece.toList.head? = some '\x22' ∧ scan .idle piece.toList.tail = some (toks, st)

instance (piece : String) (toks : List Token) (st : Scan) : Decidable (Closes piece toks st) :=
  inferInstanceAs (Decidable (_ ∧ _))

/-- Every piece closes a string, and all but the last one open the next. -/
inductive ClosesAll : List String → List (List Token) → Prop
  | last {piece : String} {toks : List Token} :
      Closes piece toks .idle → ClosesAll [piece] [toks]
  | cons {piece : String} {toks : List Token} {pieces : List String} {outs : List (List Token)} :
      Closes piece toks (.string []) → ClosesAll pieces outs →
        ClosesAll (piece :: pieces) (toks :: outs)

theorem scan_closes {piece arg : String} {toks rest : List Token} {st st' : Scan}
    {cs : List Char} (h : Closes piece toks st) (harg : ∀ c ∈ arg.toList, Plain c)
    (hrest : scan st cs = some (rest, st')) :
    scan (.string []) (arg.toList ++ (piece.toList ++ cs))
      = some (.str arg :: (toks ++ rest), st') := by
  obtain ⟨hhead, htail⟩ := h
  rw [← List.cons_head?_tail hhead, List.cons_append]
  exact scan_quoted harg (scan_append htail hrest)

/-- **A formatted text is scanned piece by piece.** -/
theorem scan_format {pieces : List String} {outs : List (List Token)} (h : ClosesAll pieces outs)
    {arg : String} {args : List String} (hlen : args.length + 1 = pieces.length)
    (hargs : ∀ s ∈ arg :: args, ∀ c ∈ s.toList, Plain c) :
    scan (.string []) (arg ++ format pieces args).toList
      = some (((arg :: args).zip outs).flatMap fun p => .str p.1 :: p.2, .idle) := by
  induction h generalizing arg args with
  | @last piece toks hpiece =>
    obtain rfl : args = [] := List.eq_nil_of_length_eq_zero (Nat.succ.inj hlen)
    have harg := hargs arg List.mem_cons_self
    have hend : scan .idle [] = some ([], .idle) := rfl
    have hscan := scan_closes hpiece harg hend
    simpa [format] using hscan
  | @cons piece toks pieces outs hpiece hpieces ih =>
    cases args with
    | nil =>
      obtain rfl : pieces = [] := List.eq_nil_of_length_eq_zero (Nat.succ.inj hlen).symm
      cases hpieces
    | cons next args =>
      obtain ⟨harg, hargs⟩ := List.forall_mem_cons.mp hargs
      have hrest := ih (Nat.succ.inj hlen) hargs
      have hscan := scan_closes hpiece harg hrest
      simpa [format] using hscan

theorem closesAll_vectorPieces : ClosesAll vectorPieces.tail
    [[.comma, .str "proofHex", .colon], [.comma, .str "pseudonymHex", .colon],
      [.comma, .str "headerHex", .colon], [.comma, .str "presentationHeaderHex", .colon],
      [.comma, .str "scopeHex", .colon],
      [.comma, .str "totalSignerMessages", .colon, .num 4, .comma, .str "disclosedMessages",
        .colon, .lbrack, .lbrace, .str "index", .colon, .num 0, .comma, .str "valueHex", .colon],
      [.rbrace, .comma, .lbrace, .str "index", .colon, .num 1, .comma, .str "valueHex", .colon],
      [.rbrace, .comma, .lbrace, .str "index", .colon, .num 3, .comma, .str "valueHex", .colon],
      [.rbrace, .rbrack, .comma, .str "disclosedCommittedMessages", .colon, .lbrack, .rbrack,
        .comma, .str "disclosedCommitmentIndices", .colon, .lbrack, .rbrack, .rbrace]] :=
  .cons (by decide +kernel) <| .cons (by decide +kernel) <| .cons (by decide +kernel) <|
    .cons (by decide +kernel) <| .cons (by decide +kernel) <| .cons (by decide +kernel) <|
    .cons (by decide +kernel) <| .cons (by decide +kernel) <| .last (by decide +kernel)

theorem plain_of_mem_hex : ∀ c ∈ hex, Plain c := by
  have hall : (hex.all fun c => decide (Plain c)) = true := by decide +kernel
  intro c hc
  exact of_decide_eq_true (List.all_eq_true.mp hall c hc)

theorem scan_vectorPiece : scan .idle (vectorPieces.headD "").toList
    = some ([.lbrace, .str "issuerPublicKeyHex", .colon], .string []) := by
  decide +kernel

/-- **The text is read as it was printed.** -/
theorem readVector_vectorText {encode : Bytes → String} (hencode : EncodesHex encode)
    (pk proof pseudonym header ph scope m₀ m₁ m₃ : Bytes) :
    readVector (vectorText encode pk proof pseudonym header ph scope m₀ m₁ m₃)
      = some (.proofVerifyWithNym pk proof pseudonym header ph scope 4 [m₀, m₁, m₃] [] [0, 1, 3]
          []) := by
  have hplain : ∀ s ∈ [pk, proof, pseudonym, header, ph, scope, m₀, m₁, m₃].map encode,
      ∀ c ∈ s.toList, Plain c := by
    intro s hs c hc
    obtain ⟨bytes, _, rfl⟩ := List.mem_map.mp hs
    exact plain_of_mem_hex c (mem_hex bytes c (hencode bytes ▸ hc))
  have hrest : scan (.string []) (encode pk ++ format vectorPieces.tail
      ([proof, pseudonym, header, ph, scope, m₀, m₁, m₃].map encode)).toList = _ :=
    scan_format closesAll_vectorPieces rfl hplain
  have hscan := scan_append scan_vectorPiece hrest
  have htext : vectorText encode pk proof pseudonym header ph scope m₀ m₁ m₃
      = vectorPieces.headD "" ++ (encode pk ++ format vectorPieces.tail
        ([proof, pseudonym, header, ph, scope, m₀, m₁, m₃].map encode)) := by
    exact format_cons ..
  rw [← String.toList_append, ← htext] at hscan
  have hparse : parse (vectorText encode pk proof pseudonym header ph scope m₀ m₁ m₃)
      = some (.obj [("issuerPublicKeyHex", .str (encode pk)), ("proofHex", .str (encode proof)),
        ("pseudonymHex", .str (encode pseudonym)), ("headerHex", .str (encode header)),
        ("presentationHeaderHex", .str (encode ph)), ("scopeHex", .str (encode scope)),
        ("totalSignerMessages", .num 4),
        ("disclosedMessages", .arr [.obj [("index", .num 0), ("valueHex", .str (encode m₀))],
          .obj [("index", .num 1), ("valueHex", .str (encode m₁))],
          .obj [("index", .num 3), ("valueHex", .str (encode m₃))]]),
        ("disclosedCommittedMessages", .arr []), ("disclosedCommitmentIndices", .arr [])]) := by
    rw [parse, tokens, hscan]
    rfl
  rw [readVector, hparse]
  simp only [Option.bind_some, checkOf, member, Json.get_obj, String.reduceEq, if_true, if_false,
    hexOf, hencode.read, Option.bind_eq_bind, listOf, List.mapM_cons, List.mapM_nil, disclosedOf]
  rfl

/-- **The loop.**  It is left only when a proof cannot be made; each turn makes a
proof that is accepted, and the last one is measured. -/
theorem benchmarkLoop_ends (hZ : PseudonymScheme Z) {sc : Scenario} (hscope : sc.scope ≠ [])
    {holder : Holder} (h : holder.Enrolled Z sc) (proofSeeds : Nat → Z.Seed)
    (n i proofSize : Nat) :
    Ends (fun e => ∃ e', e = .ffi e' ∧ MakingFailed e')
      (fun size => (n = 0 → size = proofSize) ∧ ∀ j < n, ∃ shown,
        proofOf Z (proofSeeds (i + j)) sc holder (presentationHeader (i + j)) = .ok shown ∧
        Accepted Z (shownAs sc holder (presentationHeader (i + j)) shown) ∧
        (j + 1 = n → size = shown.proof.length))
      (benchmarkLoop Z proofSeeds sc holder n i proofSize) := by
  induction n generalizing i proofSize with
  | zero =>
    unfold benchmarkLoop
    exact .ok ⟨fun _ => rfl, fun j hj => absurd hj (Nat.not_lt_zero j)⟩
  | succ n ih =>
    unfold benchmarkLoop
    refine ((proofOf_ends hZ hscope h (proofSeeds i) (presentationHeader i)).mapError
      fun e he => ⟨e, rfl, he⟩).bind fun shown ⟨hproof, haccept⟩ => ?_
    have hverified : verifyProof Z sc holder (presentationHeader i) shown = .ok true :=
      haccept.rust
    rw [hverified]
    refine (ih (i + 1) shown.proof.length).imp fun size ⟨hsize, hrest⟩ => ⟨nofun, ?_⟩
    intro j hj
    cases j with
    | zero => exact ⟨shown, hproof, haccept, fun hlast => hsize (by omega)⟩
    | succ j =>
      have hshift : i + (j + 1) = i + 1 + j := by omega
      rw [hshift]
      obtain ⟨shown', hproof', haccept', hlast⟩ := hrest j (by omega)
      exact ⟨shown', hproof', haccept', fun h => hlast (by omega)⟩

theorem runCase_of_enroll {t : Target} {seeds : Seeds Z} {proofSeeds : Nat → Z.Seed}
    {expiresAtValue : Int64} {iterations : Nat} {holder : Holder}
    (h : enroll Z seeds (benchmarkScenario expiresAtValue) = .ok holder) :
    runCase Z t seeds proofSeeds expiresAtValue iterations =
      if 16 * iterations ≤ t.isizeMax then
        .returned (benchmarkLoop Z proofSeeds (benchmarkScenario expiresAtValue) holder iterations
          0 0)
      else .panicked .capacityOverflow := by
  simp only [runCase, h, withCapacity]
  split <;> rfl

/-- What stands behind the equals sign. -/
def digitsOfLine (line : String) : List Char := (line.toList.dropWhile (· != '=')).tail

theorem digitsOfLine_toHex {label : String} (h : label.toList.dropWhile (· != '=') = ['='])
    (bytes : Bytes) : digitsOfLine (label ++ toHex bytes) = digits bytes := by
  rw [digitsOfLine, String.toList_append, List.dropWhile_append, h, toHex_encodesHex]
  rfl

/-- **Printed keys can be used.**  The digits are as many as the program announces,
and what is signed with the keys that they are read as verifies. -/
theorem issuerKeypair_reads (hZ : PlainScheme Z)
    (hlength : ∀ {seed keys}, Z.keyPairRandom seed = .ok keys →
      (Z.secretKeyToBytes keys.1).length = 32) {seed : Z.Seed} {lines : List String}
    (h : generateIssuerKeypair Z seed = .returned lines) :
    lines.map (fun line => (digitsOfLine line).length) = [64, 192] ∧
      ∃ sk pk, lines.map (fun line => bytesOfDigits (digitsOfLine line)) = [some sk, some pk] ∧
        ∀ (signSeed : Z.Seed) header messages sig,
          Done (.sign signSeed sk pk header messages) [sig] →
          Accepted Z (.verify pk header sig messages) := by
  unfold generateIssuerKeypair at h
  cases hkeypair : bbsGenerateKeypair Z seed with
  | error e => rw [hkeypair] at h; cases h
  | ok keypair =>
    rw [hkeypair] at h
    cases h
    have hprivate : digitsOfLine ("ISSUER_PRIVATE_KEY_HEX=" ++ toHex keypair.secretKey)
        = digits keypair.secretKey := digitsOfLine_toHex rfl _
    have hpublic : digitsOfLine ("ISSUER_PUBLIC_KEY_HEX=" ++ toHex keypair.publicKey)
        = digits keypair.publicKey := digitsOfLine_toHex rfl _
    have hdone : Done (.generateKeypair seed) [keypair.secretKey, keypair.publicKey] :=
      .rust (map_eq_ok.mpr ⟨keypair, hkeypair, rfl⟩)
    obtain ⟨keys, hkeys, hsk, hpk⟩ := keys_of_done hdone
    refine ⟨?_, keypair.secretKey, keypair.publicKey, ?_,
      fun signSeed header messages sig hsign => ?_⟩
    · simp only [List.map_cons, List.map_nil, hprivate, hpublic, digits_length]
      rw [← hsk, hlength hkeys, ← hpk, hZ.publicKey_length hkeys]
    · simp only [List.map_cons, List.map_nil, hprivate, hpublic, bytesOfDigits_digits]
    · rw [← hsk, ← hpk] at hsign
      obtain ⟨signature, hsig, rfl⟩ := sig_of_done hZ.toKeysDecode hkeys hsign
      rw [← hpk]
      exact verify_accepted hZ hkeys hsig

end BbsFfi.Callers
