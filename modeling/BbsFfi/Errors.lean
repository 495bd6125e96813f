import BbsFfi.Bindings
import BbsFfi.Library.PrefixCodes

/-!
# Failures in both bindings

Swift gets a failure as a variant of `FfiError` with a text, C as the number of
a result code.  Every error of a Rust function is of the variant that the C
function around it reports, and the texts of the variants begin differently, so
the number in C can be read off the text in Swift (`failures_agree`).
-/

namespace BbsFfi.Errors

open Results PrefixCodes BbsFfi.Rust BbsFfi.Backend BbsFfi.Operations BbsFfi.Memory BbsFfi.CFfi
  BbsFfi.Exits BbsFfi.Calls BbsFfi.Bindings BbsFfi.Transparent

/-! ## Texts and numbers -/

/-- The text of the variant, before the message. -/
def prefixOf : FfiError → String
  | .KeyGenerationFailed _ => "Key generation failed: "
  | .SigningFailed _ => "BBS+ signing failed: "
  | .VerificationFailed _ => "BBS+ verification failed: "
  | .ProofGenFailed _ => "BBS+ proof generation failed: "
  | .ProofVerifyFailed _ => "BBS+ proof verification failed: "
  | .CommitmentFailed _ => "Blind commitment failed: "
  | .CredentialParseFailed _ => "BBS+ credential parse failed: "

def msg : FfiError → String
  | .KeyGenerationFailed msg => msg
  | .SigningFailed msg => msg
  | .VerificationFailed msg => msg
  | .ProofGenFailed msg => msg
  | .ProofVerifyFailed msg => msg
  | .CommitmentFailed msg => msg
  | .CredentialParseFailed msg => msg

/-- The `#[error("..: {msg}")]` text. -/
def display (e : FfiError) : String := prefixOf e ++ msg e

/-- The value of the result code in C. -/
def number : BbsFfiResult → Nat
  | .Ok => 0
  | .KeygenFailed => 1
  | .SignFailed => 2
  | .VerifyFailed => 3
  | .InvalidInput => 4
  | .ProofGenFailed => 5
  | .ProofVerifyFailed => 6
  | .CommitmentFailed => 7

theorem number_injective : Function.Injective number := by
  intro r r' h
  cases r <;> cases r' <;> first | rfl | cases h

/-- The code with the meaning of the variant.  The C layer does not parse credentials. -/
def codeOf : FfiError → Option BbsFfiResult
  | .KeyGenerationFailed _ => some .KeygenFailed
  | .SigningFailed _ => some .SignFailed
  | .VerificationFailed _ => some .VerifyFailed
  | .ProofGenFailed _ => some .ProofGenFailed
  | .ProofVerifyFailed _ => some .ProofVerifyFailed
  | .CommitmentFailed _ => some .CommitmentFailed
  | .CredentialParseFailed _ => none

/-- How the text of a failure begins for each code. -/
def codes : List (String × BbsFfiResult) :=
  [FfiError.KeyGenerationFailed "", .SigningFailed "", .VerificationFailed "", .ProofGenFailed "",
    .ProofVerifyFailed "", .CommitmentFailed "", .CredentialParseFailed ""].filterMap fun e =>
      (codeOf e).map fun code => (prefixOf e, code)

/-- The code of a failure, read off its text. -/
def codeOfText (text : String) : Option BbsFfiResult :=
  (codes.find? fun p => p.1.toList.isPrefixOf text.toList).map Prod.snd

theorem codes_incomparable : codes.Pairwise fun p q => Incomparable p.1.toList q.1.toList := by
  unfold Incomparable
  decide

theorem mem_codes {e : FfiError} {code : BbsFfiResult} (h : codeOf e = some code) :
    (prefixOf e, code) ∈ codes := by
  cases e <;> cases h <;> simp [prefixOf, codes, codeOf]

theorem codeOfText_display {e : FfiError} {code : BbsFfiResult} (h : codeOf e = some code) :
    codeOfText (display e) = some code := by
  have hfind := find?_isPrefixOf (fun p : String × BbsFfiResult => p.1.toList) codes_incomparable
    (mem_codes h) (msg e).toList
  unfold codeOfText display
  rw [String.toList_append, hfind]
  rfl

/-! ## The errors of the Rust functions -/

/-- Every error of `x` has this code in C. -/
def FailsAs {α : Type} (code : BbsFfiResult) (x : Except FfiError α) : Prop :=
  ErrorsIn (fun e => codeOf e = some code) x

theorem failsAs_okAsBool {ε : Type} (code : BbsFfiResult) (x : Except ε Unit) :
    FailsAs code (okAsBool x) := by
  intro e h
  cases x <;> cases h

variable {Z : Zkryptium}

theorem bbsGenerateKeypair_failsAs (seed : Z.Seed) :
    FailsAs .KeygenFailed (bbsGenerateKeypair Z seed) := by
  unfold bbsGenerateKeypair
  refine errorsIn_mapError_bind (fun _ => rfl) fun keypair => ?_
  exact errorsIn_pure _

theorem bbsSign_failsAs (seed : Z.Seed) (secretKey publicKey header : Bytes)
    (messages : List Bytes) :
    FailsAs .SignFailed (bbsSign Z seed secretKey publicKey header messages) := by
  unfold bbsSign
  refine errorsIn_mapError_bind (fun _ => rfl) fun sk => ?_
  refine errorsIn_mapError_bind (fun _ => rfl) fun pk => ?_
  refine errorsIn_mapError_bind (fun _ => rfl) fun sig => ?_
  exact errorsIn_pure _

theorem bbsVerify_failsAs (publicKey header signature : Bytes) (messages : List Bytes) :
    FailsAs .VerifyFailed (bbsVerify Z publicKey header signature messages) := by
  unfold bbsVerify
  refine errorsIn_mapError_bind (fun _ => rfl) fun pk => ?_
  apply ErrorsIn.ite
  · refine errorsIn_throw_bind ?_
    rfl
  · refine errorsIn_mapError_bind (fun _ => rfl) fun sigBytes => ?_
    refine errorsIn_mapError_bind (fun _ => rfl) fun sig => ?_
    exact failsAs_okAsBool _ _

theorem bbsProofGen_failsAs (seed : Z.Seed)
    (publicKey signature header presentationHeader : Bytes) (messages : List Bytes)
    (disclosedIndices : List UInt32) :
    FailsAs .ProofGenFailed (bbsProofGen Z seed publicKey signature header presentationHeader
      messages disclosedIndices) := by
  unfold bbsProofGen
  refine errorsIn_mapError_bind (fun _ => rfl) fun pk => ?_
  refine errorsIn_mapError_bind (fun _ => rfl) fun proof => ?_
  exact errorsIn_pure _

theorem bbsProofVerify_failsAs (publicKey proof header presentationHeader : Bytes)
    (disclosedMessages : List Bytes) (disclosedIndices : List UInt32) :
    FailsAs .ProofVerifyFailed (bbsProofVerify Z publicKey proof header presentationHeader
      disclosedMessages disclosedIndices) := by
  unfold bbsProofVerify
  refine errorsIn_mapError_bind (fun _ => rfl) fun pk => ?_
  refine errorsIn_mapError_bind (fun _ => rfl) fun pok => ?_
  exact failsAs_okAsBool _ _

theorem bbsCommitWithNym_failsAs (seed : Z.Seed) (committedMessages : List Bytes)
    (proverNymSecret : Bytes) :
    FailsAs .CommitmentFailed (bbsCommitWithNym Z seed committedMessages proverNymSecret) := by
  unfold bbsCommitWithNym
  refine errorsIn_mapError_bind (fun _ => rfl) fun nymSecretBytes => ?_
  refine errorsIn_mapError_bind (fun _ => rfl) fun proverNym => ?_
  refine errorsIn_mapError_bind (fun _ => rfl) fun commitment => ?_
  exact errorsIn_pure _

theorem bbsBlindSignWithNym_failsAs (seed : Z.Seed)
    (secretKey publicKey commitmentWithProof header signerNymEntropy : Bytes)
    (messages : List Bytes) :
    FailsAs .SignFailed (bbsBlindSignWithNym Z seed secretKey publicKey commitmentWithProof
      header signerNymEntropy messages) := by
  unfold bbsBlindSignWithNym
  refine errorsIn_mapError_bind (fun _ => rfl) fun sk => ?_
  refine errorsIn_mapError_bind (fun _ => rfl) fun pk => ?_
  refine errorsIn_mapError_bind (fun _ => rfl) fun nymEntropyBytes => ?_
  refine errorsIn_mapError_bind (fun _ => rfl) fun signerNym => ?_
  refine errorsIn_mapError_bind (fun _ => rfl) fun blindSig => ?_
  exact errorsIn_pure _

theorem bbsVerifyBlindSignWithNym_failsAs (publicKey blindSignature header : Bytes)
    (messages committedMessages : List Bytes)
    (proverNymSecret signerNymEntropy blindFactor : Bytes) :
    FailsAs .VerifyFailed (bbsVerifyBlindSignWithNym Z publicKey blindSignature header messages
      committedMessages proverNymSecret signerNymEntropy blindFactor) := by
  unfold bbsVerifyBlindSignWithNym
  refine errorsIn_mapError_bind (fun _ => rfl) fun pk => ?_
  refine errorsIn_mapError_bind (fun _ => rfl) fun sigBytes => ?_
  refine errorsIn_mapError_bind (fun _ => rfl) fun blindSig => ?_
  refine errorsIn_mapError_bind (fun _ => rfl) fun proverNymBytes => ?_
  refine errorsIn_mapError_bind (fun _ => rfl) fun proverNym => ?_
  refine errorsIn_mapError_bind (fun _ => rfl) fun signerNymBytes => ?_
  refine errorsIn_mapError_bind (fun _ => rfl) fun signerNym => ?_
  refine errorsIn_mapError_bind (fun _ => rfl) fun bfBytes => ?_
  refine errorsIn_mapError_bind (fun _ => rfl) fun bf => ?_
  refine errorsIn_mapError_bind (fun _ => rfl) fun nymSecret => ?_
  exact errorsIn_pure _

theorem bbsProofGenWithNym_failsAs (seed : Z.Seed)
    (publicKey signature header presentationHeader nymSecret scope : Bytes)
    (messages committedMessages : List Bytes)
    (disclosedIndices disclosedCommitmentIndices : List UInt32) (blindFactor : Bytes) :
    FailsAs .ProofGenFailed (bbsProofGenWithNym Z seed publicKey signature header
      presentationHeader nymSecret scope messages committedMessages disclosedIndices
      disclosedCommitmentIndices blindFactor) := by
  unfold bbsProofGenWithNym
  refine errorsIn_mapError_bind (fun _ => rfl) fun pk => ?_
  refine errorsIn_mapError_bind (fun _ => rfl) fun nymBytes => ?_
  refine errorsIn_mapError_bind (fun _ => rfl) fun nym => ?_
  refine errorsIn_mapError_bind (fun _ => rfl) fun bfBytes => ?_
  refine errorsIn_mapError_bind (fun _ => rfl) fun bf => ?_
  refine errorsIn_mapError_bind (fun _ => rfl) fun shown => ?_
  exact errorsIn_pure _

theorem bbsProofVerifyWithNym_failsAs
    (publicKey proof pseudonym header presentationHeader scope : Bytes)
    (totalSignerMessages : UInt32) (disclosedMessages disclosedCommittedMessages : List Bytes)
    (disclosedIndices disclosedCommitmentIndices : List UInt32) :
    FailsAs .ProofVerifyFailed (bbsProofVerifyWithNym Z publicKey proof pseudonym header
      presentationHeader scope totalSignerMessages disclosedMessages disclosedCommittedMessages
      disclosedIndices disclosedCommitmentIndices) := by
  unfold bbsProofVerifyWithNym
  refine errorsIn_mapError_bind (fun _ => rfl) fun pk => ?_
  refine errorsIn_mapError_bind (fun _ => rfl) fun pok => ?_
  refine errorsIn_mapError_bind (fun _ => rfl) fun nym => ?_
  exact failsAs_okAsBool _ _

/-! ## The calls in C -/

/-- The wrapped function returns this error. -/
def Raises : Call Z → FfiError → Prop
  | .producing c, e => c.rust = .error e
  | .verifying c, e => c.rust = .error e

/-- The code of the C function has the meaning of the errors it stands for. -/
theorem producing_failsAs (c : ProducingCall Z) : FailsAs c.failed c.rust := by
  cases c with
  | generateKeypair => exact (bbsGenerateKeypair_failsAs _).map _
  | sign => exact (bbsSign_failsAs _ _ _ _ _).map _
  | proofGen => exact (bbsProofGen_failsAs _ _ _ _ _ _ _).map _
  | generateNymSecret => exact (errorsIn_pure _).map _
  | commitWithNym => exact (bbsCommitWithNym_failsAs _ _ _).map _
  | blindSignWithNym => exact (bbsBlindSignWithNym_failsAs _ _ _ _ _ _ _).map _
  | verifyBlindSignWithNym => exact (bbsVerifyBlindSignWithNym_failsAs _ _ _ _ _ _ _ _).map _
  | proofGenWithNym => exact (bbsProofGenWithNym_failsAs _ _ _ _ _ _ _ _ _ _ _ _).map _

theorem verifying_failsAs (c : VerifyingCall Z) : FailsAs c.failed c.rust := by
  cases c with
  | verify => exact bbsVerify_failsAs _ _ _ _
  | proofVerify => exact bbsProofVerify_failsAs _ _ _ _ _ _
  | proofVerifyWithNym => exact bbsProofVerifyWithNym_failsAs _ _ _ _ _ _ _ _ _ _ _

/-- An error that is not hidden by a missing parameter. -/
theorem exitCode_of_error {ρ : Type} {missing : Bool} {r : Except FfiError ρ}
    {failed : BbsFfiResult} {e : FfiError} (h : r = .error e)
    (hne : exitCode missing r failed ≠ .InvalidInput) : exitCode missing r failed = failed := by
  subst h
  cases missing with
  | true => exact absurd rfl hne
  | false => rfl

theorem codeOf_raised {c : Call Z} {e : FfiError} (h : Raises c e)
    (hne : c.code ≠ .InvalidInput) : codeOf e = some c.code := by
  rcases c with c | c
  · rw [producing_failsAs c e h]
    exact congrArg some (exitCode_of_error h hne).symm
  · rw [verifying_failsAs c e h]
    exact congrArg some (exitCode_of_error h hne).symm

theorem code_eq_ok {c : Call Z} :
    c.code = .Ok ↔ (∀ p ∈ c.guarded, absent p = false) ∧ c.RustAccepts := by
  rcases c with c | c
  · refine (exitCode_eq_ok c.failed_ne.1).trans (and_congr_left fun _ => ?_)
    simp [ProducingCall.missing, Call.guarded]
  · refine (exitCode_eq_ok c.failed_ne.1).trans (and_congr_left fun _ => ?_)
    simp [VerifyingCall.missing, Call.guarded]

theorem exists_raises {c : Call Z} : (∃ e, Raises c e) ↔ c.RustFails := by
  cases c <;> exact Iff.rfl

/-- **Both bindings tell the same failure.**  A call whose outputs are there ends
with 4 exactly when a mandatory parameter is missing and with 0 exactly when
none is and the Rust function returns `Ok`.  Any other number belongs to an
error of the Rust function, and it is the one that the text of the error gives. -/
theorem failures_agree (t : Target) (c : Call Z) (w : World)
    (hnull : ∀ out ∈ c.outs, out ≠ none) :
    ∃ code w', c.run t w = .ok (code, w') ∧
      (number code = 4 ↔ ∃ p ∈ c.guarded, absent p = true) ∧
      (number code = 0 ↔ (∀ p ∈ c.guarded, absent p = false) ∧ c.RustAccepts) ∧
      (number code ≠ 0 → number code ≠ 4 → ∃ e, Raises c e) ∧
      ∀ e, Raises c e → number code ≠ 4 →
        (codeOfText (display e)).map number = some (number code) := by
  obtain ⟨w', hrun⟩ := run_code t c w hnull
  have hinvalid : number c.code = 4 ↔ c.code = .InvalidInput := number_injective.eq_iff' rfl
  have hok : number c.code = 0 ↔ c.code = .Ok := number_injective.eq_iff' rfl
  refine ⟨c.code, w', hrun, hinvalid.trans Call.code_eq_invalidInput, hok.trans code_eq_ok, ?_, ?_⟩
  · intro hne hne'
    rw [Ne, hinvalid, Call.code_eq_invalidInput] at hne'
    rw [Ne, hok, code_eq_ok] at hne
    rw [exists_raises, Call.rustFails_iff]
    intro haccept
    refine hne ⟨fun p hp => ?_, haccept⟩
    exact Bool.eq_false_iff.mpr fun habsent => hne' ⟨p, hp, habsent⟩
  · intro e he hne
    rw [codeOfText_display (codeOf_raised he fun h => hne (hinvalid.mpr h))]
    rfl

/-- A signature of 79 bytes: the text says what is wrong, and C gets 3. -/
theorem failures_agree_short :
    ∃ code w', (Call.verifying (Z := transparent) (.verify (CSlice.of (spread 96 7))
        (CSlice.null 0) (CSlice.of (spread 79 10)) (CSlice.null 0) (some 0))).run (.bits64 false)
          World.initial = .ok (code, w') ∧
      (codeOfText "BBS+ verification failed: Signature must be 80 bytes, got 79").map number
        = some (number code) := by
  obtain ⟨code, w', hrun, hmissing, _, _, htext⟩ := failures_agree (.bits64 false)
    (Call.verifying (Z := transparent) (.verify (CSlice.of (spread 96 7))
      (CSlice.null 0) (CSlice.of (spread 79 10)) (CSlice.null 0) (some 0))) World.initial
    (by simp [Call.outs, VerifyingCall.validOut])
  refine ⟨code, w', hrun, ?_⟩
  have hpresent : number code ≠ 4 := by
    rw [Ne, hmissing]
    decide
  exact htext (.VerificationFailed "Signature must be 80 bytes, got 79") (by rfl) hpresent

end BbsFfi.Errors
