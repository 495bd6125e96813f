import BbsFfi.Exits
import BbsFfi.Library.Results
import BbsFfi.Params
import BbsFfi.Values

/-!
# Calls of the C functions

A call is a C function with its arguments, each pointer together with its
declared length.  `run` is the C function on them, `rust` the wrapped Rust
function on the values they stand for, and `guarded` the parameters that the C
function requires.  `ProducingCall.reads` and `VerifyingCall.reads` say what a
call does with its parameters, `ProducingCall.spec` and `VerifyingCall.spec` how
it ends.
-/

namespace BbsFfi.Calls

open Results BbsFfi.Rust BbsFfi.Backend BbsFfi.Operations BbsFfi.Values BbsFfi.Memory
  BbsFfi.CFfi BbsFfi.Marshal BbsFfi.Exits BbsFfi.Params

/-- The parameter is null or has length zero. -/
def absent (s : CSlice UInt8) : Bool := isMissing s.data s.len

theorem absent_iff {s : CSlice UInt8} : absent s = true ↔ s.data.isNull = true ∨ s.len = 0 := by
  simp [absent, isMissing]

variable {Z : Zkryptium}

/-! ## Calls with buffer outputs -/

inductive ProducingCall (Z : Zkryptium) where
  | generateKeypair (seed : Z.Seed) (spare : Nat → Nat) (skOut pkOut : MutPtr)
  | sign (seed : Z.Seed) (spare : Nat → Nat) (sk pk header : CSlice UInt8)
      (msgs : CSlice BbsMessage) (sigOut : MutPtr)
  | proofGen (seed : Z.Seed) (spare : Nat → Nat) (pk sig header ph : CSlice UInt8)
      (msgs : CSlice BbsMessage) (disclosedIndices : CSlice UInt32) (proofOut : MutPtr)
  | generateNymSecret (seed : Z.Seed) (spare : Nat → Nat) (secretOut : MutPtr)
  | commitWithNym (seed : Z.Seed) (spare : Nat → Nat) (committedMsgs : CSlice BbsMessage)
      (proverNym : CSlice UInt8) (commitmentOut blindFactorOut : MutPtr)
  | blindSignWithNym (seed : Z.Seed) (spare : Nat → Nat)
      (sk pk commitment header signerNym : CSlice UInt8) (msgs : CSlice BbsMessage)
      (sigOut : MutPtr)
  | verifyBlindSignWithNym (spare : Nat → Nat) (pk blindSig header : CSlice UInt8)
      (msgs committedMsgs : CSlice BbsMessage) (proverNym signerNym blindFactor : CSlice UInt8)
      (nymSecretOut : MutPtr)
  | proofGenWithNym (seed : Z.Seed) (spare : Nat → Nat)
      (pk sig header ph nymSecret scope : CSlice UInt8) (msgs committedMsgs : CSlice BbsMessage)
      (disclosedIndices disclosedCommitmentIndices : CSlice UInt32) (blindFactor : CSlice UInt8)
      (proofOut pseudonymOut : MutPtr)

namespace ProducingCall

def run (t : Target) : ProducingCall Z → FfiM BbsFfiResult
  | .generateKeypair seed spare skOut pkOut => bbsFfiGenerateKeypair Z seed spare skOut pkOut
  | .sign seed spare sk pk header msgs sigOut =>
    bbsFfiSign t Z seed spare sk.data sk.len pk.data pk.len header.data header.len msgs.data
      msgs.len sigOut
  | .proofGen seed spare pk sig header ph msgs disclosedIndices proofOut =>
    bbsFfiProofGen t Z seed spare pk.data pk.len sig.data sig.len header.data header.len ph.data
      ph.len msgs.data msgs.len disclosedIndices.data disclosedIndices.len proofOut
  | .generateNymSecret seed spare secretOut => bbsFfiGenerateNymSecret Z seed spare secretOut
  | .commitWithNym seed spare committedMsgs proverNym commitmentOut blindFactorOut =>
    bbsFfiCommitWithNym t Z seed spare committedMsgs.data committedMsgs.len proverNym.data
      proverNym.len commitmentOut blindFactorOut
  | .blindSignWithNym seed spare sk pk commitment header signerNym msgs sigOut =>
    bbsFfiBlindSignWithNym t Z seed spare sk.data sk.len pk.data pk.len commitment.data
      commitment.len header.data header.len signerNym.data signerNym.len msgs.data msgs.len sigOut
  | .verifyBlindSignWithNym spare pk blindSig header msgs committedMsgs proverNym signerNym
      blindFactor nymSecretOut =>
    bbsFfiVerifyBlindSignWithNym t Z spare pk.data pk.len blindSig.data blindSig.len header.data
      header.len msgs.data msgs.len committedMsgs.data committedMsgs.len proverNym.data
      proverNym.len signerNym.data signerNym.len blindFactor.data blindFactor.len nymSecretOut
  | .proofGenWithNym seed spare pk sig header ph nymSecret scope msgs committedMsgs
      disclosedIndices disclosedCommitmentIndices blindFactor proofOut pseudonymOut =>
    bbsFfiProofGenWithNym t Z seed spare pk.data pk.len sig.data sig.len header.data header.len
      ph.data ph.len nymSecret.data nymSecret.len scope.data scope.len msgs.data msgs.len
      committedMsgs.data committedMsgs.len disclosedIndices.data disclosedIndices.len
      disclosedCommitmentIndices.data disclosedCommitmentIndices.len blindFactor.data
      blindFactor.len proofOut pseudonymOut

/-- The operation on the values the arguments stand for. -/
def operation : ProducingCall Z → Operation Z
  | .generateKeypair seed _ _ _ => .generateKeypair seed
  | .sign seed _ sk pk header msgs _ =>
    .sign seed sk.toList pk.toList header.toList (messagesOf msgs)
  | .proofGen seed _ pk sig header ph msgs disclosedIndices _ =>
    .proofGen seed pk.toList sig.toList header.toList ph.toList (messagesOf msgs)
      disclosedIndices.toList
  | .generateNymSecret seed _ _ => .generateNymSecret seed
  | .commitWithNym seed _ committedMsgs proverNym _ _ =>
    .commitWithNym seed (messagesOf committedMsgs) proverNym.toList
  | .blindSignWithNym seed _ sk pk commitment header signerNym msgs _ =>
    .blindSignWithNym seed sk.toList pk.toList commitment.toList header.toList signerNym.toList
      (messagesOf msgs)
  | .verifyBlindSignWithNym _ pk blindSig header msgs committedMsgs proverNym signerNym
      blindFactor _ =>
    .verifyBlindSignWithNym pk.toList blindSig.toList header.toList (messagesOf msgs)
      (messagesOf committedMsgs) proverNym.toList signerNym.toList blindFactor.toList
  | .proofGenWithNym seed _ pk sig header ph nymSecret scope msgs committedMsgs
      disclosedIndices disclosedCommitmentIndices blindFactor _ _ =>
    .proofGenWithNym seed pk.toList sig.toList header.toList ph.toList nymSecret.toList
      scope.toList (messagesOf msgs) (messagesOf committedMsgs) disclosedIndices.toList
      disclosedCommitmentIndices.toList blindFactor.toList

/-- The parameters in the order in which the C function reads them. -/
def params : ProducingCall Z → List Param
  | .generateKeypair .. => []
  | .sign _ _ sk pk header msgs _ => [.required sk, .required pk, .optional header, .messages msgs]
  | .proofGen _ _ pk sig header ph msgs disclosedIndices _ =>
    [.required pk, .required sig, .optional header, .optional ph, .messages msgs,
      .indices disclosedIndices]
  | .generateNymSecret .. => []
  | .commitWithNym _ _ committedMsgs proverNym _ _ =>
    [.messages committedMsgs, .required proverNym]
  | .blindSignWithNym _ _ sk pk commitment header signerNym msgs _ =>
    [.required sk, .required pk, .optional commitment, .optional header, .required signerNym,
      .messages msgs]
  | .verifyBlindSignWithNym _ pk blindSig header msgs committedMsgs proverNym signerNym
      blindFactor _ =>
    [.required pk, .required blindSig, .optional header, .messages msgs,
      .messages committedMsgs, .required proverNym, .required signerNym, .required blindFactor]
  | .proofGenWithNym _ _ pk sig header ph nymSecret scope msgs committedMsgs
      disclosedIndices disclosedCommitmentIndices blindFactor _ _ =>
    [.required pk, .required sig, .optional header, .optional ph, .required nymSecret,
      .required scope, .messages msgs, .messages committedMsgs, .indices disclosedIndices,
      .indices disclosedCommitmentIndices, .optional blindFactor]

/-- The operation on the arguments read. -/
def operationOn : (c : ProducingCall Z) → Args c.params → Operation Z
  | .generateKeypair seed .., _ => .generateKeypair seed
  | .sign seed .., (sk, pk, header, msgs, _) => .sign seed sk pk header msgs
  | .proofGen seed .., (pk, sig, header, ph, msgs, disclosedIndices, _) =>
    .proofGen seed pk sig header ph msgs disclosedIndices
  | .generateNymSecret seed .., _ => .generateNymSecret seed
  | .commitWithNym seed .., (committedMsgs, proverNym, _) =>
    .commitWithNym seed committedMsgs proverNym
  | .blindSignWithNym seed .., (sk, pk, commitment, header, signerNym, msgs, _) =>
    .blindSignWithNym seed sk pk commitment header signerNym msgs
  | .verifyBlindSignWithNym .., (pk, blindSig, header, msgs, committedMsgs, proverNym,
      signerNym, blindFactor, _) =>
    .verifyBlindSignWithNym pk blindSig header msgs committedMsgs proverNym signerNym blindFactor
  | .proofGenWithNym seed .., (pk, sig, header, ph, nymSecret, scope, msgs, committedMsgs,
      disclosedIndices, disclosedCommitmentIndices, blindFactor, _) =>
    .proofGenWithNym seed pk sig header ph nymSecret scope msgs committedMsgs disclosedIndices
      disclosedCommitmentIndices blindFactor

theorem operationOn_values (c : ProducingCall Z) :
    c.operationOn (values c.params) = c.operation := by
  cases c <;> rfl

/-- The wrapped function, with its results in the order of the outputs. -/
def rust (c : ProducingCall Z) : Except FfiError (List Bytes) := c.operation.eval

/-- The spare capacities of the returned `Vec`s. -/
def spare : ProducingCall Z → Nat → Nat
  | .generateKeypair _ spare .. => spare
  | .sign _ spare .. => spare
  | .proofGen _ spare .. => spare
  | .generateNymSecret _ spare .. => spare
  | .commitWithNym _ spare .. => spare
  | .blindSignWithNym _ spare .. => spare
  | .verifyBlindSignWithNym spare .. => spare
  | .proofGenWithNym _ spare .. => spare

def outs : ProducingCall Z → List MutPtr
  | .generateKeypair _ _ skOut pkOut => [skOut, pkOut]
  | .sign _ _ _ _ _ _ sigOut => [sigOut]
  | .proofGen _ _ _ _ _ _ _ _ proofOut => [proofOut]
  | .generateNymSecret _ _ secretOut => [secretOut]
  | .commitWithNym _ _ _ _ commitmentOut blindFactorOut => [commitmentOut, blindFactorOut]
  | .blindSignWithNym _ _ _ _ _ _ _ _ sigOut => [sigOut]
  | .verifyBlindSignWithNym _ _ _ _ _ _ _ _ _ nymSecretOut => [nymSecretOut]
  | .proofGenWithNym _ _ _ _ _ _ _ _ _ _ _ _ _ proofOut pseudonymOut => [proofOut, pseudonymOut]

/-- The mandatory parameters. -/
def guarded : ProducingCall Z → List (CSlice UInt8)
  | .generateKeypair .. => []
  | .sign _ _ sk pk _ _ _ => [sk, pk]
  | .proofGen _ _ pk sig _ _ _ _ _ => [pk, sig]
  | .generateNymSecret .. => []
  | .commitWithNym _ _ _ proverNym _ _ => [proverNym]
  | .blindSignWithNym _ _ sk pk _ _ signerNym _ _ => [sk, pk, signerNym]
  | .verifyBlindSignWithNym _ pk blindSig _ _ _ proverNym signerNym blindFactor _ =>
    [pk, blindSig, proverNym, signerNym, blindFactor]
  | .proofGenWithNym _ _ pk sig _ _ nymSecret scope _ _ _ _ _ _ _ => [pk, sig, nymSecret, scope]

/-- The result code for a failure of the wrapped function. -/
def failed : ProducingCall Z → BbsFfiResult
  | .generateKeypair .. => .KeygenFailed
  | .sign .. => .SignFailed
  | .proofGen .. => .ProofGenFailed
  | .generateNymSecret .. => .KeygenFailed
  | .commitWithNym .. => .CommitmentFailed
  | .blindSignWithNym .. => .SignFailed
  | .verifyBlindSignWithNym .. => .VerifyFailed
  | .proofGenWithNym .. => .ProofGenFailed

/-- A mandatory parameter is null or has length zero. -/
def missing (c : ProducingCall Z) : Bool := c.guarded.any absent

/-- The code of a call whose outputs are there. -/
def code (c : ProducingCall Z) : BbsFfiResult := exitCode c.missing c.rust c.failed

/-- The guards are on the parameters that are read without a check. -/
theorem guarded_eq (c : ProducingCall Z) : c.guarded = c.params.filterMap Param.guard := by
  cases c <;> rfl

theorem present_of_missing {c : ProducingCall Z} (h : c.missing = false) :
    ∀ p ∈ c.params, p.Present := by
  rw [missing, guarded_eq] at h
  exact Param.present_of_guards h

end ProducingCall

/-- The blind signer, with its two guards read as one. -/
theorem bbsFfiBlindSignWithNym_eq (t : Target) (seed : Z.Seed) (spare : Nat → Nat)
    (sk : ConstPtr UInt8) (skLen : Nat) (pk : ConstPtr UInt8) (pkLen : Nat)
    (commitment : ConstPtr UInt8) (commitmentLen : Nat) (header : ConstPtr UInt8)
    (headerLen : Nat) (signerNym : ConstPtr UInt8) (signerNymLen : Nat)
    (msgs : ConstPtr BbsMessage) (msgsCount : Nat) (sigOut : MutPtr) :
    bbsFfiBlindSignWithNym t Z seed spare sk skLen pk pkLen commitment commitmentLen header
        headerLen signerNym signerNymLen msgs msgsCount sigOut
      = produce spare [sigOut]
          (isMissing sk skLen || isMissing pk pkLen || isMissing signerNym signerNymLen)
          (do
            let skBytes ← sliceToVec sk skLen
            let pkBytes ← sliceToVec pk pkLen
            let commitmentBytes ← readOptionalBytes commitment commitmentLen
            let headerBytes ← readOptionalBytes header headerLen
            let signerNymBytes ← sliceToVec signerNym signerNymLen
            let messages ← collectMessages t msgs msgsCount
            return bbsBlindSignWithNym Z seed skBytes pkBytes commitmentBytes headerBytes
              signerNymBytes messages)
          (fun sig => [(sigOut, sig)]) .SignFailed := by
  rw [bbsFfiBlindSignWithNym, produce]
  cases sigOut with
  | none => rfl
  | some slot =>
    cases isMissing sk skLen || isMissing pk pkLen with
    | true => rfl
    | false =>
      cases isMissing signerNym signerNymLen with
      | true => rfl
      | false => rfl

/-- The call is an instance of `produce` whose arguments marshal to what the
wrapped function is applied to. -/
inductive ProducingCall.Shape (t : Target) (c : ProducingCall Z) : Prop
  | intro {ρ : Type} (spare : Nat → Nat) (call : MarshalM (Except FfiError ρ))
      (writes : ρ → List (MutPtr × Bytes)) (r : Except FfiError ρ) (values : ρ → List Bytes)
      (run_eq : c.run t = produce spare c.outs c.missing call writes c.failed)
      (marshals : c.missing = false → Marshals call r)
      (rust_eq : c.rust = r.map values)
      (writes_eq : ∀ v, writes v = c.outs.zip (values v))
      (length_eq : ∀ v, (values v).length = c.outs.length) : Shape t c

/-- **What a call does before its outputs are written.**  It reads its parameters
in order and applies the wrapped function to them. -/
theorem ProducingCall.reads (t : Target) (c : ProducingCall Z) :
    ∃ (ρ : Type) (rust : Args c.params → Except FfiError ρ) (results : ρ → List Bytes),
      c.run t = produce c.spare c.outs c.missing
        (withArgs t c.params fun args => return rust args) (fun v => c.outs.zip (results v))
        c.failed ∧
      (∀ args, (c.operationOn args).eval = (rust args).map results) ∧
      ∀ v, (results v).length = c.outs.length := by
  cases c with
  | generateKeypair seed spare skOut pkOut =>
    exact ⟨_, fun _ => bbsGenerateKeypair Z seed, fun kp => [kp.secretKey, kp.publicKey],
      rfl, fun _ => rfl, fun _ => rfl⟩
  | sign seed spare sk pk header msgs sigOut =>
    refine ⟨_, fun (sk, pk, header, msgs, _) => bbsSign Z seed sk pk header msgs,
      fun sig => [sig], ?_, fun _ => rfl, fun _ => rfl⟩
    simp only [missing, guarded, List.any_cons, List.any_nil, Bool.or_false]
    rfl
  | proofGen seed spare pk sig header ph msgs disclosedIndices proofOut =>
    refine ⟨_, fun (pk, sig, header, ph, msgs, disclosedIndices, _) =>
        bbsProofGen Z seed pk sig header ph msgs disclosedIndices,
      fun proof => [proof], ?_, fun _ => rfl, fun _ => rfl⟩
    simp only [missing, guarded, List.any_cons, List.any_nil, Bool.or_false]
    rfl
  | generateNymSecret seed spare secretOut =>
    exact ⟨_, fun _ => bbsGenerateNymSecret Z seed, fun secret => [secret],
      rfl, fun _ => rfl, fun _ => rfl⟩
  | commitWithNym seed spare committedMsgs proverNym commitmentOut blindFactorOut =>
    refine ⟨_, fun (committedMsgs, proverNym, _) =>
        bbsCommitWithNym Z seed committedMsgs proverNym,
      fun result => [result.commitmentWithProof, result.blindFactor], ?_, fun _ => rfl,
      fun _ => rfl⟩
    simp only [missing, guarded, List.any_cons, List.any_nil, Bool.or_false]
    rfl
  | blindSignWithNym seed spare sk pk commitment header signerNym msgs sigOut =>
    refine ⟨_, fun (sk, pk, commitment, header, signerNym, msgs, _) =>
        bbsBlindSignWithNym Z seed sk pk commitment header signerNym msgs,
      fun sig => [sig], ?_, fun _ => rfl, fun _ => rfl⟩
    rw [run, bbsFfiBlindSignWithNym_eq]
    simp only [missing, guarded, List.any_cons, List.any_nil, Bool.or_false, ← Bool.or_assoc]
    rfl
  | verifyBlindSignWithNym spare pk blindSig header msgs committedMsgs proverNym signerNym
      blindFactor nymSecretOut =>
    refine ⟨_, fun (pk, blindSig, header, msgs, committedMsgs, proverNym, signerNym,
        blindFactor, _) => bbsVerifyBlindSignWithNym Z pk blindSig header msgs committedMsgs
          proverNym signerNym blindFactor,
      fun result => [result.nymSecret], ?_, fun _ => rfl, fun _ => rfl⟩
    simp only [missing, guarded, List.any_cons, List.any_nil, Bool.or_false, ← Bool.or_assoc]
    rfl
  | proofGenWithNym seed spare pk sig header ph nymSecret scope msgs committedMsgs
      disclosedIndices disclosedCommitmentIndices blindFactor proofOut pseudonymOut =>
    refine ⟨_, fun (pk, sig, header, ph, nymSecret, scope, msgs, committedMsgs,
        disclosedIndices, disclosedCommitmentIndices, blindFactor, _) =>
        bbsProofGenWithNym Z seed pk sig header ph nymSecret scope msgs committedMsgs
          disclosedIndices disclosedCommitmentIndices blindFactor,
      fun result => [result.proof, result.pseudonym], ?_, fun _ => rfl, fun _ => rfl⟩
    simp only [missing, guarded, List.any_cons, List.any_nil, Bool.or_false, ← Bool.or_assoc]
    rfl

theorem ProducingCall.shape (t : Target) (c : ProducingCall Z) : c.Shape t := by
  obtain ⟨ρ, rust, results, hrun, hrust, hlen⟩ := c.reads t
  refine .intro c.spare _ _ (rust (values c.params)) results hrun (fun h => ?_) ?_
    (fun _ => rfl) hlen
  · exact marshals_withArgs t (present_of_missing h) (.pure _)
  · rw [ProducingCall.rust, ← c.operationOn_values, hrust]

theorem ProducingCall.run_null (t : Target) (c : ProducingCall Z) (h : none ∈ c.outs) (w : World) :
    c.run t w = .ok (.InvalidInput, w) := by
  obtain ⟨spare, call, writes, r, values, hrun, _⟩ := c.shape t
  rw [hrun]
  exact produce_null h w

/-- **How a call with buffer outputs ends.** -/
theorem ProducingCall.spec (t : Target) (c : ProducingCall Z) (hnull : ∀ out ∈ c.outs, out ≠ none)
    (hdistinct : c.outs.Nodup) (w : World) :
    ∃ code w', c.run t w = .ok (code, w') ∧ Handed c.outs w w' ∧
      Produced c.outs c.missing c.rust c.failed code w' := by
  obtain ⟨spare, call, writes, r, values, hrun, hcall, hrust, hwrites, hlen⟩ := c.shape t
  rw [hrun, hrust]
  exact produce_spec hcall hnull hdistinct hwrites hlen w

theorem ProducingCall.failed_ne (c : ProducingCall Z) :
    c.failed ≠ .Ok ∧ c.failed ≠ .InvalidInput := by
  cases c <;> exact ⟨nofun, nofun⟩

/-! ## Calls with a verdict -/

inductive VerifyingCall (Z : Zkryptium) where
  | verify (pk header sig : CSlice UInt8) (msgs : CSlice BbsMessage) (validOut : MutPtr)
  | proofVerify (pk proof header ph : CSlice UInt8) (disclosedMsgs : CSlice BbsMessage)
      (disclosedIndices : CSlice UInt32) (validOut : MutPtr)
  | proofVerifyWithNym (pk proof pseudonym header ph scope : CSlice UInt8)
      (totalSignerMsgs : UInt32) (disclosedMsgs disclosedCommittedMsgs : CSlice BbsMessage)
      (disclosedIndices disclosedCommitmentIndices : CSlice UInt32) (validOut : MutPtr)

namespace VerifyingCall

def run (t : Target) : VerifyingCall Z → FfiM BbsFfiResult
  | .verify pk header sig msgs validOut =>
    bbsFfiVerify t Z pk.data pk.len header.data header.len sig.data sig.len msgs.data msgs.len
      validOut
  | .proofVerify pk proof header ph disclosedMsgs disclosedIndices validOut =>
    bbsFfiProofVerify t Z pk.data pk.len proof.data proof.len header.data header.len ph.data
      ph.len disclosedMsgs.data disclosedMsgs.len disclosedIndices.data disclosedIndices.len
      validOut
  | .proofVerifyWithNym pk proof pseudonym header ph scope totalSignerMsgs disclosedMsgs
      disclosedCommittedMsgs disclosedIndices disclosedCommitmentIndices validOut =>
    bbsFfiProofVerifyWithNym t Z pk.data pk.len proof.data proof.len pseudonym.data pseudonym.len
      header.data header.len ph.data ph.len scope.data scope.len totalSignerMsgs
      disclosedMsgs.data disclosedMsgs.len disclosedCommittedMsgs.data disclosedCommittedMsgs.len
      disclosedIndices.data disclosedIndices.len disclosedCommitmentIndices.data
      disclosedCommitmentIndices.len validOut

def check : VerifyingCall Z → Check
  | .verify pk header sig msgs _ =>
    .verify pk.toList header.toList sig.toList (messagesOf msgs)
  | .proofVerify pk proof header ph disclosedMsgs disclosedIndices _ =>
    .proofVerify pk.toList proof.toList header.toList ph.toList (messagesOf disclosedMsgs)
      disclosedIndices.toList
  | .proofVerifyWithNym pk proof pseudonym header ph scope totalSignerMsgs disclosedMsgs
      disclosedCommittedMsgs disclosedIndices disclosedCommitmentIndices _ =>
    .proofVerifyWithNym pk.toList proof.toList pseudonym.toList header.toList ph.toList
      scope.toList totalSignerMsgs (messagesOf disclosedMsgs) (messagesOf disclosedCommittedMsgs)
      disclosedIndices.toList disclosedCommitmentIndices.toList

/-- The parameters in the order in which the C function reads them. -/
def params : VerifyingCall Z → List Param
  | .verify pk header sig msgs _ => [.required pk, .optional header, .required sig, .messages msgs]
  | .proofVerify pk proof header ph disclosedMsgs disclosedIndices _ =>
    [.required pk, .required proof, .optional header, .optional ph, .messages disclosedMsgs,
      .indices disclosedIndices]
  | .proofVerifyWithNym pk proof pseudonym header ph scope _ disclosedMsgs
      disclosedCommittedMsgs disclosedIndices disclosedCommitmentIndices _ =>
    [.required pk, .required proof, .required pseudonym, .optional header, .optional ph,
      .required scope, .messages disclosedMsgs, .messages disclosedCommittedMsgs,
      .indices disclosedIndices, .indices disclosedCommitmentIndices]

/-- The check on the arguments read. -/
def checkOn : (c : VerifyingCall Z) → Args c.params → Check
  | .verify .., (pk, header, sig, msgs, _) => .verify pk header sig msgs
  | .proofVerify .., (pk, proof, header, ph, disclosedMsgs, disclosedIndices, _) =>
    .proofVerify pk proof header ph disclosedMsgs disclosedIndices
  | .proofVerifyWithNym _ _ _ _ _ _ totalSignerMsgs .., (pk, proof, pseudonym, header, ph, scope,
      disclosedMsgs, disclosedCommittedMsgs, disclosedIndices, disclosedCommitmentIndices, _) =>
    .proofVerifyWithNym pk proof pseudonym header ph scope totalSignerMsgs disclosedMsgs
      disclosedCommittedMsgs disclosedIndices disclosedCommitmentIndices

theorem checkOn_values (c : VerifyingCall Z) : c.checkOn (values c.params) = c.check := by
  cases c <;> rfl

def rust (c : VerifyingCall Z) : Except FfiError Bool := c.check.eval Z

def validOut : VerifyingCall Z → MutPtr
  | .verify _ _ _ _ validOut => validOut
  | .proofVerify _ _ _ _ _ _ validOut => validOut
  | .proofVerifyWithNym _ _ _ _ _ _ _ _ _ _ _ validOut => validOut

def guarded : VerifyingCall Z → List (CSlice UInt8)
  | .verify pk _ sig _ _ => [pk, sig]
  | .proofVerify pk proof _ _ _ _ _ => [pk, proof]
  | .proofVerifyWithNym pk proof pseudonym _ _ scope _ _ _ _ _ _ => [pk, proof, pseudonym, scope]

def failed : VerifyingCall Z → BbsFfiResult
  | .verify .. => .VerifyFailed
  | .proofVerify .. => .ProofVerifyFailed
  | .proofVerifyWithNym .. => .ProofVerifyFailed

def missing (c : VerifyingCall Z) : Bool := c.guarded.any absent

def code (c : VerifyingCall Z) : BbsFfiResult := exitCode c.missing c.rust c.failed

theorem guarded_eq (c : VerifyingCall Z) : c.guarded = c.params.filterMap Param.guard := by
  cases c <;> rfl

theorem present_of_missing {c : VerifyingCall Z} (h : c.missing = false) :
    ∀ p ∈ c.params, p.Present := by
  rw [missing, guarded_eq] at h
  exact Param.present_of_guards h

/-- **What a call does before its verdict is written.** -/
theorem reads (t : Target) (c : VerifyingCall Z) :
    c.run t = verdict c.validOut c.missing
      (withArgs t c.params fun args => return (c.checkOn args).eval Z) c.failed := by
  cases c with
  | verify pk header sig msgs validOut =>
    simp only [missing, guarded, List.any_cons, List.any_nil, Bool.or_false]
    rfl
  | proofVerify pk proof header ph disclosedMsgs disclosedIndices validOut =>
    simp only [missing, guarded, List.any_cons, List.any_nil, Bool.or_false]
    rfl
  | proofVerifyWithNym pk proof pseudonym header ph scope totalSignerMsgs disclosedMsgs
      disclosedCommittedMsgs disclosedIndices disclosedCommitmentIndices validOut =>
    simp only [missing, guarded, List.any_cons, List.any_nil, Bool.or_false, ← Bool.or_assoc]
    rfl

end VerifyingCall

/-- **How a call with a verdict ends.** -/
theorem VerifyingCall.spec (t : Target) (c : VerifyingCall Z) {slot : Nat}
    (hslot : c.validOut = some slot) (w : World) :
    ∃ code n heap, c.run t w
        = .ok (code, { w with heap := heap, ints := Function.update w.ints slot n }) ∧
      heap.holdings = w.heap.holdings ∧ Judged c.missing c.rust c.failed code n := by
  rw [c.reads, hslot, VerifyingCall.rust, ← c.checkOn_values]
  exact verdict_spec (fun h => marshals_withArgs t (present_of_missing h) (.pure _)) slot w

theorem VerifyingCall.run_null (t : Target) (c : VerifyingCall Z) (h : c.validOut = none)
    (w : World) : c.run t w = .ok (.InvalidInput, w) := by
  rw [c.reads, h]
  rfl

theorem VerifyingCall.failed_ne (c : VerifyingCall Z) :
    c.failed ≠ .Ok ∧ c.failed ≠ .InvalidInput := by
  cases c <;> exact ⟨nofun, nofun⟩

/-- A call of any of the eleven operations. -/
inductive Call (Z : Zkryptium) where
  | producing (c : ProducingCall Z)
  | verifying (c : VerifyingCall Z)

namespace Call

def run (t : Target) : Call Z → FfiM BbsFfiResult
  | .producing c => c.run t
  | .verifying c => c.run t

/-- The output pointers. -/
def outs : Call Z → List MutPtr
  | .producing c => c.outs
  | .verifying c => [c.validOut]

def guarded : Call Z → List (CSlice UInt8)
  | .producing c => c.guarded
  | .verifying c => c.guarded

def params : Call Z → List Param
  | .producing c => c.params
  | .verifying c => c.params

/-- The code of a call whose outputs are there. -/
def code : Call Z → BbsFfiResult
  | .producing c => c.code
  | .verifying c => c.code

/-- The wrapped Rust function returns `Ok`. -/
def RustAccepts : Call Z → Prop
  | .producing c => ∃ vs, c.rust = .ok vs
  | .verifying c => ∃ valid, c.rust = .ok valid

/-- The wrapped Rust function returns `Err`. -/
def RustFails : Call Z → Prop
  | .producing c => ∃ e, c.rust = .error e
  | .verifying c => ∃ e, c.rust = .error e

theorem rustFails_iff {c : Call Z} : c.RustFails ↔ ¬ c.RustAccepts := by
  cases c <;> exact error_iff_not_ok

/-- A null output ends the call before anything is read. -/
theorem run_null (t : Target) {c : Call Z} (h : none ∈ c.outs) (w : World) :
    c.run t w = .ok (.InvalidInput, w) := by
  rcases c with c | c
  · exact c.run_null t h w
  · exact c.run_null t (List.mem_singleton.mp h).symm w

/-- `InvalidInput` with every output there means a missing parameter. -/
theorem code_eq_invalidInput {c : Call Z} :
    c.code = .InvalidInput ↔ ∃ p ∈ c.guarded, absent p = true := by
  rcases c with c | c
  · exact (exitCode_eq_invalidInput c.failed_ne.2).trans List.any_eq_true
  · exact (exitCode_eq_invalidInput c.failed_ne.2).trans List.any_eq_true

end Call

end BbsFfi.Calls
