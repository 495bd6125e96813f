import BbsFfi.Producing
import BbsFfi.Success

/-!
# What the two bindings refuse

A parameter the Rust function decodes or measures cannot be empty
(`decoded_ne_nil`), so a C function that reports it missing refuses nothing that
Rust accepts.  The scope is different: the nym proof functions of the C layer
require one, the Rust functions leave an empty scope to the backend
(`invalidInput_refused`, `empty_scope_refused`).  In return every parameter of
that kind is required, except the blind factor of a proof generation
(`missing_reported_iff`).
-/

namespace BbsFfi.Bindings

open Results BbsFfi.Rust BbsFfi.Backend BbsFfi.Operations BbsFfi.Memory BbsFfi.CFfi BbsFfi.Marshal
  BbsFfi.Exits BbsFfi.Calls BbsFfi.Success BbsFfi.Producing BbsFfi.Transparent

variable {Z : Zkryptium}

/-- The decoders, and the proof generators in their signature argument, reject
the empty byte string. -/
structure RejectsEmpty (Z : Zkryptium) : Prop where
  secretKey : ∀ sk, Z.secretKeyFromBytes [] ≠ .ok sk
  publicKey : ∀ pk, Z.publicKeyFromBytes [] ≠ .ok pk
  proof : ∀ pok, Z.pokSignatureFromBytes [] ≠ .ok pok
  pseudonym : ∀ nym, Z.pseudonymFromBytes [] ≠ .ok nym
  proofGen : ∀ seed pk header ph messages indices proof,
    Z.proofGen seed pk [] header ph messages indices ≠ .ok proof
  proofGenWithNym : ∀ seed pk header ph nym scope messages committed indices cIndices bf proof,
    Z.proofGenWithNym seed pk [] header ph nym scope messages committed indices cIndices bf
      ≠ .ok proof

/-- The parameters the Rust function decodes or measures. -/
def decoded : Call Z → List (CSlice UInt8)
  | .producing (.generateKeypair ..) => []
  | .producing (.sign _ _ sk pk _ _ _) => [sk, pk]
  | .producing (.proofGen _ _ pk sig _ _ _ _ _) => [pk, sig]
  | .producing (.generateNymSecret ..) => []
  | .producing (.commitWithNym _ _ _ proverNym _ _) => [proverNym]
  | .producing (.blindSignWithNym _ _ sk pk _ _ signerNym _ _) => [sk, pk, signerNym]
  | .producing (.verifyBlindSignWithNym _ pk blindSig _ _ _ proverNym signerNym blindFactor _) =>
    [pk, blindSig, proverNym, signerNym, blindFactor]
  | .producing (.proofGenWithNym _ _ pk sig _ _ nymSecret _ _ _ _ _ blindFactor _ _) =>
    [pk, sig, nymSecret, blindFactor]
  | .verifying (.verify pk _ sig _ _) => [pk, sig]
  | .verifying (.proofVerify pk proof _ _ _ _ _) => [pk, proof]
  | .verifying (.proofVerifyWithNym pk proof pseudonym _ _ _ _ _ _ _ _ _) =>
    [pk, proof, pseudonym]

def scopeOf : Call Z → Option (CSlice UInt8)
  | .producing (.proofGenWithNym _ _ _ _ _ _ _ scope _ _ _ _ _ _ _) => some scope
  | .verifying (.proofVerifyWithNym _ _ _ _ _ scope _ _ _ _ _ _) => some scope
  | _ => none

theorem array_ne_nil {n : Nat} (arr : U8Array (n + 1)) : arr.val ≠ [] := by
  intro h
  have := arr.property
  rw [h] at this
  cases this

/-- **What Rust accepts has no empty key, signature, proof or secret.** -/
theorem decoded_ne_nil (hZ : RejectsEmpty Z) {c : Call Z} (h : c.RustAccepts) :
    ∀ p ∈ decoded c, p.toList ≠ [] := by
  have key : ∀ {b : Bytes} {sk}, Z.secretKeyFromBytes b = .ok sk → b ≠ [] := by
    rintro _ sk h rfl
    exact hZ.secretKey sk h
  have pub : ∀ {b : Bytes} {pk}, Z.publicKeyFromBytes b = .ok pk → b ≠ [] := by
    rintro _ pk h rfl
    exact hZ.publicKey pk h
  have arr : ∀ {n : Nat} {a : U8Array (n + 1)} {b : Bytes}, a.val = b → b ≠ [] := by
    rintro n a _ rfl
    exact array_ne_nil a
  rcases c with c | c
  · obtain ⟨vs, hvs⟩ := h
    cases c with
    | generateKeypair => simp [decoded]
    | sign seed spare sk pk header msgs sigOut =>
      obtain ⟨_, hsign, _⟩ := map_eq_ok.mp hvs
      obtain ⟨_, hsk, _, hpk, _⟩ := bbsSign_eq_ok.mp hsign
      simp [decoded, key hsk, pub hpk]
    | proofGen seed spare pk sig header ph msgs disclosedIndices proofOut =>
      obtain ⟨_, hgen, _⟩ := map_eq_ok.mp hvs
      obtain ⟨_, hpk, _, hproof, _⟩ := bbsProofGen_eq_ok.mp hgen
      have hsig : sig.toList ≠ [] := fun hnil => hZ.proofGen _ _ _ _ _ _ _ (hnil ▸ hproof)
      simp [decoded, pub hpk, hsig]
    | generateNymSecret => simp [decoded]
    | commitWithNym seed spare committedMsgs proverNym commitmentOut blindFactorOut =>
      obtain ⟨_, hcommit, _⟩ := map_eq_ok.mp hvs
      obtain ⟨_, hnym, _⟩ := bbsCommitWithNym_eq_ok.mp hcommit
      simp [decoded, arr hnym]
    | blindSignWithNym seed spare sk pk commitment header signerNym msgs sigOut =>
      obtain ⟨_, hsign, _⟩ := map_eq_ok.mp hvs
      obtain ⟨_, hsk, _, hpk, _, hnym, _⟩ := bbsBlindSignWithNym_eq_ok.mp hsign
      simp [decoded, key hsk, pub hpk, arr hnym]
    | verifyBlindSignWithNym spare pk blindSig header msgs committedMsgs proverNym signerNym
        blindFactor nymSecretOut =>
      obtain ⟨_, hverify, _⟩ := map_eq_ok.mp hvs
      obtain ⟨_, hpk, _, hsig, _, _, _, hprover, _, _, _, hsigner, _, _, _, hbf, _⟩ :=
        bbsVerifyBlindSignWithNym_eq_ok.mp hverify
      simp [decoded, pub hpk, arr hsig, arr hprover, arr hsigner, arr hbf]
    | proofGenWithNym seed spare pk sig header ph nymSecret scope msgs committedMsgs
        disclosedIndices disclosedCommitmentIndices blindFactor proofOut pseudonymOut =>
      obtain ⟨_, hgen, _⟩ := map_eq_ok.mp hvs
      obtain ⟨_, hpk, _, hnym, _, _, _, hbf, _, _, _, hproof, _⟩ :=
        bbsProofGenWithNym_eq_ok.mp hgen
      have hsig : sig.toList ≠ [] :=
        fun hnil => hZ.proofGenWithNym _ _ _ _ _ _ _ _ _ _ _ _ (hnil ▸ hproof)
      simp [decoded, pub hpk, hsig, arr hnym, arr hbf]
  · obtain ⟨valid, hvalid⟩ := h
    cases c with
    | verify pk header sig msgs validOut =>
      obtain ⟨_, hpk, _, hsig, _⟩ := bbsVerify_eq_ok.mp hvalid
      simp [decoded, pub hpk, arr hsig]
    | proofVerify pk proof header ph disclosedMsgs disclosedIndices validOut =>
      obtain ⟨_, hpk, _, hproof, _⟩ := bbsProofVerify_eq_ok.mp hvalid
      have hne : proof.toList ≠ [] := fun hnil => hZ.proof _ (hnil ▸ hproof)
      simp [decoded, pub hpk, hne]
    | proofVerifyWithNym pk proof pseudonym header ph scope totalSignerMsgs disclosedMsgs
        disclosedCommittedMsgs disclosedIndices disclosedCommitmentIndices validOut =>
      obtain ⟨_, hpk, _, hproof, _, hnym, _⟩ := bbsProofVerifyWithNym_eq_ok.mp hvalid
      have hne : proof.toList ≠ [] := fun hnil => hZ.proof _ (hnil ▸ hproof)
      have hne' : pseudonym.toList ≠ [] := fun hnil => hZ.pseudonym _ (hnil ▸ hnym)
      simp [decoded, pub hpk, hne, hne']

theorem guarded_decoded (c : Call Z) :
    ∀ p ∈ c.guarded, p ∈ decoded c ∨ scopeOf c = some p := by
  rcases c with c | c <;> cases c <;>
    simp [Call.guarded, ProducingCall.guarded, VerifyingCall.guarded, decoded, scopeOf]

theorem run_code (t : Target) (c : Call Z) (w : World) (hnull : ∀ out ∈ c.outs, out ≠ none) :
    ∃ w', c.run t w = .ok (c.code, w') := by
  rcases c with c | c
  · obtain ⟨w', hrun, _⟩ := run_ends t c w hnull
    exact ⟨w', hrun⟩
  · obtain ⟨slot, hslot⟩ := Option.ne_none_iff_exists'.mp (hnull _ (List.mem_singleton.mpr rfl))
    obtain ⟨code, n, heap, hrun, _, hjudged⟩ := c.spec t hslot w
    obtain rfl := hjudged.code_eq
    exact ⟨_, hrun⟩

/-- **What the C functions refuse.**  Where a C function reports invalid input
although its outputs are there, the Rust function fails on the same arguments,
or only the scope is missing. -/
theorem invalidInput_refused (hZ : RejectsEmpty Z) (t : Target) (c : Call Z) (w w' : World)
    (hnull : ∀ out ∈ c.outs, out ≠ none) (h : c.run t w = .ok (.InvalidInput, w')) :
    c.RustFails ∨
      ∃ scope, scopeOf c = some scope ∧ absent scope = true ∧
        ∀ p ∈ decoded c, absent p = false := by
  by_cases hdecoded : ∃ p ∈ decoded c, absent p = true
  · obtain ⟨p, hp, habsent⟩ := hdecoded
    refine Or.inl (Call.rustFails_iff.mpr fun hrust => ?_)
    exact decoded_ne_nil hZ hrust p hp (toList_of_absent habsent)
  · obtain ⟨w₁, hrun⟩ := run_code t c w hnull
    have hcode : c.code = .InvalidInput := (Prod.mk.inj (Except.ok.inj (hrun.symm.trans h))).1
    obtain ⟨p, hp, habsent⟩ := Call.code_eq_invalidInput.mp hcode
    rcases guarded_decoded c p hp with hmem | hscope
    · exact absurd ⟨p, hmem, habsent⟩ hdecoded
    · refine Or.inr ⟨p, hscope, habsent, fun q hq => ?_⟩
      exact Bool.eq_false_iff.mpr fun hq' => hdecoded ⟨q, hq, hq'⟩

theorem transparent_rejectsEmpty : RejectsEmpty transparent where
  secretKey _ h := by cases h
  publicKey _ h := by cases h
  proof _ h := by cases h
  pseudonym _ h := by cases h
  proofGen _ _ _ _ _ _ _ h := by cases h
  proofGenWithNym _ _ _ _ _ _ _ _ _ _ _ _ h := by cases h

theorem invalidInput_refused_signature :
    (Call.verifying (VerifyingCall.verify (Z := transparent) (CSlice.of (spread 96 7))
      (CSlice.null 0) (CSlice.null 0) (CSlice.null 0) (some 0))).RustFails := by
  have hrefused := invalidInput_refused transparent_rejectsEmpty (.bits64 false)
    (.verifying (.verify (CSlice.of (spread 96 7)) (CSlice.null 0) (CSlice.null 0)
      (CSlice.null 0) (some 0)))
    World.initial _ (by simp [Call.outs, VerifyingCall.validOut]) rfl
  rcases hrefused with hfails | ⟨scope, hscope, _⟩
  · exact hfails
  · cases hscope

/-- An empty scope: Rust generates a proof with a pseudonym and accepts it, the C
function calls the same arguments invalid. -/
theorem empty_scope_refused :
    RejectsEmpty transparent ∧
      bbsProofGenWithNym transparent (0 : UInt8) (spread 96 7) (spread 80 12) [] [] (spread 32 5)
          [] [] [] [] [] (spread 32 0) = .ok ⟨spread 48 12, [5]⟩ ∧
      ∃ c : VerifyingCall transparent, c = .proofVerifyWithNym (CSlice.of (spread 96 7))
          (CSlice.of (spread 48 12)) (CSlice.of [5]) (CSlice.null 0) (CSlice.null 0)
          (CSlice.null 0) 0 (CSlice.null 0) (CSlice.null 0) (CSlice.null 0) (CSlice.null 0)
          (some 0) ∧
        c.rust = .ok true ∧
        ∃ w', c.run (.bits64 false) World.initial = .ok (.InvalidInput, w') :=
  ⟨transparent_rejectsEmpty,
    bbsProofGenWithNym_eq_ok.mpr ⟨(7 : UInt8), gather_spread 95 7, ⟨spread 32 5, rfl⟩, rfl,
      (5 : UInt8), gather_spread 31 5, ⟨spread 32 0, rfl⟩, rfl, (0 : UInt8), gather_spread 31 0,
      ((12 : UInt8), ((5 : UInt8), [])), by rfl, rfl⟩,
    _, rfl, by rfl, _, rfl⟩

/-! ## Missing parameters -/

/-- The blind factor, where the C function does not require one. -/
def unguardedBlindFactor : Call Z → Option (CSlice UInt8)
  | .producing (.proofGenWithNym _ _ _ _ _ _ _ _ _ _ _ _ blindFactor _ _) => some blindFactor
  | _ => none

def OnlyBlindFactorMissing (c : Call Z) : Prop :=
  ∃ blindFactor, unguardedBlindFactor c = some blindFactor ∧ absent blindFactor = true ∧
    ∀ p ∈ c.guarded, absent p = false

theorem decoded_guarded (c : Call Z) :
    ∀ p ∈ decoded c, p ∈ c.guarded ∨ unguardedBlindFactor c = some p := by
  rcases c with c | c <;> cases c <;>
    simp [Call.guarded, ProducingCall.guarded, VerifyingCall.guarded, decoded,
      unguardedBlindFactor]

theorem unguardedBlindFactor_decoded {c : Call Z} {blindFactor : CSlice UInt8}
    (h : unguardedBlindFactor c = some blindFactor) : blindFactor ∈ decoded c := by
  unfold unguardedBlindFactor at h
  split at h
  · cases h
    simp [decoded]
  · cases h

/-- The Rust function measures the empty blind factor and fails. -/
theorem code_of_onlyBlindFactorMissing {c : Call Z} (h : OnlyBlindFactorMissing c) :
    c.code = .ProofGenFailed := by
  obtain ⟨bf, hbf, habsent, hguarded⟩ := h
  unfold unguardedBlindFactor at hbf
  split at hbf
  case h_2 => cases hbf
  case h_1 seed spare pk sig header ph nymSecret scope msgs committedMsgs disclosedIndices
      disclosedCommitmentIndices blindFactor proofOut pseudonymOut =>
    obtain rfl := Option.some.inj hbf
    let call : ProducingCall Z := .proofGenWithNym seed spare pk sig header ph nymSecret scope
      msgs committedMsgs disclosedIndices disclosedCommitmentIndices blindFactor proofOut
      pseudonymOut
    have hmissing : call.missing = false := List.any_eq_false.mpr fun p hp =>
      Bool.eq_false_iff.mp (hguarded p hp)
    have hfails : ∃ e, call.rust = .error e := by
      refine error_iff_not_ok.mpr fun ⟨vs, hvs⟩ => ?_
      obtain ⟨_, hgen, _⟩ := map_eq_ok.mp hvs
      obtain ⟨_, _, _, _, _, _, arr, harr, _⟩ := bbsProofGenWithNym_eq_ok.mp hgen
      exact array_ne_nil arr (harr.trans (toList_of_absent habsent))
    exact (exitCode_eq_failed call.failed_ne.1 call.failed_ne.2).mpr ⟨hmissing, hfails⟩

/-- **Which missing parameters are reported.**  With its outputs there, a call
reports a missing key, signature, proof, pseudonym, secret or blind factor as
`InvalidInput`, unless all that is missing is the blind factor of a proof
generation: that call ends with `ProofGenFailed`. -/
theorem missing_reported_iff (t : Target) (c : Call Z) (w : World)
    (hnull : ∀ out ∈ c.outs, out ≠ none) :
    ∃ code w', c.run t w = .ok (code, w') ∧
      (((∃ p ∈ decoded c, absent p = true) → code = .InvalidInput) ↔
        ¬ OnlyBlindFactorMissing c) ∧
      (OnlyBlindFactorMissing c → code = .ProofGenFailed) := by
  obtain ⟨w', hrun⟩ := run_code t c w hnull
  refine ⟨c.code, w', hrun, ?_, code_of_onlyBlindFactorMissing⟩
  constructor
  · intro hreported honly
    obtain ⟨bf, hbf, habsent, _⟩ := id honly
    have hinvalid := hreported ⟨bf, unguardedBlindFactor_decoded hbf, habsent⟩
    rw [code_of_onlyBlindFactorMissing honly] at hinvalid
    cases hinvalid
  · rintro hnot ⟨p, hp, habsent⟩
    rw [Call.code_eq_invalidInput]
    by_contra hpresent
    have hguarded : ∀ q ∈ c.guarded, absent q = false := fun q hq =>
      Bool.eq_false_iff.mpr fun hq' => hpresent ⟨q, hq, hq'⟩
    rcases decoded_guarded c p hp with hmem | hbf
    · exact hpresent ⟨p, hmem, habsent⟩
    · exact hnot ⟨p, hbf, habsent, hguarded⟩

theorem missing_reported_iff_verify :
    ∃ w', (Call.producing (.verifyBlindSignWithNym (Z := transparent) (fun _ => 0)
        (CSlice.of (spread 96 7)) (CSlice.of (spread 80 12)) (CSlice.null 0) (CSlice.null 0)
        (CSlice.null 0) (CSlice.of (spread 32 2)) (CSlice.of (spread 32 3)) (CSlice.null 0)
        (some 0))).run (.bits64 false) World.initial = .ok (.InvalidInput, w') := by
  obtain ⟨code, w', hrun, hreported, _⟩ := missing_reported_iff (.bits64 false)
    (Call.producing (.verifyBlindSignWithNym (Z := transparent) (fun _ => 0)
      (CSlice.of (spread 96 7)) (CSlice.of (spread 80 12)) (CSlice.null 0) (CSlice.null 0)
      (CSlice.null 0) (CSlice.of (spread 32 2)) (CSlice.of (spread 32 3)) (CSlice.null 0)
      (some 0))) World.initial (by simp [Call.outs, ProducingCall.outs])
  have hnot := hreported.mpr fun ⟨bf, hbf, _⟩ => by cases hbf
  exact ⟨w', by rw [hrun, hnot ⟨CSlice.null 0, by simp [decoded], rfl⟩]⟩

/-- Generating a proof with a null blind factor. -/
theorem null_blind_factor_unreported :
    RejectsEmpty transparent ∧
      ∃ c : Call transparent, c = .producing (.proofGenWithNym (0 : UInt8) (fun _ => 0)
          (CSlice.of (spread 96 7)) (CSlice.of (spread 80 12)) (CSlice.null 0) (CSlice.null 0)
          (CSlice.of (spread 32 5)) (CSlice.of [6]) (CSlice.null 0) (CSlice.null 0)
          (CSlice.null 0) (CSlice.null 0) (CSlice.null 0) (some 0) (some 1)) ∧
        (∀ out ∈ c.outs, out ≠ none) ∧ CSlice.null 0 ∈ decoded c ∧
        absent (CSlice.null 0) = true ∧
        ∃ w', c.run (.bits64 false) World.initial = .ok (.ProofGenFailed, w') := by
  refine ⟨transparent_rejectsEmpty, _, rfl, by simp [Call.outs, ProducingCall.outs],
    by simp [decoded], rfl, ?_⟩
  have hcode : Call.code (.producing (.proofGenWithNym (Z := transparent) (0 : UInt8)
      (fun _ => 0) (CSlice.of (spread 96 7)) (CSlice.of (spread 80 12)) (CSlice.null 0)
      (CSlice.null 0) (CSlice.of (spread 32 5)) (CSlice.of [6]) (CSlice.null 0) (CSlice.null 0)
      (CSlice.null 0) (CSlice.null 0) (CSlice.null 0) (some 0) (some 1))) = .ProofGenFailed :=
    code_of_onlyBlindFactorMissing ⟨CSlice.null 0, rfl, rfl, by
      simp [Call.guarded, ProducingCall.guarded, absent, isMissing, CSlice.of, ConstPtr.isNull]⟩
  rw [← hcode]
  exact run_code (.bits64 false) _ World.initial (by simp [Call.outs, ProducingCall.outs])

end BbsFfi.Bindings
