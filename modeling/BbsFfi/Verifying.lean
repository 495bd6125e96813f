import BbsFfi.Calls
import BbsFfi.Success
import BbsFfi.Transparent

/-!
# The functions with a verdict

`verdict_fail_closed`: `valid_out` is 1 only if the backend accepted exactly
the decoded arguments, and 0 in every other case; the code tells a rejection
from an argument that does not decode and from a missing one.
-/

namespace BbsFfi.Verifying

open BbsFfi.Rust BbsFfi.Backend BbsFfi.Operations BbsFfi.Values BbsFfi.Memory BbsFfi.CFfi
  BbsFfi.Exits BbsFfi.Calls BbsFfi.Success BbsFfi.Transparent

variable {Z : Zkryptium}

/-- No mandatory parameter is null or has length zero. -/
def Present (c : VerifyingCall Z) : Prop :=
  ∀ p ∈ c.guarded, p.data.isNull = false ∧ p.len ≠ 0

/-- Every decode succeeds, and the backend gives this answer on the decoded
objects and the marshalled header, presentation header, scope, count, messages
and indices. -/
inductive Answers : VerifyingCall Z → Except Z.Error Unit → Prop
  | verify {pk header sig : CSlice UInt8} {msgs : CSlice BbsMessage} {validOut : MutPtr}
      {key : Z.PublicKey} {sigBytes : U8Array 80} {signature : Z.Signature} :
      Z.publicKeyFromBytes pk.toList = .ok key →
      sigBytes.val = sig.toList →
      Z.signatureFromBytes sigBytes = .ok signature →
      Answers (.verify pk header sig msgs validOut)
        (Z.verify signature key (some (messagesOf msgs)) (some header.toList))
  | proofVerify {pk proof header ph : CSlice UInt8} {disclosedMsgs : CSlice BbsMessage}
      {disclosedIndices : CSlice UInt32} {validOut : MutPtr} {key : Z.PublicKey}
      {pok : Z.PoKSignature} :
      Z.publicKeyFromBytes pk.toList = .ok key →
      Z.pokSignatureFromBytes proof.toList = .ok pok →
      Answers (.proofVerify pk proof header ph disclosedMsgs disclosedIndices validOut)
        (Z.proofVerify pok key (some (messagesOf disclosedMsgs))
          (some (asUsize disclosedIndices.toList)) (some header.toList) (some ph.toList))
  | proofVerifyWithNym {pk proof pseudonym header ph scope : CSlice UInt8}
      {totalSignerMsgs : UInt32} {disclosedMsgs disclosedCommittedMsgs : CSlice BbsMessage}
      {disclosedIndices disclosedCommitmentIndices : CSlice UInt32} {validOut : MutPtr}
      {key : Z.PublicKey} {pok : Z.PoKSignature} {nym : Z.Pseudonym} :
      Z.publicKeyFromBytes pk.toList = .ok key →
      Z.pokSignatureFromBytes proof.toList = .ok pok →
      Z.pseudonymFromBytes pseudonym.toList = .ok nym →
      Answers (.proofVerifyWithNym pk proof pseudonym header ph scope totalSignerMsgs
          disclosedMsgs disclosedCommittedMsgs disclosedIndices disclosedCommitmentIndices
          validOut)
        (Z.proofVerifyWithNym pok key (some header.toList) (some ph.toList) nym scope.toList
          (some totalSignerMsgs.toNat) (noneIfEmpty (messagesOf disclosedMsgs))
          (noneIfEmpty (messagesOf disclosedCommittedMsgs))
          (some (asUsize disclosedIndices.toList))
          (some (asUsize disclosedCommitmentIndices.toList)))

/-- The Rust function reports the backend's answer. -/
theorem rust_eq_ok {c : VerifyingCall Z} {b : Bool} :
    c.rust = .ok b ↔ ∃ a, Answers c a ∧ (b = true ↔ a = .ok ()) := by
  cases c with
  | verify pk header sig msgs validOut =>
    rw [VerifyingCall.rust, VerifyingCall.check, Check.eval, bbsVerify_eq_ok]
    constructor
    · rintro ⟨key, hkey, arr, harr, signature, hsig, hb⟩
      exact ⟨_, .verify hkey harr hsig, hb⟩
    · rintro ⟨_, ha, hb⟩
      cases ha with
      | verify hkey harr hsig => exact ⟨_, hkey, _, harr, _, hsig, hb⟩
  | proofVerify pk proof header ph disclosedMsgs disclosedIndices validOut =>
    rw [VerifyingCall.rust, VerifyingCall.check, Check.eval, bbsProofVerify_eq_ok]
    constructor
    · rintro ⟨key, hkey, pok, hpok, hb⟩
      exact ⟨_, .proofVerify hkey hpok, hb⟩
    · rintro ⟨_, ha, hb⟩
      cases ha with
      | proofVerify hkey hpok => exact ⟨_, hkey, _, hpok, hb⟩
  | proofVerifyWithNym pk proof pseudonym header ph scope totalSignerMsgs disclosedMsgs
      disclosedCommittedMsgs disclosedIndices disclosedCommitmentIndices validOut =>
    rw [VerifyingCall.rust, VerifyingCall.check, Check.eval, bbsProofVerifyWithNym_eq_ok]
    constructor
    · rintro ⟨key, hkey, pok, hpok, nym, hnym, hb⟩
      exact ⟨_, .proofVerifyWithNym hkey hpok hnym, hb⟩
    · rintro ⟨_, ha, hb⟩
      cases ha with
      | proofVerifyWithNym hkey hpok hnym => exact ⟨_, hkey, _, hpok, _, hnym, hb⟩

theorem rust_eq_true {c : VerifyingCall Z} : c.rust = .ok true ↔ Answers c (.ok ()) := by
  rw [rust_eq_ok]
  exact ⟨fun ⟨a, ha, hb⟩ => hb.mp rfl ▸ ha, fun h => ⟨_, h, by simp⟩⟩

theorem rust_eq_false {c : VerifyingCall Z} :
    c.rust = .ok false ↔ ∃ e, Answers c (.error e) := by
  rw [rust_eq_ok]
  constructor
  · rintro ⟨a, ha, hb⟩
    cases a with
    | ok => exact absurd (hb.mpr rfl) Bool.false_ne_true
    | error e => exact ⟨e, ha⟩
  · rintro ⟨e, he⟩
    exact ⟨_, he, by simp⟩

theorem missing_eq_false {c : VerifyingCall Z} : c.missing = false ↔ Present c := by
  rw [Bool.eq_false_iff, VerifyingCall.missing, Ne, List.any_eq_true, Present]
  constructor
  · intro h p hp
    have habs : ¬ absent p = true := fun ha => h ⟨p, hp, ha⟩
    rw [absent_iff, not_or, Bool.not_eq_true] at habs
    exact habs
  · rintro h ⟨p, hp, ha⟩
    rcases absent_iff.mp ha with hnull | hlen
    · rw [(h p hp).1] at hnull
      cases hnull
    · exact (h p hp).2 hlen

/-- What the exits of a call say about guards, decodes and backend. -/
theorem judged_iff {c : VerifyingCall Z} {code : BbsFfiResult} {n : Int32}
    (h : Judged c.missing c.rust c.failed code n) :
    (n = 0 ∨ n = 1) ∧ (n = 1 ↔ code = .Ok ∧ Present c ∧ Answers c (.ok ())) ∧
      (code = .Ok ∧ n = 0 ↔ Present c ∧ ∃ e, Answers c (.error e)) ∧
      (code = .Ok ↔ Present c ∧ ∃ a, Answers c a) ∧
      (code = c.failed ↔ Present c ∧ ∀ a, ¬ Answers c a) ∧
      (code = .InvalidInput ↔ ¬ Present c) ∧ (code ≠ .Ok → n = 0) := by
  obtain ⟨hok, hinvalid⟩ := c.failed_ne
  simp only [← missing_eq_false]
  cases hm : c.missing with
  | true =>
    rw [hm] at h
    obtain ⟨rfl, rfl⟩ := h
    simpa using hinvalid.symm
  | false =>
    rw [hm] at h
    cases hr : c.rust with
    | ok valid =>
      rw [hr] at h
      obtain ⟨rfl, rfl⟩ := h
      obtain ⟨a, ha, _⟩ := rust_eq_ok.mp hr
      have hanswer : ∃ a, Answers c a := ⟨a, ha⟩
      cases valid <;> simp [← rust_eq_true, ← rust_eq_false, hr, hanswer, ← not_exists, hok.symm]
    | error e =>
      rw [hr] at h
      obtain ⟨rfl, rfl⟩ := h
      have hsilent : ∀ a, ¬ Answers c a := by
        intro a ha
        cases a with
        | ok => rw [rust_eq_true.mpr ha] at hr; cases hr
        | error e => rw [rust_eq_false.mpr ⟨e, ha⟩] at hr; cases hr
      simp [hok, hinvalid, hsilent]

/-- **The verdict is fail-closed.**  Whatever `valid_out` held before, it is 0
or 1 after the call: 1 exactly when every mandatory parameter is there, every
decode succeeds and the backend accepts.  A rejection is `Ok` with 0, a failed
decode the failure code of the function with 0, a missing parameter
`InvalidInput` with 0. -/
theorem verdict_fail_closed (t : Target) (c : VerifyingCall Z) (w : World) (slot : Nat)
    (hslot : c.validOut = some slot) :
    ∃ code w', c.run t w = .ok (code, w') ∧
      (w'.ints slot = 0 ∨ w'.ints slot = 1) ∧
      (w'.ints slot = 1 ↔ code = .Ok ∧ Present c ∧ Answers c (.ok ())) ∧
      (code = .Ok ∧ w'.ints slot = 0 ↔ Present c ∧ ∃ e, Answers c (.error e)) ∧
      (code = .Ok ↔ Present c ∧ ∃ a, Answers c a) ∧
      (code = c.failed ↔ Present c ∧ ∀ a, ¬ Answers c a) ∧
      (code = .InvalidInput ↔ ¬ Present c) ∧
      (code ≠ .Ok → w'.ints slot = 0) ∧
      w'.buffers = w.buffers ∧ ∀ other, other ≠ slot → w'.ints other = w.ints other := by
  obtain ⟨code, n, heap, hrun, _, hjudged⟩ := c.spec t hslot w
  obtain ⟨h₁, h₂, h₃, h₄, h₅, h₆, h₇⟩ := judged_iff hjudged
  let w' : World := { w with heap := heap, ints := Function.update w.ints slot n }
  have hn : w'.ints slot = n := Function.update_self ..
  refine ⟨code, w', hrun, ?_⟩
  rw [hn]
  exact ⟨h₁, h₂, h₃, h₄, h₅, h₆, h₇, rfl, fun other hne => Function.update_of_ne hne ..⟩

/-- Verifying the signature of one message. -/
def sampleVerify : VerifyingCall transparent :=
  .verify (CSlice.of (spread 96 7)) (CSlice.null 0) (CSlice.of (spread 80 10))
    (CSlice.of [CSlice.of [1, 2]]) (some 2)

/-- The signature is accepted, and the verdict overwrites what the slot held. -/
theorem verdict_fail_closed_verify :
    ∃ w', sampleVerify.run (.bits64 false) { World.initial with ints := fun _ => 77 }
      = .ok (.Ok, w') ∧ w'.ints 2 = 1 := by
  obtain ⟨code, w', hrun, _, hone, _, hok, _⟩ := verdict_fail_closed (.bits64 false) sampleVerify
    { World.initial with ints := fun _ => 77 } 2 rfl
  have hpresent : Present sampleVerify := missing_eq_false.mp (by decide)
  have haccept : Answers sampleVerify (.ok ()) := rust_eq_true.mp (by rfl)
  have hcode : code = .Ok := hok.mpr ⟨hpresent, _, haccept⟩
  exact ⟨w', by rw [hrun, hcode], hone.mpr ⟨hcode, hpresent, haccept⟩⟩

end BbsFfi.Verifying
