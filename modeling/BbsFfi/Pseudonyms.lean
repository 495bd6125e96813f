import BbsFfi.Producing
import BbsFfi.Steps

/-!
# What a pseudonym depends on

Assuming that the backend derives it from its secret and scope alone
(`DerivesFrom`), the pseudonym that comes out of the crate depends on the bytes
of these two arguments, and on no other of the eleven in Rust or the twenty-four
in C (`pseudonym_determined`).
-/

namespace BbsFfi.Pseudonyms

open Results BbsFfi.Rust BbsFfi.Backend BbsFfi.Operations BbsFfi.Memory BbsFfi.Exits BbsFfi.Calls
  BbsFfi.Success BbsFfi.Producing BbsFfi.Steps BbsFfi.Transparent

/-- Pseudonyms are a function of the secret and the scope, encoded injectively. -/
structure DerivesFrom (Z : Zkryptium) (P : Z.PseudonymSecret → Bytes → Z.Pseudonym) : Prop where
  derived : ∀ {seed pk sig header ph nym scope messages committed indices cIndices bf out},
    Z.proofGenWithNym seed pk sig header ph nym scope messages committed indices cIndices bf
      = .ok out → out.2 = P nym scope
  encode_injective : Function.Injective Z.pseudonymToBytes

/-- The secret that the bytes stand for. -/
def SecretOf (Z : Zkryptium) (nymSecret : Bytes) (nym : Z.PseudonymSecret) : Prop :=
  ∃ arr : U8Array 32, arr.val = nymSecret ∧ Z.pseudonymSecretFromBytes arr = .ok nym

variable {Z : Zkryptium}

theorem SecretOf.unique {nymSecret : Bytes} {nym nym' : Z.PseudonymSecret}
    (h : SecretOf Z nymSecret nym) (h' : SecretOf Z nymSecret nym') : nym = nym' := by
  obtain ⟨arr, harr, hnym⟩ := h
  obtain ⟨arr', harr', hnym'⟩ := h'
  obtain rfl : arr = arr' := Subtype.ext (harr.trans harr'.symm)
  exact Except.ok.inj (hnym.symm.trans hnym')

/-- A successful call with this secret and scope, in Rust or in C, put out this
pseudonym.  The C call may write both of its outputs to one slot. -/
inductive PutOut (Z : Zkryptium) (nymSecret scope pseudonym : Bytes) : Prop
  | rust (seed : Z.Seed) (publicKey signature header presentationHeader : Bytes)
      (messages committedMessages : List Bytes)
      (disclosedIndices disclosedCommitmentIndices : List UInt32) (blindFactor proof : Bytes) :
      bbsProofGenWithNym Z seed publicKey signature header presentationHeader nymSecret scope
          messages committedMessages disclosedIndices disclosedCommitmentIndices blindFactor
        = .ok ⟨proof, pseudonym⟩ → PutOut Z nymSecret scope pseudonym
  | c (t : Target) (seed : Z.Seed) (spare : Nat → Nat)
      (pk sig header ph nymSecretArg scopeArg : CSlice UInt8)
      (msgs committedMsgs : CSlice BbsMessage)
      (disclosedIndices disclosedCommitmentIndices : CSlice UInt32) (blindFactor : CSlice UInt8)
      (proofOut pseudonymOut : MutPtr) (w w' : World) :
      nymSecretArg.toList = nymSecret → scopeArg.toList = scope →
      (ProducingCall.proofGenWithNym seed spare pk sig header ph nymSecretArg scopeArg msgs
        committedMsgs disclosedIndices disclosedCommitmentIndices blindFactor proofOut
        pseudonymOut).run t w = .ok (.Ok, w') →
      output w' pseudonymOut = some pseudonym → PutOut Z nymSecret scope pseudonym

/-- Where the pseudonym of a Rust call comes from. -/
theorem derived_of_rust {P : Z.PseudonymSecret → Bytes → Z.Pseudonym} (hP : DerivesFrom Z P)
    {seed : Z.Seed} {publicKey signature header presentationHeader nymSecret scope : Bytes}
    {messages committedMessages : List Bytes}
    {disclosedIndices disclosedCommitmentIndices : List UInt32} {blindFactor : Bytes}
    {out : BbsProofWithPseudonym}
    (h : bbsProofGenWithNym Z seed publicKey signature header presentationHeader nymSecret scope
        messages committedMessages disclosedIndices disclosedCommitmentIndices blindFactor
      = .ok out) :
    ∃ nym, SecretOf Z nymSecret nym ∧ Z.pseudonymToBytes (P nym scope) = out.pseudonym := by
  obtain ⟨_, _, arr, harr, nym, hnym, _, _, _, _, result, hresult, rfl⟩ :=
    bbsProofGenWithNym_eq_ok.mp h
  exact ⟨nym, ⟨arr, harr, hnym⟩, by rw [hP.derived hresult]⟩

/-- A successful C call with buffer outputs leaves the last result of the Rust
function in its last output. -/
theorem last_output {t : Target} {c : ProducingCall Z} {w w' : World}
    (h : c.run t w = .ok (.Ok, w')) :
    ∃ vs, c.rust = .ok vs ∧ ∀ p ∈ (c.outs.zip vs).getLast?, output w' p.1 = some p.2 := by
  have hnull : ∀ out ∈ c.outs, out ≠ none := by
    rintro out hout rfl
    cases (c.run_null t hout w).symm.trans h
  obtain ⟨w₁, hrun, _, hok⟩ := run_ends t c w hnull
  obtain ⟨hcode, rfl⟩ := Prod.mk.inj (Except.ok.inj (hrun.symm.trans h))
  exact hok hcode

theorem PutOut.derived {P : Z.PseudonymSecret → Bytes → Z.Pseudonym} (hP : DerivesFrom Z P)
    {nymSecret scope pseudonym : Bytes} (h : PutOut Z nymSecret scope pseudonym) :
    ∃ nym, SecretOf Z nymSecret nym ∧ Z.pseudonymToBytes (P nym scope) = pseudonym := by
  cases h with
  | rust seed publicKey signature header presentationHeader messages committedMessages
      disclosedIndices disclosedCommitmentIndices blindFactor proof hrun =>
    exact derived_of_rust hP hrun
  | c t seed spare pk sig header ph nymSecretArg scopeArg msgs committedMsgs disclosedIndices
      disclosedCommitmentIndices blindFactor proofOut pseudonymOut w w' hnym hscope hrun hout =>
    subst hnym hscope
    obtain ⟨vs, hvs, hlast⟩ := last_output hrun
    obtain ⟨result, hresult, rfl⟩ := map_eq_ok.mp hvs
    cases hout.symm.trans (hlast (pseudonymOut, result.pseudonym) rfl)
    exact derived_of_rust hP hresult

/-- **Secret and scope determine the pseudonym.**  Two successful calls with one
secret give one pseudonym on one scope; where the derivation tells scopes apart,
they give different pseudonyms on different scopes. -/
theorem pseudonym_determined {P : Z.PseudonymSecret → Bytes → Z.Pseudonym}
    (hP : DerivesFrom Z P) {nymSecret scope scope' pseudonym pseudonym' : Bytes}
    (h : PutOut Z nymSecret scope pseudonym) (h' : PutOut Z nymSecret scope' pseudonym') :
    (scope = scope' → pseudonym = pseudonym') ∧
      ((∀ nym, SecretOf Z nymSecret nym → Function.Injective (P nym)) → scope ≠ scope' →
        pseudonym ≠ pseudonym') := by
  obtain ⟨nym, hnym, rfl⟩ := h.derived hP
  obtain ⟨nym', hnym', rfl⟩ := h'.derived hP
  obtain rfl := hnym.unique hnym'
  refine ⟨congrArg fun s => Z.pseudonymToBytes (P nym s), ?_⟩
  intro hinj hne heq
  exact hne (hinj nym hnym (hP.encode_injective heq))

/-! ## The transparent backend -/

theorem transparent_derivesFrom :
    DerivesFrom transparent fun nym scope => ((nym, scope) : UInt8 × Bytes) where
  derived h := by
    obtain ⟨_, _, hrest⟩ := bind_eq_ok.mp h
    obtain ⟨_, _, hout⟩ := bind_eq_ok.mp hrest
    cases hout
    rfl
  encode_injective := by
    rintro ⟨nym, scope⟩ ⟨nym', scope'⟩ h
    cases h
    rfl

/-- One secret on two scopes, once in Rust and once in C with other arguments. -/
theorem pseudonym_determined_two :
    ∃ pseudonym pseudonym', PutOut transparent (spread 32 5) [6] pseudonym ∧
      PutOut transparent (spread 32 5) [7] pseudonym' ∧ pseudonym ≠ pseudonym' := by
  have hrust : PutOut transparent (spread 32 5) [6] [5, 6] :=
    .rust (0 : UInt8) (spread 96 7) (spread 80 27) [9] [4] [[], [1]] [] [0] [] (spread 32 5)
      (spread 48 33) rfl
  have hsucceeds : Succeeds (Z := transparent) (.proofGenWithNym (1 : UInt8) (spread 96 8)
      (spread 80 18) [] [4] (spread 32 5) [7] [] [[2]] [] [0] (spread 32 3))
      [spread 48 26, [5, 7]] :=
    Succeeds.of_eval rfl (by decide)
  obtain ⟨w, hrun, houts⟩ := hsucceeds.c .release32
    (.proofGenWithNym (1 : UInt8) (fun _ => 2) (CSlice.of (spread 96 8)) (CSlice.of (spread 80 18))
      (CSlice.null 0) (CSlice.of [4]) (CSlice.of (spread 32 5)) (CSlice.of [7]) (CSlice.null 0)
      (CSlice.of [CSlice.of [2]]) (CSlice.null 0) (CSlice.of [0]) (CSlice.of (spread 32 3))
      (some 0) (some 1)) World.initial rfl (by decide) (by decide)
  obtain ⟨-, hout⟩ := List.cons.inj houts
  have hc : PutOut transparent (spread 32 5) [7] [5, 7] :=
    .c _ _ _ _ _ _ _ _ _ _ _ _ _ _ _ _ _ _ rfl rfl hrun (List.cons.inj hout).1
  refine ⟨_, _, hrust, hc, (pseudonym_determined transparent_derivesFrom hrust hc).2 ?_ (by decide)⟩
  rintro nym - scope scope' heq
  exact (Prod.mk.inj heq).2

end BbsFfi.Pseudonyms
