import BbsFfi.Steps

/-!
# Signatures and selective disclosure

Assuming of the backend that it is complete by itself and that its decoders
invert its encoders (`PlainScheme`), the crate is complete: signatures verify
and proofs verify, whichever binding each party uses (`plain_complete`).
-/

namespace BbsFfi.PlainProtocol

open Results BbsFfi.Rust BbsFfi.Backend BbsFfi.Operations BbsFfi.Values BbsFfi.Memory BbsFfi.Calls
  BbsFfi.Success BbsFfi.Steps BbsFfi.Transparent

/-- Generated keys survive their encoding, and public keys have 96 bytes. -/
structure KeysDecode (Z : Zkryptium) : Prop where
  secretKey : ∀ {seed keys}, Z.keyPairRandom seed = .ok keys →
    Z.secretKeyFromBytes (Z.secretKeyToBytes keys.1) = .ok keys.1
  publicKey : ∀ {seed keys}, Z.keyPairRandom seed = .ok keys →
    Z.publicKeyFromBytes (Z.publicKeyToBytes keys.2) = .ok keys.2
  publicKey_length : ∀ {seed keys}, Z.keyPairRandom seed = .ok keys →
    (Z.publicKeyToBytes keys.2).length = 96

/-- What is assumed of the backend: its own outputs decode, signatures are 80
bytes and proofs are not empty, and signing and proving are complete when given
the same values. -/
structure PlainScheme (Z : Zkryptium) : Prop extends KeysDecode Z where
  signature : ∀ {seed messages sk pk header sig}, Z.sign seed messages sk pk header = .ok sig →
    ∀ arr : U8Array 80, arr.val = Z.signatureToBytes sig → Z.signatureFromBytes arr = .ok sig
  signature_length : ∀ {seed messages sk pk header sig},
    Z.sign seed messages sk pk header = .ok sig → (Z.signatureToBytes sig).length = 80
  proof : ∀ {seed pk sig header ph messages indices pok},
    Z.proofGen seed pk sig header ph messages indices = .ok pok →
      Z.pokSignatureFromBytes (Z.pokSignatureToBytes pok) = .ok pok
  proof_ne_nil : ∀ {seed pk sig header ph messages indices pok},
    Z.proofGen seed pk sig header ph messages indices = .ok pok → Z.pokSignatureToBytes pok ≠ []
  sign_verify : ∀ {keySeed keys seed messages header sig}, Z.keyPairRandom keySeed = .ok keys →
    Z.sign seed (some messages) keys.1 keys.2 (some header) = .ok sig →
      Z.verify sig keys.2 (some messages) (some header) = .ok ()
  prove_verify : ∀ {keySeed keys seed messages header sig proofSeed ph indices pok},
    Z.keyPairRandom keySeed = .ok keys →
    Z.sign seed (some messages) keys.1 keys.2 (some header) = .ok sig →
    indices.Pairwise (· < ·) → (∀ i ∈ indices, i < messages.length) →
    Z.proofGen proofSeed keys.2 (Z.signatureToBytes sig) (some header) (some ph) (some messages)
      (some indices) = .ok pok →
    Z.proofVerify pok keys.2 (some (disclosed messages indices)) (some indices) (some header)
      (some ph) = .ok ()

theorem pairwise_asUsize {indices : List UInt32} (h : indices.Pairwise (· < ·)) :
    (asUsize indices).Pairwise (· < ·) :=
  List.pairwise_map.mpr (h.imp UInt32.lt_iff_toNat_lt.mp)

theorem asUsize_lt {indices : List UInt32} {n : Nat} (h : ∀ i ∈ indices, i.toNat < n) :
    ∀ i ∈ asUsize indices, i < n := by
  intro i hi
  obtain ⟨j, hj, rfl⟩ := List.mem_map.mp hi
  exact h j hj

variable {Z : Zkryptium}

/-- The keys behind generated key bytes. -/
theorem keys_of_done {seed : Z.Seed} {sk pk : Bytes}
    (h : Done (.generateKeypair seed) [sk, pk]) :
    ∃ keys, Z.keyPairRandom seed = .ok keys ∧ Z.secretKeyToBytes keys.1 = sk ∧
      Z.publicKeyToBytes keys.2 = pk := by
  obtain ⟨kp, hkp, heq⟩ := map_eq_ok.mp h.eval
  obtain ⟨keys, hkeys, rfl⟩ := bbsGenerateKeypair_eq_ok.mp hkp
  cases heq
  exact ⟨keys, hkeys, rfl, rfl⟩

theorem KeysDecode.publicKey_ne_nil (hZ : KeysDecode Z) {seed : Z.Seed}
    {keys : Z.SecretKey × Z.PublicKey} (h : Z.keyPairRandom seed = .ok keys) :
    Z.publicKeyToBytes keys.2 ≠ [] :=
  List.ne_nil_of_length_eq_add_one (hZ.publicKey_length h)

/-- The signature behind signature bytes. -/
theorem sig_of_done (hZ : KeysDecode Z) {keySeed seed : Z.Seed}
    {keys : Z.SecretKey × Z.PublicKey} (hkeys : Z.keyPairRandom keySeed = .ok keys)
    {header sig : Bytes} {messages : List Bytes}
    (h : Done (.sign seed (Z.secretKeyToBytes keys.1) (Z.publicKeyToBytes keys.2) header messages)
      [sig]) :
    ∃ signature, Z.sign seed (some messages) keys.1 keys.2 (some header) = .ok signature ∧
      Z.signatureToBytes signature = sig := by
  obtain ⟨out, hsign, heq⟩ := map_eq_ok.mp h.eval
  cases heq
  obtain ⟨sk, hsk, pk, hpk, signature, hsig, hout⟩ := bbsSign_eq_ok.mp hsign
  cases (hZ.secretKey hkeys).symm.trans hsk
  cases (hZ.publicKey hkeys).symm.trans hpk
  exact ⟨signature, hsig, hout⟩

theorem verify_accepted (hZ : PlainScheme Z) {keySeed seed : Z.Seed}
    {keys : Z.SecretKey × Z.PublicKey} (hkeys : Z.keyPairRandom keySeed = .ok keys)
    {header : Bytes} {messages : List Bytes} {signature : Z.Signature}
    (hsig : Z.sign seed (some messages) keys.1 keys.2 (some header) = .ok signature) :
    Accepted Z (.verify (Z.publicKeyToBytes keys.2) header (Z.signatureToBytes signature)
      messages) := by
  have hlen := hZ.signature_length hsig
  refine Accepted.of_eval (bbsVerify_eq_ok.mpr ⟨keys.2, hZ.publicKey hkeys,
    ⟨Z.signatureToBytes signature, hlen⟩, rfl, signature, hZ.signature hsig _ rfl, ?_⟩) ?_
  · simpa using hZ.sign_verify hkeys hsig
  · simp [Check.guarded, hZ.publicKey_ne_nil hkeys, List.ne_nil_of_length_eq_add_one hlen]

theorem proof_accepted (hZ : PlainScheme Z) {keySeed seed proofSeed : Z.Seed}
    {keys : Z.SecretKey × Z.PublicKey} (hkeys : Z.keyPairRandom keySeed = .ok keys)
    {header ph proof : Bytes} {messages : List Bytes} {signature : Z.Signature}
    (hsig : Z.sign seed (some messages) keys.1 keys.2 (some header) = .ok signature)
    {indices : List UInt32} (hasc : indices.Pairwise (· < ·))
    (hrange : ∀ i ∈ indices, i.toNat < messages.length)
    (h : Done (.proofGen proofSeed (Z.publicKeyToBytes keys.2) (Z.signatureToBytes signature)
      header ph messages indices) [proof]) :
    Accepted Z (.proofVerify (Z.publicKeyToBytes keys.2) proof header ph
      (disclosed messages (asUsize indices)) indices) := by
  obtain ⟨out, hgen, heq⟩ := map_eq_ok.mp h.eval
  cases heq
  obtain ⟨pk, hpk, pok, hpok, rfl⟩ := bbsProofGen_eq_ok.mp hgen
  cases (hZ.publicKey hkeys).symm.trans hpk
  refine Accepted.of_eval (bbsProofVerify_eq_ok.mpr ⟨keys.2, hpk, pok, hZ.proof hpok, ?_⟩) ?_
  · simpa using hZ.prove_verify hkeys hsig (pairwise_asUsize hasc) (asUsize_lt hrange) hpok
  · simp [Check.guarded, hZ.publicKey_ne_nil hkeys, hZ.proof_ne_nil hpok]

/-- **The plain protocol is complete.**  A signature made with generated keys
verifies, and so does a proof for every ascending choice of messages, each step
in Rust or in C.  C calls that describe the same values in different ways,
empty ones as null or not, end alike. -/
theorem plain_complete (hZ : PlainScheme Z) {keySeed signSeed : Z.Seed}
    {sk pk header sig : Bytes} {messages : List Bytes}
    (hkeys : Done (.generateKeypair keySeed) [sk, pk])
    (hsign : Done (.sign signSeed sk pk header messages) [sig]) :
    Accepted Z (.verify pk header sig messages) ∧
      (∀ (proofSeed : Z.Seed) ph (indices : List UInt32) proof, indices.Pairwise (· < ·) →
        (∀ i ∈ indices, i.toNat < messages.length) →
        Done (.proofGen proofSeed pk sig header ph messages indices) [proof] →
        Accepted Z (.proofVerify pk proof header ph (disclosed messages (asUsize indices))
          indices)) ∧
      (∀ t (c c' : ProducingCall Z), c.operation = c'.operation →
        (∀ out ∈ c.outs, out ≠ none) → c.outs.Nodup →
        (∀ out ∈ c'.outs, out ≠ none) → c'.outs.Nodup → Alike t c c') ∧
      (∀ t (c c' : VerifyingCall Z) slot slot' w w', c.check = c'.check →
        c.validOut = some slot → c'.validOut = some slot' →
        ∃ code w₁ w₂, c.run t w = .ok (code, w₁) ∧ c'.run t w' = .ok (code, w₂) ∧
          w₁.ints slot = w₂.ints slot') := by
  obtain ⟨keys, hgen, rfl, rfl⟩ := keys_of_done hkeys
  obtain ⟨signature, hsig, rfl⟩ := sig_of_done hZ.toKeysDecode hgen hsign
  refine ⟨verify_accepted hZ hgen hsig, ?_, ?_, ?_⟩
  · intro proofSeed ph indices proof hasc hrange hproof
    exact proof_accepted hZ hgen hsig hasc hrange hproof
  · intro t c c' h hnull hdistinct hnull' hdistinct'
    exact alike_of_operation_eq t h hnull hdistinct hnull' hdistinct'
  · intro t c c' slot slot' w w' h hslot hslot'
    exact alike_of_check_eq t h hslot hslot' w w'

/-! ## The transparent backend -/

theorem transparent_keysDecode : KeysDecode transparent where
  secretKey {_ keys} _ := gather_spread 31 keys.1
  publicKey {_ keys} _ := gather_spread 95 keys.2
  publicKey_length _ := spread_length 96 _

theorem transparent_plainScheme : PlainScheme transparent where
  toKeysDecode := transparent_keysDecode
  signature _ _ harr := gather_of_eq harr
  signature_length _ := spread_length 80 _
  proof {_ _ _ _ _ _ _ pok} _ := gather_spread 47 pok
  proof_ne_nil _ := spread_ne_nil 47 _
  sign_verify hkeys hsig := by
    cases hkeys
    cases hsig
    exact if_pos rfl
  prove_verify hkeys hsig _ _ hproof := by
    cases hkeys
    obtain ⟨_, _, hrest⟩ := bind_eq_ok.mp hproof
    obtain ⟨_, _, hpok⟩ := bind_eq_ok.mp hrest
    cases hpok
    exact if_pos rfl

/-- A signature over three messages, one empty, made in Rust with keys from C. -/
theorem plain_complete_three :
    Accepted transparent (.verify (spread 96 7) [9] (spread 80 22) [[1, 2], [], [3]]) ∧
      Accepted transparent
        (.proofVerify (spread 96 7) (spread 48 26) [9] [4] [[], [3]] [1, 2]) := by
  have hkeys : Done (Z := transparent) (.generateKeypair (7 : UInt8)) [spread 32 7, spread 96 7] :=
    .c (.bits64 false) (.generateKeypair (7 : UInt8) (fun _ => 5) (some 0) (some 1)) World.initial _
      rfl (by decide) (by decide) rfl rfl
  have hsign : Done (Z := transparent)
      (.sign (0 : UInt8) (spread 32 7) (spread 96 7) [9] [[1, 2], [], [3]]) [spread 80 22] :=
    .rust rfl
  have h := plain_complete transparent_plainScheme hkeys hsign
  refine ⟨h.1, h.2.1 (0 : UInt8) [4] [1, 2] (spread 48 26) ?_ ?_ (.rust rfl)⟩
  · decide
  · simp

end BbsFfi.PlainProtocol
