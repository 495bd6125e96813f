import Mathlib.Data.UInt
import BbsFfi.Backend

/-!
# A transparent backend

A small executable instance of `Zkryptium`, without any security: secrets,
keys, signatures and proofs are single bytes, serialised by repetition, and a
signature or proof is the sum of all it covers.
Its honest runs go as those of the real backend, which is what the assumptions
made about the backend elsewhere speak of; they are therefore satisfiable.
-/

namespace BbsFfi.Transparent

open BbsFfi.Rust BbsFfi.Backend

/-- `size` copies of one byte. -/
def spread (size : Nat) (k : UInt8) : Bytes := List.replicate size k

/-- Inverse of `spread` on its image. -/
def gather (size : Nat) (b : Bytes) : Except String UInt8 :=
  match b with
  | [] => .error "empty"
  | k :: _ => if b = spread size k then .ok k else .error "malformed"

@[simp] theorem gather_spread (size : Nat) (k : UInt8) :
    gather (size + 1) (spread (size + 1) k) = .ok k := by
  simp [gather, spread, List.replicate_succ]

@[simp] theorem spread_length (size : Nat) (k : UInt8) : (spread size k).length = size := by
  simp [spread]

theorem gather_of_eq {size : Nat} {b : Bytes} {k : UInt8} (h : b = spread (size + 1) k) :
    gather (size + 1) b = .ok k := by
  rw [h, gather_spread]

theorem spread_ne_nil (size : Nat) (k : UInt8) : spread (size + 1) k ≠ [] :=
  List.ne_nil_of_length_eq_add_one (spread_length (size + 1) k)

def digest (b : Bytes) : UInt8 := b.sum

def digestAll (messages : List Bytes) : UInt8 := (messages.map digest).sum

def digestIndices (indices : List Nat) : UInt8 := (indices.map UInt8.ofNat).sum

def check (ok : Prop) [Decidable ok] : Except String Unit :=
  if ok then .ok () else .error "rejected"

/-- What a plain signature by `key` covers. -/
def signed (key : UInt8) (header : Option Bytes) (messages : Option (List Bytes)) : UInt8 :=
  key + digest (header.getD []) + digestAll (messages.getD [])

/-- What a proof covers, apart from the pseudonym part. -/
def shown (key : UInt8) (header ph : Option Bytes) (messages : List Bytes)
    (indices : List Nat) : UInt8 :=
  key + digest (header.getD []) + digest (ph.getD []) + digestAll messages
    + digestIndices indices

def transparent : Zkryptium where
  Error := String
  debug e := e
  Seed := UInt8
  SecretKey := UInt8
  PublicKey := UInt8
  BBSplusSignature := UInt8
  Signature := UInt8
  BlindSignature := UInt8
  PoKSignature := UInt8
  Commitment := UInt8
  BlindFactor := UInt8
  PseudonymSecret := UInt8
  Pseudonym := UInt8 × Bytes
  keyPairRandom seed := .ok (seed, seed)
  secretKeyToBytes := spread 32
  secretKeyFromBytes := gather 32
  publicKeyToBytes := spread 96
  publicKeyFromBytes := gather 96
  bbsPlusSignatureFromBytes b := gather 80 b.val
  sign _ messages sk _ header := .ok (signed sk header messages)
  signatureToBytes := spread 80
  signatureFromBytes b := gather 80 b.val
  verify sig pk messages header := check (sig = signed pk header messages)
  proofGen _ pk signature header ph messages indices := do
    let sig ← gather 80 signature
    check (sig = signed pk header messages)
    return shown pk header ph (disclosed (messages.getD []) (indices.getD [])) (indices.getD [])
  pokSignatureToBytes := spread 48
  pokSignatureFromBytes := gather 48
  proofVerify pok pk disclosedMessages indices header ph :=
    check (pok = shown pk header ph (disclosedMessages.getD []) (indices.getD []))
  pseudonymSecretRandom seed := seed
  pseudonymSecretToBytes := spread 32
  pseudonymSecretFromBytes b := gather 32 b.val
  commitWithNym seed messages nym := .ok (nym.getD 0 + digestAll (messages.getD []) + seed, seed)
  commitmentToBytes := spread 112
  blindFactorToBytes := spread 32
  blindFactorFromBytes b := gather 32 b.val
  blindSignWithNym _ sk _ commitment header signerNym messages := do
    let c ← gather 112 (commitment.getD [])
    return signed sk header messages + (c + signerNym)
  blindSignatureToBytes := spread 80
  blindSignatureFromBytes b := gather 80 b.val
  verifyBlindSignWithNym sig pk header messages committed prover signer bf := do
    check (sig = signed pk header messages
      + (prover.getD 0 + digestAll (committed.getD []) + bf.getD 0 + signer.getD 0))
    return prover.getD 0 + signer.getD 0
  proofGenWithNym _ pk signature header ph nym scope messages committed indices cIndices bf := do
    let sig ← gather 80 signature
    check (sig = signed pk header messages + (nym + digestAll (committed.getD []) + bf.getD 0))
    return (shown pk header ph (disclosed (messages.getD []) (indices.getD [])) (indices.getD [])
      + (digestAll (disclosed (committed.getD []) (cIndices.getD []))
        + digestIndices (cIndices.getD []))
      + digest (nym :: scope) + UInt8.ofNat (messages.getD []).length, (nym, scope))
  pseudonymToBytes p := p.1 :: p.2
  pseudonymFromBytes
    | [] => .error "empty"
    | nym :: scope => .ok (nym, scope)
  proofVerifyWithNym pok pk header ph nym scope total disclosedMessages disclosedCommitted
      indices cIndices :=
    check (nym.2 = scope ∧ pok = shown pk header ph (disclosedMessages.getD []) (indices.getD [])
      + (digestAll (disclosedCommitted.getD []) + digestIndices (cIndices.getD []))
      + digest (nym.1 :: scope) + UInt8.ofNat (total.getD 0))

end BbsFfi.Transparent
