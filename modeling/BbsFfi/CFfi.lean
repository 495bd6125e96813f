import BbsFfi.Memory
import BbsFfi.Operations

/-!
# The C functions (`c_ffi.rs`)

Pointers and lengths are separate parameters, in the order of the source.  The
functions with `BbsBuffer` outputs are instances of `produce`, except for the
blind signer, which has its guards in two places; the three with an `i32`
verdict are instances of `verdict`.  Both look at the outputs, then at the
mandatory parameters, and then make the marshalled call.  `seed` is the randomness the
backend draws, `spare` the capacity the returned `Vec`s have beyond their
length.
-/

namespace BbsFfi.CFfi

open BbsFfi.Rust BbsFfi.Backend BbsFfi.Operations BbsFfi.Memory

/-- Result codes for C FFI operations. -/
inductive BbsFfiResult where
  | Ok
  | KeygenFailed
  | SignFailed
  | VerifyFailed
  | InvalidInput
  | ProofGenFailed
  | ProofVerifyFailed
  | CommitmentFailed
  deriving DecidableEq, Repr

/-! ## Helpers -/

/-- `p.is_null() || p_len == 0` -/
def isMissing (p : ConstPtr UInt8) (len : Nat) : Bool := p.isNull || len == 0

/-- `slice::from_raw_parts(p, len).to_vec()` on bytes -/
def sliceToVec (p : ConstPtr UInt8) (len : Nat) : MarshalM Bytes := do
  let bytes ← fromRawParts p len
  temporary (bytesLayout len)
  return bytes

def readOptionalBytes (p : ConstPtr UInt8) (len : Nat) : MarshalM Bytes :=
  if p.isNull || len == 0 then return [] else sliceToVec p len

/-- The closure `collect_messages` maps over the array. -/
def collectMessage (m : BbsMessage) : MarshalM Bytes :=
  if m.data.isNull || m.len == 0 then return [] else sliceToVec m.data m.len

/-- The layout of a `Vec<Vec<u8>>`: a `Vec` is three words. -/
def vecsLayout (t : Target) (count : Nat) : Layout := ⟨3 * (t.bits / 8) * count, t.bits / 8⟩

def collectMessages (t : Target) (msgs : ConstPtr BbsMessage) (count : Nat) :
    MarshalM (List Bytes) :=
  if msgs.isNull || count == 0 then return []
  else do
    let msgSlice ← fromRawParts msgs count
    temporary (vecsLayout t count)
    msgSlice.mapM collectMessage

def collectU32Array (arr : ConstPtr UInt32) (count : Nat) : MarshalM (List UInt32) :=
  if arr.isNull || count == 0 then return []
  else do
    let indices ← fromRawParts arr count
    temporary ⟨4 * count, 4⟩
    return indices

/-! ## The common shapes -/

/-- `*out = BbsBuffer::null();` on every output. -/
def writeNulls : List MutPtr → FfiM Unit
  | [] => return ()
  | out :: outs => do
    writeBuffer out BbsBuffer.null
    writeNulls outs

/-- `*out = BbsBuffer::from_vec(v);` on every output, in order. -/
def writeVecs (spare : Nat → Nat) : List (MutPtr × Bytes) → FfiM Unit
  | [] => return ()
  | (out, bytes) :: writes => do
    let v ← newVec bytes (spare 0)
    writeBuffer out (BbsBuffer.fromVec v)
    writeVecs (fun i => spare (i + 1)) writes

/-- The wrapped call and what becomes of its result. -/
def handOver {ρ : Type} (spare : Nat → Nat) (outs : List MutPtr)
    (call : MarshalM (Except FfiError ρ)) (writes : ρ → List (MutPtr × Bytes))
    (failed : BbsFfiResult) : FfiM BbsFfiResult := do
  match ← callee call with
  | .ok result => do
    writeVecs spare (writes result)
    return .Ok
  | .error _ => do
    writeNulls outs
    return failed

/-- A function with buffer outputs.  A null output ends it before any write. -/
def produce {ρ : Type} (spare : Nat → Nat) (outs : List MutPtr) (missing : Bool)
    (call : MarshalM (Except FfiError ρ)) (writes : ρ → List (MutPtr × Bytes))
    (failed : BbsFfiResult) : FfiM BbsFfiResult :=
  if outs.any Option.isNone then return .InvalidInput
  else if missing then do
    writeNulls outs
    return .InvalidInput
  else handOver spare outs call writes failed

/-- A function with a verdict in `valid_out`. -/
def verdict (validOut : MutPtr) (missing : Bool) (call : MarshalM (Except FfiError Bool))
    (failed : BbsFfiResult) : FfiM BbsFfiResult :=
  if validOut.isNone then return .InvalidInput
  else if missing then do
    writeInt validOut 0
    return .InvalidInput
  else do
    match ← callee call with
    | .ok valid => do
      writeInt validOut (if valid then 1 else 0)
      return .Ok
    | .error _ => do
      writeInt validOut 0
      return failed

variable (t : Target) (Z : Zkryptium)

/-! ## Keys, signatures and selective disclosure proofs -/

def bbsFfiGenerateKeypair (seed : Z.Seed) (spare : Nat → Nat) (skOut pkOut : MutPtr) :
    FfiM BbsFfiResult :=
  produce spare [skOut, pkOut] false
    (return bbsGenerateKeypair Z seed)
    (fun kp => [(skOut, kp.secretKey), (pkOut, kp.publicKey)]) .KeygenFailed

def bbsFfiSign (seed : Z.Seed) (spare : Nat → Nat) (sk : ConstPtr UInt8) (skLen : Nat)
    (pk : ConstPtr UInt8) (pkLen : Nat) (header : ConstPtr UInt8) (headerLen : Nat)
    (msgs : ConstPtr BbsMessage) (msgsCount : Nat) (sigOut : MutPtr) : FfiM BbsFfiResult :=
  produce spare [sigOut] (isMissing sk skLen || isMissing pk pkLen)
    (do
      let skBytes ← sliceToVec sk skLen
      let pkBytes ← sliceToVec pk pkLen
      let headerBytes ← readOptionalBytes header headerLen
      let messages ← collectMessages t msgs msgsCount
      return bbsSign Z seed skBytes pkBytes headerBytes messages)
    (fun sig => [(sigOut, sig)]) .SignFailed

def bbsFfiVerify (pk : ConstPtr UInt8) (pkLen : Nat) (header : ConstPtr UInt8)
    (headerLen : Nat) (sig : ConstPtr UInt8) (sigLen : Nat) (msgs : ConstPtr BbsMessage)
    (msgsCount : Nat) (validOut : MutPtr) : FfiM BbsFfiResult :=
  verdict validOut (isMissing pk pkLen || isMissing sig sigLen)
    (do
      let pkBytes ← sliceToVec pk pkLen
      let headerBytes ← readOptionalBytes header headerLen
      let sigBytes ← sliceToVec sig sigLen
      let messages ← collectMessages t msgs msgsCount
      return bbsVerify Z pkBytes headerBytes sigBytes messages)
    .VerifyFailed

def bbsFfiProofGen (seed : Z.Seed) (spare : Nat → Nat) (pk : ConstPtr UInt8) (pkLen : Nat)
    (sig : ConstPtr UInt8) (sigLen : Nat) (header : ConstPtr UInt8) (headerLen : Nat)
    (ph : ConstPtr UInt8) (phLen : Nat) (msgs : ConstPtr BbsMessage) (msgsCount : Nat)
    (disclosedIndices : ConstPtr UInt32) (disclosedCount : Nat) (proofOut : MutPtr) :
    FfiM BbsFfiResult :=
  produce spare [proofOut] (isMissing pk pkLen || isMissing sig sigLen)
    (do
      let pkBytes ← sliceToVec pk pkLen
      let sigBytes ← sliceToVec sig sigLen
      let headerBytes ← readOptionalBytes header headerLen
      let phBytes ← readOptionalBytes ph phLen
      let messages ← collectMessages t msgs msgsCount
      let indices ← collectU32Array disclosedIndices disclosedCount
      return bbsProofGen Z seed pkBytes sigBytes headerBytes phBytes messages indices)
    (fun proof => [(proofOut, proof)]) .ProofGenFailed

def bbsFfiProofVerify (pk : ConstPtr UInt8) (pkLen : Nat) (proof : ConstPtr UInt8)
    (proofLen : Nat) (header : ConstPtr UInt8) (headerLen : Nat) (ph : ConstPtr UInt8)
    (phLen : Nat) (disclosedMsgs : ConstPtr BbsMessage) (disclosedMsgsCount : Nat)
    (disclosedIndices : ConstPtr UInt32) (disclosedCount : Nat) (validOut : MutPtr) :
    FfiM BbsFfiResult :=
  verdict validOut (isMissing pk pkLen || isMissing proof proofLen)
    (do
      let pkBytes ← sliceToVec pk pkLen
      let proofBytes ← sliceToVec proof proofLen
      let headerBytes ← readOptionalBytes header headerLen
      let phBytes ← readOptionalBytes ph phLen
      let discMessages ← collectMessages t disclosedMsgs disclosedMsgsCount
      let indices ← collectU32Array disclosedIndices disclosedCount
      return bbsProofVerify Z pkBytes proofBytes headerBytes phBytes discMessages indices)
    .ProofVerifyFailed

/-! ## Blind signing with pseudonyms -/

def bbsFfiGenerateNymSecret (seed : Z.Seed) (spare : Nat → Nat) (secretOut : MutPtr) :
    FfiM BbsFfiResult :=
  produce spare [secretOut] false
    (return bbsGenerateNymSecret Z seed)
    (fun secret => [(secretOut, secret)]) .KeygenFailed

def bbsFfiCommitWithNym (seed : Z.Seed) (spare : Nat → Nat)
    (committedMsgs : ConstPtr BbsMessage) (committedMsgsCount : Nat)
    (proverNym : ConstPtr UInt8) (proverNymLen : Nat)
    (commitmentOut blindFactorOut : MutPtr) : FfiM BbsFfiResult :=
  produce spare [commitmentOut, blindFactorOut] (isMissing proverNym proverNymLen)
    (do
      let committedMessages ← collectMessages t committedMsgs committedMsgsCount
      let nymBytes ← sliceToVec proverNym proverNymLen
      return bbsCommitWithNym Z seed committedMessages nymBytes)
    (fun result =>
      [(commitmentOut, result.commitmentWithProof), (blindFactorOut, result.blindFactor)])
    .CommitmentFailed

def bbsFfiBlindSignWithNym (seed : Z.Seed) (spare : Nat → Nat) (sk : ConstPtr UInt8)
    (skLen : Nat) (pk : ConstPtr UInt8) (pkLen : Nat) (commitment : ConstPtr UInt8)
    (commitmentLen : Nat) (header : ConstPtr UInt8) (headerLen : Nat)
    (signerNym : ConstPtr UInt8) (signerNymLen : Nat) (msgs : ConstPtr BbsMessage)
    (msgsCount : Nat) (sigOut : MutPtr) : FfiM BbsFfiResult :=
  if sigOut.isNone then return .InvalidInput
  else if isMissing sk skLen || isMissing pk pkLen then do
    writeNulls [sigOut]
    return .InvalidInput
  else if isMissing signerNym signerNymLen then do
    writeNulls [sigOut]
    return .InvalidInput
  else
    handOver spare [sigOut]
      (do
        let skBytes ← sliceToVec sk skLen
        let pkBytes ← sliceToVec pk pkLen
        let commitmentBytes ← readOptionalBytes commitment commitmentLen
        let headerBytes ← readOptionalBytes header headerLen
        let signerNymBytes ← sliceToVec signerNym signerNymLen
        let messages ← collectMessages t msgs msgsCount
        return bbsBlindSignWithNym Z seed skBytes pkBytes commitmentBytes headerBytes
          signerNymBytes messages)
      (fun sig => [(sigOut, sig)]) .SignFailed

def bbsFfiVerifyBlindSignWithNym (spare : Nat → Nat) (pk : ConstPtr UInt8) (pkLen : Nat)
    (blindSig : ConstPtr UInt8) (blindSigLen : Nat) (header : ConstPtr UInt8)
    (headerLen : Nat) (msgs : ConstPtr BbsMessage) (msgsCount : Nat)
    (committedMsgs : ConstPtr BbsMessage) (committedMsgsCount : Nat)
    (proverNym : ConstPtr UInt8) (proverNymLen : Nat) (signerNym : ConstPtr UInt8)
    (signerNymLen : Nat) (blindFactor : ConstPtr UInt8) (blindFactorLen : Nat)
    (nymSecretOut : MutPtr) : FfiM BbsFfiResult :=
  produce spare [nymSecretOut]
    (isMissing pk pkLen || isMissing blindSig blindSigLen || isMissing proverNym proverNymLen
      || isMissing signerNym signerNymLen || isMissing blindFactor blindFactorLen)
    (do
      let pkBytes ← sliceToVec pk pkLen
      let sigBytes ← sliceToVec blindSig blindSigLen
      let headerBytes ← readOptionalBytes header headerLen
      let messages ← collectMessages t msgs msgsCount
      let committedMessages ← collectMessages t committedMsgs committedMsgsCount
      let proverNymBytes ← sliceToVec proverNym proverNymLen
      let signerNymBytes ← sliceToVec signerNym signerNymLen
      let blindFactorBytes ← sliceToVec blindFactor blindFactorLen
      return bbsVerifyBlindSignWithNym Z pkBytes sigBytes headerBytes messages
        committedMessages proverNymBytes signerNymBytes blindFactorBytes)
    (fun result => [(nymSecretOut, result.nymSecret)]) .VerifyFailed

def bbsFfiProofGenWithNym (seed : Z.Seed) (spare : Nat → Nat) (pk : ConstPtr UInt8)
    (pkLen : Nat) (sig : ConstPtr UInt8) (sigLen : Nat) (header : ConstPtr UInt8)
    (headerLen : Nat) (ph : ConstPtr UInt8) (phLen : Nat) (nymSecret : ConstPtr UInt8)
    (nymSecretLen : Nat) (scope : ConstPtr UInt8) (scopeLen : Nat)
    (msgs : ConstPtr BbsMessage) (msgsCount : Nat) (committedMsgs : ConstPtr BbsMessage)
    (committedMsgsCount : Nat) (disclosedIndices : ConstPtr UInt32) (disclosedCount : Nat)
    (disclosedCommitmentIndices : ConstPtr UInt32) (disclosedCommitmentCount : Nat)
    (blindFactor : ConstPtr UInt8) (blindFactorLen : Nat) (proofOut pseudonymOut : MutPtr) :
    FfiM BbsFfiResult :=
  produce spare [proofOut, pseudonymOut]
    (isMissing pk pkLen || isMissing sig sigLen || isMissing nymSecret nymSecretLen
      || isMissing scope scopeLen)
    (do
      let pkBytes ← sliceToVec pk pkLen
      let sigBytes ← sliceToVec sig sigLen
      let headerBytes ← readOptionalBytes header headerLen
      let phBytes ← readOptionalBytes ph phLen
      let nymBytes ← sliceToVec nymSecret nymSecretLen
      let scopeBytes ← sliceToVec scope scopeLen
      let messages ← collectMessages t msgs msgsCount
      let committedMessages ← collectMessages t committedMsgs committedMsgsCount
      let dIndices ← collectU32Array disclosedIndices disclosedCount
      let dcIndices ← collectU32Array disclosedCommitmentIndices disclosedCommitmentCount
      let bfBytes ← readOptionalBytes blindFactor blindFactorLen
      return bbsProofGenWithNym Z seed pkBytes sigBytes headerBytes phBytes nymBytes scopeBytes
        messages committedMessages dIndices dcIndices bfBytes)
    (fun result => [(proofOut, result.proof), (pseudonymOut, result.pseudonym)])
    .ProofGenFailed

def bbsFfiProofVerifyWithNym (pk : ConstPtr UInt8) (pkLen : Nat) (proof : ConstPtr UInt8)
    (proofLen : Nat) (pseudonym : ConstPtr UInt8) (pseudonymLen : Nat)
    (header : ConstPtr UInt8) (headerLen : Nat) (ph : ConstPtr UInt8) (phLen : Nat)
    (scope : ConstPtr UInt8) (scopeLen : Nat) (totalSignerMsgs : UInt32)
    (disclosedMsgs : ConstPtr BbsMessage) (disclosedMsgsCount : Nat)
    (disclosedCommittedMsgs : ConstPtr BbsMessage) (disclosedCommittedMsgsCount : Nat)
    (disclosedIndices : ConstPtr UInt32) (disclosedCount : Nat)
    (disclosedCommitmentIndices : ConstPtr UInt32) (disclosedCommitmentCount : Nat)
    (validOut : MutPtr) : FfiM BbsFfiResult :=
  verdict validOut
    (isMissing pk pkLen || isMissing proof proofLen || isMissing pseudonym pseudonymLen
      || isMissing scope scopeLen)
    (do
      let pkBytes ← sliceToVec pk pkLen
      let proofBytes ← sliceToVec proof proofLen
      let nymBytes ← sliceToVec pseudonym pseudonymLen
      let headerBytes ← readOptionalBytes header headerLen
      let phBytes ← readOptionalBytes ph phLen
      let scopeBytes ← sliceToVec scope scopeLen
      let discMessages ← collectMessages t disclosedMsgs disclosedMsgsCount
      let discCommittedMessages ←
        collectMessages t disclosedCommittedMsgs disclosedCommittedMsgsCount
      let dIndices ← collectU32Array disclosedIndices disclosedCount
      let dcIndices ← collectU32Array disclosedCommitmentIndices disclosedCommitmentCount
      return bbsProofVerifyWithNym Z pkBytes proofBytes nymBytes headerBytes phBytes scopeBytes
        totalSignerMsgs discMessages discCommittedMessages dIndices dcIndices)
    .ProofVerifyFailed

/-! ## Memory management -/

def bbsFfiFreeBuffer (buf : BbsBuffer) : FfiM Unit :=
  if buf.data ≠ .null ∧ buf.cap > 0 then do
    let v ← vecFromRawParts buf.data buf.len buf.cap
    dropVec v
  else return ()

/-- `granted` is the answer of the system allocator; a refusal is a null pointer. -/
def bbsFfiAlloc (granted : Bool) (len align : Nat) : FfiM DataPtr :=
  if len = 0 then return .null
  else
    match Layout.fromSizeAlign t len align with
    | none => return .null
    | some layout =>
      if granted then do
        let id ← alloc layout
        return .block id
      else return .null

def bbsFfiDealloc (p : DataPtr) (len align : Nat) : FfiM Unit :=
  if p = .null ∨ len = 0 then return ()
  else
    match Layout.fromSizeAlign t len align with
    | none => return ()
    | some layout => dealloc p layout

end BbsFfi.CFfi
