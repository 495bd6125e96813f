import BbsFfi.Backend
import BbsFfi.Library.PrefixCodes

/-!
# Parsing a credential (`parse_bbs_credential`)

A credential is an 80-byte signature followed by messages, each behind its
length as a big-endian `u32`.  `parseBbsCredential` is the code, on a target
that fixes the width of `usize`; `IsCredential` is the documented format.

* `parseLoopBody_end`, `_cut_length`, `_cut_data`, `_message`: the four things
  one turn of the message loop can do where its sums do not overflow;
* `parseBbsCredential_short`, `_rejected`, `_accepted`: the exits before the
  loop.
-/

namespace BbsFfi.Credential

open Loops PrefixCodes BbsFfi.Rust BbsFfi.Backend

/-! ## The code -/

/-- `SIG_LEN` -/
abbrev sigLen : Nat := 80

/-- The variables the message loop updates. -/
structure LoopState where
  messages : List Bytes
  offset : Nat
  deriving DecidableEq, Repr

/-- One turn of `while offset < credential_bytes.len() { .. }`. -/
def parseLoopBody (t : Target) (credentialBytes : Bytes) (s : LoopState) :
    Outcome Panic (Step LoopState (Except FfiError (List Bytes))) :=
  if s.offset < credentialBytes.length then do
    let lenEnd ← t.add s.offset 4
    if lenEnd > credentialBytes.length then
      return .done (.error (.CredentialParseFailed
        ("Truncated message length at offset " ++ toString s.offset)))
    else do
      let lenBytes ← slice credentialBytes s.offset (← t.add s.offset 4)
      let msgLen := t.ofU32 (u32FromBeBytes (← unwrap (tryInto 4 lenBytes)))
      let offset ← t.add s.offset 4
      let msgEnd ← t.add offset msgLen
      if msgEnd > credentialBytes.length then do
        let remain ← t.sub credentialBytes.length offset
        return .done (.error (.CredentialParseFailed
          ("Truncated message data at offset " ++ toString offset ++ ", need "
            ++ toString msgLen ++ " bytes but only " ++ toString remain ++ " remain")))
      else do
        let message ← slice credentialBytes offset (← t.add offset msgLen)
        let offset' ← t.add offset msgLen
        return .next { messages := s.messages ++ [message], offset := offset' }
  else
    return .done (.ok s.messages)

def parseBbsCredential (t : Target) (Z : Zkryptium) (credentialBytes : Bytes) :
    Outcome Panic (Except FfiError (List Bytes)) :=
  if credentialBytes.isEmpty then
    return .error (.CredentialParseFailed "Credential bytes are empty")
  else if credentialBytes.length < sigLen then
    return .error (.CredentialParseFailed
      ("Credential too short for BBS+ signature: need at least " ++ toString sigLen
        ++ " bytes, got " ++ toString credentialBytes.length))
  else do
    let prefixBytes ← slice credentialBytes 0 sigLen
    match tryInto sigLen prefixBytes with
    | .error _ =>
      return .error (.CredentialParseFailed "Failed to extract signature bytes")
    | .ok sigBytes =>
      match Z.bbsPlusSignatureFromBytes sigBytes with
      | .error e =>
        return .error (.CredentialParseFailed ("Invalid BBS+ signature: " ++ Z.debug e))
      | .ok _sig =>
        -- Every turn moves `offset` forward, so the length bounds the turns.
        iterate (parseLoopBody t credentialBytes) (credentialBytes.length + 1) ⟨[], sigLen⟩

/-! ## The format -/

/-- A message behind its length, as `u32` big-endian bytes. -/
def frame (message : Bytes) : Bytes := u32ToBeBytes message.length ++ message

theorem frame_length (message : Bytes) : (frame message).length = 4 + message.length := by
  simp [frame]

private theorem frame_prefix (a b x y : Bytes) (ha : a.length < 2 ^ 32) (hb : b.length < 2 ^ 32)
    (h : frame a ++ x = frame b ++ y) : a = b ∧ x = y := by
  simp only [frame, List.append_assoc] at h
  obtain ⟨hlen, hrest⟩ := List.append_inj h (by simp)
  exact List.append_inj hrest (u32ToBeBytes_inj ha hb hlen)

/-- The message framing as a prefix code on messages a `u32` can measure. -/
def framing : PrefixCode Bytes UInt8 where
  Dom message := message.length < 2 ^ 32
  enc := frame
  enc_ne_nil a _ h := by simpa [frame] using congrArg List.length h
  enc_prefix := frame_prefix

/-- The credential with signature bytes `sig` and messages `messages`. -/
def encodeCredential (sig : U8Array 80) (messages : List Bytes) : Bytes :=
  sig.val ++ framing.encodeAll messages

/-- `BBSplusSignature::from_bytes` takes these 80 bytes. -/
def Accepts (Z : Zkryptium) (sig : U8Array 80) : Prop :=
  ∃ s, Z.bbsPlusSignatureFromBytes sig = .ok s

/-- `b` is, as documented, an accepted signature followed by `messages`. -/
structure IsCredential (Z : Zkryptium) (b : Bytes) (messages : List Bytes) : Prop where
  sig : ∃ s, Accepts Z s ∧ b = encodeCredential s messages
  short : ∀ m ∈ messages, m.length < 2 ^ 32

/-! ## One turn of the loop -/

/-- What the loop can find at its offset: nothing, a cut length field, or a
length field and the bytes after it. -/
theorem rest_cases (rest : Bytes) :
    rest = [] ∨ (0 < rest.length ∧ rest.length < 4) ∨
      ∃ n body, n < 2 ^ 32 ∧ rest = u32ToBeBytes n ++ body := by
  by_cases h4 : 4 ≤ rest.length
  · have hlen : (rest.take 4).length = 4 := by simp [h4]
    refine Or.inr (Or.inr ⟨u32FromBeBytes ⟨rest.take 4, hlen⟩, rest.drop 4,
      u32FromBeBytes_lt _, ?_⟩)
    rw [u32ToBeBytes_fromBeBytes, List.take_append_drop]
  · cases rest with
    | nil => exact Or.inl rfl
    | cons b bs => exact Or.inr (Or.inl ⟨by simp, by omega⟩)

variable {t : Target} {b : Bytes} {s : LoopState}

theorem parseLoopBody_end (h : b.length ≤ s.offset) :
    parseLoopBody t b s = .returned (.done (.ok s.messages)) := by
  simp [parseLoopBody, Nat.not_lt.mpr h]

theorem parseLoopBody_cut_length (h : s.offset < b.length) (h' : b.length < s.offset + 4)
    (hfit : s.offset + 4 < 2 ^ t.bits) :
    parseLoopBody t b s = .returned (.done (.error (.CredentialParseFailed
      ("Truncated message length at offset " ++ toString s.offset)))) := by
  simp [parseLoopBody, h, h', Target.add_of_lt hfit]

/-- There is room for the length field. -/
theorem length_of_drop {n : Nat} {body : Bytes}
    (hrest : b.drop s.offset = u32ToBeBytes n ++ body) :
    b.length = s.offset + 4 + body.length := by
  have := congrArg List.length hrest
  simp only [List.length_drop, List.length_append, u32ToBeBytes_length] at this
  omega

/-- Up to the second bounds check: the length field is read. -/
theorem parseLoopBody_length {n : Nat} {body : Bytes} (hn : n < 2 ^ 32)
    (hbits : 32 ≤ t.bits) (hrest : b.drop s.offset = u32ToBeBytes n ++ body)
    (hfit : s.offset + 4 < 2 ^ t.bits) :
    parseLoopBody t b s = (do
      let msgEnd ← t.add (s.offset + 4) n
      if msgEnd > b.length then do
        let remain ← t.sub b.length (s.offset + 4)
        return .done (.error (.CredentialParseFailed
          ("Truncated message data at offset " ++ toString (s.offset + 4) ++ ", need "
            ++ toString n ++ " bytes but only " ++ toString remain ++ " remain")))
      else do
        let message ← slice b (s.offset + 4) (← t.add (s.offset + 4) n)
        let offset' ← t.add (s.offset + 4) n
        return .next { messages := s.messages ++ [message], offset := offset' }) := by
  have hlen := length_of_drop hrest
  have hcast : t.ofU32 n = n :=
    Target.ofU32_of_lt (Nat.lt_of_lt_of_le hn (Nat.pow_le_pow_right (by omega) hbits))
  have hread : (b.drop s.offset).take (s.offset + 4 - s.offset) = u32ToBeBytes n := by
    rw [hrest, Nat.add_sub_cancel_left]
    exact List.take_left' (u32ToBeBytes_length n)
  rw [parseLoopBody, if_pos (by omega : s.offset < b.length), Target.add_of_lt hfit]
  simp only [Outcome.returned_bind]
  rw [if_neg (by omega : ¬ s.offset + 4 > b.length),
    slice_of_le (by omega) (by omega : s.offset + 4 ≤ b.length), hread]
  simp only [Outcome.returned_bind, tryInto_of_length (u32ToBeBytes_length n), unwrap,
    u32FromBeBytes_toBeBytes hn, hcast]

theorem parseLoopBody_cut_data {n : Nat} {body : Bytes} (hn : n < 2 ^ 32)
    (hbits : 32 ≤ t.bits) (hrest : b.drop s.offset = u32ToBeBytes n ++ body)
    (hfit : s.offset + 4 + n < 2 ^ t.bits) (hcut : body.length < n) :
    parseLoopBody t b s = .returned (.done (.error (.CredentialParseFailed
      ("Truncated message data at offset " ++ toString (s.offset + 4) ++ ", need "
        ++ toString n ++ " bytes but only " ++ toString (b.length - (s.offset + 4))
        ++ " remain")))) := by
  have hlen := length_of_drop hrest
  rw [parseLoopBody_length hn hbits hrest (by omega), Target.add_of_lt hfit]
  simp only [Outcome.returned_bind]
  rw [if_pos (by omega : s.offset + 4 + n > b.length),
    Target.sub_of_le (by omega : s.offset + 4 ≤ b.length)]
  rfl

theorem parseLoopBody_message {n : Nat} {body : Bytes} (hn : n < 2 ^ 32)
    (hbits : 32 ≤ t.bits) (hrest : b.drop s.offset = u32ToBeBytes n ++ body)
    (hfit : s.offset + 4 + n < 2 ^ t.bits) (hfull : n ≤ body.length) :
    parseLoopBody t b s = .returned (.next
      { messages := s.messages ++ [body.take n], offset := s.offset + 4 + n }) := by
  have hlen := length_of_drop hrest
  have hbody : b.drop (s.offset + 4) = body := by
    rw [← List.drop_drop, hrest]
    exact List.drop_left' (u32ToBeBytes_length n)
  rw [parseLoopBody_length hn hbits hrest (by omega), Target.add_of_lt hfit]
  simp only [Outcome.returned_bind]
  rw [if_neg (by omega : ¬ s.offset + 4 + n > b.length),
    slice_of_le (by omega) (by omega : s.offset + 4 + n ≤ b.length), hbody,
    Nat.add_sub_cancel_left]
  rfl

/-! ## Before the loop -/

variable {Z : Zkryptium}

/-- Fewer bytes than a signature are refused, the empty input included. -/
theorem parseBbsCredential_short (h : b.length < 80) :
    ∃ msg, parseBbsCredential t Z b = .returned (.error (.CredentialParseFailed msg)) := by
  cases hb : b.isEmpty
  · exact ⟨_, by rw [parseBbsCredential, hb, if_neg Bool.false_ne_true,
      if_pos (show b.length < sigLen from h)]; rfl⟩
  · exact ⟨_, by rw [parseBbsCredential, hb, if_pos rfl]; rfl⟩

/-- The first 80 bytes of a long enough input. -/
def sigBytes (b : Bytes) (h : 80 ≤ b.length) : U8Array 80 := ⟨b.take 80, by simp [h]⟩

theorem parseBbsCredential_long (h : 80 ≤ b.length) :
    parseBbsCredential t Z b = match Z.bbsPlusSignatureFromBytes (sigBytes b h) with
      | .error e =>
        .returned (.error (.CredentialParseFailed ("Invalid BBS+ signature: " ++ Z.debug e)))
      | .ok _ => iterate (parseLoopBody t b) (b.length + 1) ⟨[], 80⟩ := by
  have hne : b.isEmpty = false := by
    rw [List.isEmpty_eq_false_iff]
    rintro rfl
    simp at h
  have hshort : ¬ b.length < sigLen := Nat.not_lt.mpr h
  rw [parseBbsCredential, hne, if_neg Bool.false_ne_true, if_neg hshort,
    slice_of_le (Nat.zero_le _) (show sigLen ≤ b.length from h)]
  have harr : tryInto sigLen (b.take sigLen) = .ok (sigBytes b h) :=
    tryInto_of_length (sigBytes b h).property
  simp only [Outcome.returned_bind, List.drop_zero, Nat.sub_zero, harr]
  rfl

theorem parseBbsCredential_rejected (h : 80 ≤ b.length) (hz : ¬ Accepts Z (sigBytes b h)) :
    ∃ msg, parseBbsCredential t Z b = .returned (.error (.CredentialParseFailed msg)) := by
  rw [parseBbsCredential_long h]
  cases hs : Z.bbsPlusSignatureFromBytes (sigBytes b h) with
  | error e => exact ⟨_, rfl⟩
  | ok s => exact absurd ⟨s, hs⟩ hz

theorem parseBbsCredential_accepted (h : 80 ≤ b.length) (hz : Accepts Z (sigBytes b h)) :
    parseBbsCredential t Z b = iterate (parseLoopBody t b) (b.length + 1) ⟨[], 80⟩ := by
  obtain ⟨s, hs⟩ := hz
  rw [parseBbsCredential_long h, hs]

/-- Two targets differ on an input at most by their message loops. -/
theorem parseBbsCredential_congr {t' : Target}
    (h : ∀ hlen : 80 ≤ b.length, Accepts Z (sigBytes b hlen) →
      iterate (parseLoopBody t b) (b.length + 1) ⟨[], 80⟩
        = iterate (parseLoopBody t' b) (b.length + 1) ⟨[], 80⟩) :
    parseBbsCredential t Z b = parseBbsCredential t' Z b := by
  by_cases hlen : 80 ≤ b.length
  · rw [parseBbsCredential_long hlen, parseBbsCredential_long hlen]
    cases hs : Z.bbsPlusSignatureFromBytes (sigBytes b hlen) with
    | error e => rfl
    | ok s => exact h hlen ⟨s, hs⟩
  · have hshort : b.length < sigLen := Nat.lt_of_not_le hlen
    simp only [parseBbsCredential, if_pos hshort]

/-- Behind a signature the parser finds this signature. -/
theorem sigBytes_of_append {sig : U8Array 80} {tail : Bytes} (hb : b = sig.val ++ tail)
    (h : 80 ≤ b.length) : sigBytes b h = sig := by
  subst hb
  exact Subtype.ext (List.take_left' sig.property)

end BbsFfi.Credential
