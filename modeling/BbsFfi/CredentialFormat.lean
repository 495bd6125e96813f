import BbsFfi.Credential
import BbsFfi.Transparent

/-!
# The parser accepts exactly the documented format

On 64 bits no sum in the parser overflows, so one turn of the loop reads one
frame (`LoopResult` is carried over it), and the whole parser decides
`IsCredential` (`parseBbsCredential_exact`).
-/

namespace BbsFfi.CredentialFormat

open Loops PrefixCodes BbsFfi.Rust BbsFfi.Backend BbsFfi.Credential BbsFfi.Transparent

/-- What the loop owes from state `s`: the messages whose frames are the rest
of the input, and a parse error when there are none. -/
structure LoopResult (b : Bytes) (s : LoopState) (r : Except FfiError (List Bytes)) : Prop where
  ok_iff : ∀ ms, r = .ok ms ↔
    ∃ ns, ms = s.messages ++ ns ∧ framing.DomAll ns ∧ b.drop s.offset = framing.encodeAll ns
  error : ∀ e, r = .error e → ∃ msg, e = .CredentialParseFailed msg

theorem loopResult_end {b : Bytes} {s : LoopState} (h : b.length ≤ s.offset) :
    LoopResult b s (.ok s.messages) where
  ok_iff ms := by
    rw [List.drop_eq_nil_of_le h]
    constructor
    · rintro ⟨⟩
      exact ⟨[], by simp, framing.domAll_nil, rfl⟩
    · rintro ⟨ns, rfl, hns, henc⟩
      have hnil := (framing.encodeAll_eq_nil hns).mp henc.symm
      simp [hnil]
  error e h := by cases h

theorem loopResult_error {b : Bytes} {s : LoopState} {msg : String}
    (h : ∀ ns, framing.DomAll ns → b.drop s.offset ≠ framing.encodeAll ns) :
    LoopResult b s (.error (.CredentialParseFailed msg)) where
  ok_iff ms := by
    constructor
    · intro h'
      cases h'
    · rintro ⟨ns, _, hns, henc⟩
      exact absurd henc (h ns hns)
  error e h' := by
    cases h'
    exact ⟨msg, rfl⟩

/-- Concatenated frames are empty or begin with a whole length field. -/
theorem encodeAll_length {ns : List Bytes} (h : framing.encodeAll ns ≠ []) :
    4 ≤ (framing.encodeAll ns).length := by
  cases ns with
  | nil => exact absurd rfl h
  | cons m ns =>
    have hm : (framing.enc m).length = 4 + m.length := frame_length m
    simp only [PrefixCode.encodeAll_cons, List.length_append, hm]
    omega

theorem length_le_encodeAll (ns : List Bytes) : ns.length ≤ (framing.encodeAll ns).length := by
  induction ns with
  | nil => simp
  | cons m ns ih =>
    have hm : (framing.enc m).length = 4 + m.length := frame_length m
    simp only [PrefixCode.encodeAll_cons, List.length_append, List.length_cons, hm]
    omega

/-- A length field that announces more than there is begins no frames. -/
theorem not_encodeAll_of_cut {n : Nat} {body : Bytes} (hn : n < 2 ^ 32) (hcut : body.length < n)
    (ns : List Bytes) (hns : framing.DomAll ns) :
    u32ToBeBytes n ++ body ≠ framing.encodeAll ns := by
  intro h
  cases ns with
  | nil => simpa using congrArg List.length h
  | cons m ns =>
    have hm : m.length < 2 ^ 32 := (framing.domAll_cons.mp hns).1
    have h' : u32ToBeBytes n ++ body
        = u32ToBeBytes m.length ++ (m ++ framing.encodeAll ns) := by
      rw [h, ← List.append_assoc]
      rfl
    obtain ⟨hlen, hbody⟩ := List.append_inj h' rfl
    have := u32ToBeBytes_inj hn hm hlen
    rw [hbody] at hcut
    simp only [List.length_append] at hcut
    omega

/-- One whole frame at the offset carries the result of the rest back. -/
theorem loopResult_frame {b : Bytes} {s s' : LoopState} {m : Bytes} (hm : m.length < 2 ^ 32)
    (hmsgs : s'.messages = s.messages ++ [m])
    (hrest : b.drop s.offset = frame m ++ b.drop s'.offset)
    {r : Except FfiError (List Bytes)} (h : LoopResult b s' r) : LoopResult b s r where
  ok_iff ms := by
    rw [h.ok_iff]
    constructor
    · rintro ⟨ns, rfl, hns, henc⟩
      exact ⟨m :: ns, by simp [hmsgs], framing.domAll_cons.mpr ⟨hm, hns⟩, by rw [hrest, henc]; rfl⟩
    · rintro ⟨ns, rfl, hns, henc⟩
      rw [hrest] at henc
      obtain ⟨ns', rfl, hns'⟩ := (framing.encodeAll_eq_enc_append hm hns).mp henc
      exact ⟨ns', by simp [hmsgs], (framing.domAll_cons.mp hns).2, hns'⟩
  error := h.error

/-- The bytes at the offset, once a length field with enough bytes is there. -/
theorem drop_eq_frame {b : Bytes} {offset n : Nat} {body : Bytes}
    (hrest : b.drop offset = u32ToBeBytes n ++ body) (hfull : n ≤ body.length) :
    b.drop offset = frame (body.take n) ++ b.drop (offset + 4 + n) := by
  have hbody : b.drop (offset + 4 + n) = body.drop n := by
    rw [← List.drop_drop, ← List.drop_drop, hrest, List.drop_left' (u32ToBeBytes_length n)]
  rw [hbody, frame, List.length_take_of_le hfull, List.append_assoc, List.take_append_drop, hrest]

/-- **The message loop**, on a target where the sums fit a `usize`. -/
theorem iterate_parseLoopBody {t : Target} (hbits : 32 ≤ t.bits) {b : Bytes}
    (hfit : b.length + 4 + 2 ^ 32 ≤ 2 ^ t.bits) (fuel : Nat) (s : LoopState)
    (hs : s.offset ≤ b.length) (hfuel : b.length - s.offset < fuel) :
    ∃ r, iterate (parseLoopBody t b) fuel s = .returned r ∧ LoopResult b s r := by
  refine iterate_total (fun s => s.offset ≤ b.length) (fun s => b.length - s.offset)
    (LoopResult b) ?_ fuel s hs hfuel
  intro s hs
  have hrestlen : (b.drop s.offset).length = b.length - s.offset := List.length_drop
  rcases rest_cases (b.drop s.offset) with hnil | ⟨hpos, hlt⟩ | ⟨n, body, hn, hrest⟩
  · have hend : b.length ≤ s.offset := List.drop_eq_nil_iff.mp hnil
    exact Or.inl ⟨_, parseLoopBody_end hend, loopResult_end hend⟩
  · refine Or.inl ⟨_, parseLoopBody_cut_length (by omega) (by omega) (by omega),
      loopResult_error ?_⟩
    intro ns _ henc
    rw [henc] at hpos hlt
    have := encodeAll_length (List.ne_nil_of_length_pos hpos)
    omega
  · have hlen : b.length = s.offset + 4 + body.length := by
      rw [hrest, List.length_append, u32ToBeBytes_length] at hrestlen
      omega
    by_cases hfull : n ≤ body.length
    · refine Or.inr ⟨_, parseLoopBody_message hn hbits hrest (by omega) hfull, ?_, ?_, ?_⟩
      · show s.offset + 4 + n ≤ b.length
        omega
      · show b.length - (s.offset + 4 + n) < b.length - s.offset
        omega
      · intro r hr
        exact loopResult_frame (by rw [List.length_take_of_le hfull]; exact hn) rfl
          (drop_eq_frame hrest hfull) hr
    · refine Or.inl ⟨_, parseLoopBody_cut_data hn hbits hrest (by omega) (by omega),
        loopResult_error ?_⟩
      intro ns hns
      rw [hrest]
      exact not_encodeAll_of_cut hn (by omega) ns hns

/-! ## Runs through message boundaries -/

/-- The loop state behind the signature and the frames of `done`. -/
def boundary (sig : U8Array 80) (done : List Bytes) : LoopState :=
  ⟨done, (encodeCredential sig done).length⟩

theorem boundary_nil (sig : U8Array 80) : boundary sig [] = ⟨[], 80⟩ := by
  simp [boundary, encodeCredential, sig.property]

theorem encodeCredential_append (sig : U8Array 80) (ms ns : List Bytes) :
    encodeCredential sig (ms ++ ns) = encodeCredential sig ms ++ framing.encodeAll ns := by
  simp [encodeCredential]

/-- One turn moves the loop over one frame. -/
theorem parseLoopBody_boundary {t : Target} (hbits : 32 ≤ t.bits) (sig : U8Array 80)
    (done : List Bytes) {m : Bytes} (tail : Bytes) (hm : m.length < 2 ^ 32)
    (hfit : (encodeCredential sig done).length + 4 + m.length < 2 ^ t.bits) :
    parseLoopBody t (encodeCredential sig done ++ frame m ++ tail) (boundary sig done)
      = .returned (.next (boundary sig (done ++ [m]))) := by
  have hrest : (encodeCredential sig done ++ frame m ++ tail).drop (boundary sig done).offset
      = u32ToBeBytes m.length ++ (m ++ tail) := by
    rw [List.append_assoc]
    simp [boundary, frame]
  have hnext : boundary sig (done ++ [m])
      = ⟨done ++ [m], (encodeCredential sig done).length + 4 + m.length⟩ := by
    have henc : framing.encodeAll [m] = frame m := by
      show frame m ++ [] = frame m
      exact List.append_nil _
    rw [boundary, encodeCredential_append, henc, List.length_append, frame_length, Nat.add_assoc]
  rw [parseLoopBody_message hm hbits hrest hfit (by simp), hnext, List.take_left' rfl]
  rfl

/-- **Every message boundary is passed.**  On a target that can hold the input,
a run over whole frames goes from boundary to boundary. -/
theorem reaches_boundary {t : Target} (hbits : 32 ≤ t.bits) (sig : U8Array 80)
    (done : List Bytes) {ms : List Bytes} (tail : Bytes) (hms : framing.DomAll ms)
    (hfit : (encodeCredential sig (done ++ ms)).length < 2 ^ t.bits) :
    Reaches (parseLoopBody t (encodeCredential sig (done ++ ms) ++ tail)) ms.length
      (boundary sig done) (boundary sig (done ++ ms)) := by
  induction ms generalizing done with
  | nil => simpa using Reaches.refl (boundary sig done)
  | cons m ms ih =>
    obtain ⟨hm, hms'⟩ := framing.domAll_cons.mp hms
    have hsplit : encodeCredential sig (done ++ m :: ms) ++ tail
        = encodeCredential sig done ++ frame m ++ (framing.encodeAll ms ++ tail) := by
      rw [encodeCredential_append]
      show _ ++ (frame m ++ framing.encodeAll ms) ++ tail = _
      simp only [List.append_assoc]
    have hlen : (encodeCredential sig (done ++ m :: ms)).length
        = (encodeCredential sig done).length + (4 + m.length) + (framing.encodeAll ms).length := by
      have := congrArg List.length hsplit
      simp only [List.length_append, frame_length] at this
      omega
    have hturn := parseLoopBody_boundary hbits sig done (framing.encodeAll ms ++ tail) hm
      (by omega)
    rw [← hsplit] at hturn
    have hgo := ih (done ++ [m]) hms' (by simpa using hfit)
    rw [List.append_assoc, List.singleton_append] at hgo
    exact Reaches.step hturn hgo

/-! ## The parser -/

/-- A credential is at least 80 bytes and shows its signature and its frames. -/
theorem isCredential_iff {Z : Zkryptium} {b : Bytes} (h : 80 ≤ b.length) {ms : List Bytes} :
    IsCredential Z b ms ↔ Accepts Z (sigBytes b h) ∧ framing.DomAll ms ∧
      b.drop 80 = framing.encodeAll ms := by
  constructor
  · rintro ⟨⟨sig, hsig, rfl⟩, hshort⟩
    have hbytes : sigBytes (encodeCredential sig ms) h = sig := sigBytes_of_append rfl h
    exact ⟨by rwa [hbytes], hshort, List.drop_left' sig.property⟩
  · rintro ⟨hacc, hdom, hdrop⟩
    refine ⟨⟨sigBytes b h, hacc, ?_⟩, hdom⟩
    rw [encodeCredential, ← hdrop]
    exact (List.take_append_drop 80 b).symm

theorem length_of_isCredential {Z : Zkryptium} {b : Bytes} {ms : List Bytes}
    (h : IsCredential Z b ms) : 80 ≤ b.length := by
  obtain ⟨sig, _, rfl⟩ := h.sig
  simp [encodeCredential, sig.property]

/-- The parser returns, and decides whether its input is a credential. -/
theorem parse_decides (checks : Bool) {Z : Zkryptium} {b : Bytes}
    (hb : b.length ≤ (Target.bits64 checks).isizeMax) :
    ∃ r, parseBbsCredential (Target.bits64 checks) Z b = .returned r ∧
      (∀ ms, r = .ok ms ↔ IsCredential Z b ms) ∧
      (∀ e, r = .error e → ∃ msg, e = .CredentialParseFailed msg) := by
  have hmax : (Target.bits64 checks).isizeMax = 2 ^ 63 - 1 := rfl
  have refused : (∀ ms, ¬ IsCredential Z b ms) →
      (∃ msg, parseBbsCredential (Target.bits64 checks) Z b
        = .returned (.error (.CredentialParseFailed msg))) →
      ∃ r, parseBbsCredential (Target.bits64 checks) Z b = .returned r ∧
        (∀ ms, r = .ok ms ↔ IsCredential Z b ms) ∧
        (∀ e, r = .error e → ∃ msg, e = .CredentialParseFailed msg) := by
    rintro hno ⟨msg, hp⟩
    exact ⟨_, hp, fun ms => ⟨nofun, fun h => absurd h (hno ms)⟩, fun e h => ⟨msg, by cases h; rfl⟩⟩
  by_cases hlen : 80 ≤ b.length
  · by_cases hacc : Accepts Z (sigBytes b hlen)
    · have hbits : (Target.bits64 checks).bits = 64 := rfl
      obtain ⟨r, hr, hres⟩ := iterate_parseLoopBody (t := Target.bits64 checks) (by omega)
        (by rw [hbits]; omega) (b.length + 1) ⟨[], 80⟩ hlen (by omega)
      refine ⟨r, by rw [parseBbsCredential_accepted hlen hacc, hr], fun ms => ?_, hres.error⟩
      rw [hres.ok_iff, isCredential_iff hlen]
      constructor
      · rintro ⟨ns, rfl, hdom, hdrop⟩
        exact ⟨hacc, hdom, hdrop⟩
      · rintro ⟨_, hdom, hdrop⟩
        exact ⟨ms, rfl, hdom, hdrop⟩
    · refine refused (fun ms h => hacc ?_) (parseBbsCredential_rejected hlen hacc)
      exact ((isCredential_iff hlen).mp h).1
  · refine refused (fun ms h => hlen ?_) (parseBbsCredential_short (by omega))
    exact length_of_isCredential h

/-- **The parser and the format.**  On 64 bits, in either build profile and for
every backend, the parser returns on every input a `Vec` can hold; it accepts
exactly the credentials, with their messages, and refuses everything else as a
parse failure.  So it inverts the encoding, and an accepted input is the
encoding of what was parsed. -/
theorem parseBbsCredential_exact (checks : Bool) (Z : Zkryptium) (b : Bytes)
    (hb : b.length ≤ (Target.bits64 checks).isizeMax) :
    ∃ r, parseBbsCredential (Target.bits64 checks) Z b = .returned r ∧
      (∀ ms, r = .ok ms ↔ IsCredential Z b ms) ∧
      ((∀ ms, ¬ IsCredential Z b ms) → ∃ msg, r = .error (.CredentialParseFailed msg)) ∧
      (∀ sig ms, Accepts Z sig → (∀ m ∈ ms, m.length < 2 ^ 32) →
        b = encodeCredential sig ms → r = .ok ms) ∧
      (∀ ms, r = .ok ms → b.take 80 ++ framing.encodeAll ms = b) := by
  obtain ⟨r, hr, hok, herr⟩ := parse_decides checks (Z := Z) hb
  refine ⟨r, hr, hok, fun hno => ?_, fun sig ms hacc hshort henc => ?_, fun ms hms => ?_⟩
  · cases r with
    | ok ms => exact absurd ((hok ms).mp rfl) (hno ms)
    | error e =>
      obtain ⟨msg, rfl⟩ := herr e rfl
      exact ⟨msg, rfl⟩
  · exact (hok ms).mpr ⟨⟨sig, hacc, henc⟩, hshort⟩
  · have hcred := (hok ms).mp hms
    have hdrop := ((isCredential_iff (length_of_isCredential hcred)).mp hcred).2.2
    rw [← hdrop, List.take_append_drop]

/-- A credential with an empty message among others parses to its messages. -/
theorem parseBbsCredential_exact_three :
    parseBbsCredential (Target.bits64 true) transparent
        (encodeCredential ⟨spread 80 7, rfl⟩ [[1, 2], [], [3]])
      = .returned (.ok [[1, 2], [], [3]]) := by
  obtain ⟨r, hr, _, _, henc, _⟩ := parseBbsCredential_exact true transparent
    (encodeCredential ⟨spread 80 7, rfl⟩ [[1, 2], [], [3]]) (by decide)
  rw [hr, henc _ _ ⟨(7 : UInt8), rfl⟩ (by decide) rfl]

end BbsFfi.CredentialFormat
