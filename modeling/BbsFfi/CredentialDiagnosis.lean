import BbsFfi.CredentialWordSize

/-!
# What the parser reports, on every target

`Diagnosis` lists what there is to say about an input: what it lacks, at which
byte, and by how much.  On every target the parser says exactly that
(`parse_diagnosis`), whatever the width of `usize` and the build profile.  The
target shows in one case only, a length field whose message would end behind the
address space; so what is parsed on one target is parsed alike on every other
one that does not panic (`parse_portable`).
-/

namespace BbsFfi.CredentialDiagnosis

open Loops BbsFfi.Rust BbsFfi.Backend BbsFfi.Credential BbsFfi.CredentialFormat
  BbsFfi.CredentialWordSize BbsFfi.Transparent

/-! ## The diagnosis -/

inductive Diagnosis (t : Target) (Z : Zkryptium) (b : Bytes) :
    Outcome Panic (Except FfiError (List Bytes)) → Prop
  | empty : b = [] →
      Diagnosis t Z b (.returned (.error (.CredentialParseFailed "Credential bytes are empty")))
  | short : b ≠ [] → b.length < 80 →
      Diagnosis t Z b (.returned (.error (.CredentialParseFailed
        ("Credential too short for BBS+ signature: need at least " ++ toString 80
          ++ " bytes, got " ++ toString b.length))))
  | signature (h : 80 ≤ b.length) (e : Z.Error) :
      Z.bbsPlusSignatureFromBytes (sigBytes b h) = .error e →
      Diagnosis t Z b (.returned (.error (.CredentialParseFailed
        ("Invalid BBS+ signature: " ++ Z.debug e))))
  | credential (ms : List Bytes) : IsCredential Z b ms → Diagnosis t Z b (.returned (.ok ms))
  | cutLength (sig : U8Array 80) (ms : List Bytes) (rest : Bytes) : Accepts Z sig →
      framing.DomAll ms → b = encodeCredential sig ms ++ rest → 0 < rest.length →
      rest.length < 4 →
      Diagnosis t Z b (.returned (.error (.CredentialParseFailed
        ("Truncated message length at offset " ++ toString (encodeCredential sig ms).length))))
  | cutData (sig : U8Array 80) (ms : List Bytes) (n : Nat) (body : Bytes) : Accepts Z sig →
      framing.DomAll ms → n < 2 ^ 32 → b = encodeCredential sig ms ++ (u32ToBeBytes n ++ body) →
      body.length < n → (encodeCredential sig ms).length + 4 + n < 2 ^ t.bits →
      Diagnosis t Z b (.returned (.error (.CredentialParseFailed
        ("Truncated message data at offset " ++ toString ((encodeCredential sig ms).length + 4)
          ++ ", need " ++ toString n ++ " bytes but only " ++ toString body.length
          ++ " remain"))))
  | overflow (sig : U8Array 80) (ms : List Bytes) (n : Nat) (body : Bytes) : Accepts Z sig →
      framing.DomAll ms → n < 2 ^ 32 → b = encodeCredential sig ms ++ (u32ToBeBytes n ++ body) →
      2 ^ t.bits ≤ (encodeCredential sig ms).length + 4 + n →
      Diagnosis t Z b (.panicked (overflowPanic t))

variable {t : Target} {Z : Zkryptium} {b : Bytes}

/-! ## The parser says it -/

theorem parse_of_diagnosis (hbits : 32 ≤ t.bits) (hb : b.length ≤ t.isizeMax)
    {o : Outcome Panic (Except FfiError (List Bytes))} (h : Diagnosis t Z b o) :
    parseBbsCredential t Z b = o := by
  have hroom := isizeMax_add_lt hbits
  cases h with
  | empty hnil =>
    subst hnil
    rfl
  | short hne hshort =>
    have hempty : b.isEmpty = false := List.isEmpty_eq_false_iff.mpr hne
    rw [parseBbsCredential, hempty, if_neg Bool.false_ne_true,
      if_pos (show b.length < sigLen from hshort)]
    rfl
  | signature hlen e he => rw [parseBbsCredential_long hlen, he]
  | credential ms hcred =>
    obtain ⟨⟨sig, hacc, hsplit⟩, hms⟩ := hcred
    rw [← List.append_nil (encodeCredential sig ms)] at hsplit
    obtain ⟨fuel, hparse⟩ := parse_at_boundary hbits hb hacc hms hsplit
    have hend : b.length ≤ (boundary sig ms).offset :=
      List.drop_eq_nil_iff.mp (drop_boundary hsplit)
    rw [hparse, iterate_done (parseLoopBody_end hend)]
    rfl
  | cutLength sig ms rest hacc hms hsplit hpos hcut =>
    obtain ⟨fuel, hparse⟩ := parse_at_boundary hbits hb hacc hms hsplit
    have hlen : b.length = (boundary sig ms).offset + rest.length := by
      rw [hsplit, List.length_append]
      rfl
    rw [hparse, iterate_done (parseLoopBody_cut_length (by omega) (by omega) (by omega))]
    rfl
  | cutData sig ms n body hacc hms hn hsplit hcut hfit =>
    obtain ⟨fuel, hparse⟩ := parse_at_boundary hbits hb hacc hms hsplit
    have hlen : b.length = (boundary sig ms).offset + (4 + body.length) := by
      rw [hsplit, List.length_append, List.length_append]
      rfl
    have hremain : b.length - ((boundary sig ms).offset + 4) = body.length := by omega
    rw [hparse, iterate_done (parseLoopBody_cut_data hn hbits (drop_boundary hsplit) hfit hcut),
      hremain]
    rfl
  | overflow sig ms n body hacc hms hn hsplit hover =>
    exact parse_panics hbits hb hacc hms hn hsplit hover

/-- Behind an accepted signature the frames run up to something the parser
has a word for. -/
theorem diagnosis_behind (hlen : 80 ≤ b.length) (hacc : Accepts Z (sigBytes b hlen)) :
    ∃ o, Diagnosis t Z b o := by
  obtain ⟨ms, rest, hms, hstuck, hrest⟩ := framing.exists_stuck (b.drop 80)
  have hsplit : b = encodeCredential (sigBytes b hlen) ms ++ rest := by
    rw [encodeCredential, List.append_assoc, ← hrest]
    exact (List.take_append_drop 80 b).symm
  rcases rest_cases rest with rfl | ⟨hpos, hlt⟩ | ⟨n, body, hn, rfl⟩
  · rw [List.append_nil] at hsplit
    exact ⟨_, .credential ms ⟨⟨_, hacc, hsplit⟩, hms⟩⟩
  · exact ⟨_, .cutLength _ ms rest hacc hms hsplit hpos hlt⟩
  · have hcut : body.length < n := by
      by_contra hfull
      have htake : (body.take n).length = n := List.length_take_of_le (by omega)
      have hdom : (body.take n).length < 2 ^ 32 := by omega
      refine hstuck (body.take n) (body.drop n) hdom ?_
      show u32ToBeBytes n ++ body = frame (body.take n) ++ body.drop n
      rw [frame, htake, List.append_assoc, List.take_append_drop]
    by_cases hfit : (encodeCredential (sigBytes b hlen) ms).length + 4 + n < 2 ^ t.bits
    · exact ⟨_, .cutData _ ms n body hacc hms hn hsplit hcut hfit⟩
    · exact ⟨_, .overflow _ ms n body hacc hms hn hsplit (by omega)⟩

theorem diagnosis_total (t : Target) (Z : Zkryptium) (b : Bytes) : ∃ o, Diagnosis t Z b o := by
  by_cases hnil : b = []
  · exact ⟨_, .empty hnil⟩
  · by_cases hlen : 80 ≤ b.length
    · cases hs : Z.bbsPlusSignatureFromBytes (sigBytes b hlen) with
      | error e => exact ⟨_, .signature hlen e hs⟩
      | ok sig => exact diagnosis_behind hlen ⟨sig, hs⟩
    · exact ⟨_, .short hnil (by omega)⟩

/-- **The parser's reports are exact.**  On every target with at least 32 bits,
in either profile, the parser comes to `o` on an input a `Vec` can hold exactly
when `o` is the diagnosis: the list of messages, or the error with the offset,
the announced length and the number of bytes there are, or the panic where a
message would end behind the address space.  There is exactly one. -/
theorem parse_diagnosis (t : Target) (hbits : 32 ≤ t.bits) (Z : Zkryptium) (b : Bytes)
    (hb : b.length ≤ t.isizeMax) (o : Outcome Panic (Except FfiError (List Bytes))) :
    parseBbsCredential t Z b = o ↔ Diagnosis t Z b o := by
  constructor
  · rintro rfl
    obtain ⟨o, ho⟩ := diagnosis_total t Z b
    rwa [parse_of_diagnosis hbits hb ho]
  · exact parse_of_diagnosis hbits hb

/-- A message cut by one byte behind an empty one, in a checked 32-bit build. -/
theorem parse_diagnosis_cut :
    parseBbsCredential ⟨32, true⟩ transparent
        (encodeCredential ⟨spread 80 7, rfl⟩ [[]] ++ (u32ToBeBytes 3 ++ [1, 2]))
      = .returned (.error (.CredentialParseFailed
        ("Truncated message data at offset " ++ toString 88 ++ ", need " ++ toString 3
          ++ " bytes but only " ++ toString 2 ++ " remain"))) :=
  (parse_diagnosis ⟨32, true⟩ (Nat.le_refl 32) transparent _ (by decide) _).mpr
    (.cutData ⟨spread 80 7, rfl⟩ [[]] 3 [1, 2] ⟨(7 : UInt8), rfl⟩
      (framing.domAll_cons.mpr ⟨(by decide : 0 < 2 ^ 32), framing.domAll_nil⟩) (by decide) rfl
      (by decide) (by decide))

/-! ## From one target to another -/

theorem parse_ok_iff (hbits : 32 ≤ t.bits) (hb : b.length ≤ t.isizeMax) {ms : List Bytes} :
    parseBbsCredential t Z b = .returned (.ok ms) ↔ IsCredential Z b ms := by
  rw [parse_diagnosis t hbits Z b hb]
  constructor
  · intro h
    cases h with
    | credential _ hcred => exact hcred
  · exact .credential ms

theorem Diagnosis.widen {t' : Target} (hle : t.bits ≤ t'.bits)
    {r : Except FfiError (List Bytes)} (h : Diagnosis t Z b (.returned r)) :
    Diagnosis t' Z b (.returned r) := by
  cases h with
  | empty hnil => exact .empty hnil
  | short hne hshort => exact .short hne hshort
  | signature hlen e he => exact .signature hlen e he
  | credential ms hcred => exact .credential ms hcred
  | cutLength sig ms rest hacc hms hsplit hpos hcut =>
    exact .cutLength sig ms rest hacc hms hsplit hpos hcut
  | cutData sig ms n body hacc hms hn hsplit hcut hfit =>
    exact .cutData sig ms n body hacc hms hn hsplit hcut
      (Nat.lt_of_lt_of_le hfit (Nat.pow_le_pow_right (by omega) hle))

theorem Diagnosis.panics_of_width {t' : Target} (hwidth : t.bits = t'.bits) {p : Panic}
    (h : Diagnosis t Z b (.panicked p)) : Diagnosis t' Z b (.panicked (overflowPanic t')) := by
  cases h with
  | overflow sig ms n body hacc hms hn hsplit hover =>
    rw [hwidth] at hover
    exact .overflow sig ms n body hacc hms hn hsplit hover

/-- Past 32 bits no announced length leaves the address space. -/
theorem Diagnosis.not_panicked (hbits : 33 ≤ t.bits) (hb : b.length ≤ t.isizeMax) {p : Panic} :
    ¬ Diagnosis t Z b (.panicked p) := by
  intro h
  cases h with
  | overflow sig ms n body hacc hms hn hsplit hover =>
    have hlen := congrArg List.length hsplit
    rw [List.length_append, List.length_append, u32ToBeBytes_length] at hlen
    have hhalf : 2 ^ t.bits = 2 ^ (t.bits - 1) * 2 := by
      rw [← pow_succ]
      congr 1
      omega
    have hword : 2 ^ 32 ≤ 2 ^ (t.bits - 1) := Nat.pow_le_pow_right (by omega) (by omega)
    have hmax : t.isizeMax = 2 ^ (t.bits - 1) - 1 := rfl
    omega

theorem parse_widen {t' : Target} (hbits : 32 ≤ t.bits) (hle : t.bits ≤ t'.bits)
    (hb : b.length ≤ t.isizeMax) (hb' : b.length ≤ t'.isizeMax)
    {r : Except FfiError (List Bytes)} (h : parseBbsCredential t Z b = .returned r) :
    parseBbsCredential t' Z b = .returned r := by
  rw [parse_diagnosis t hbits Z b hb] at h
  rw [parse_diagnosis t' (hbits.trans hle) Z b hb']
  exact h.widen hle

/-- **Credentials are portable.**  Two targets that can hold an input parse it to
the same lists, and whatever they both return they return alike, down to the
text of the error.  A wider target returns all that a narrower one does, targets
of one width panic on the same inputs, whatever their profiles, and past 32 bits
there is no panic. -/
theorem parse_portable (Z : Zkryptium) (b : Bytes) (t t' : Target) (hbits : 32 ≤ t.bits)
    (hbits' : 32 ≤ t'.bits) (hb : b.length ≤ t.isizeMax) (hb' : b.length ≤ t'.isizeMax) :
    (∀ ms, parseBbsCredential t Z b = .returned (.ok ms) ↔
      parseBbsCredential t' Z b = .returned (.ok ms)) ∧
    (∀ r r', parseBbsCredential t Z b = .returned r → parseBbsCredential t' Z b = .returned r' →
      r = r') ∧
    (t.bits ≤ t'.bits → ∀ r, parseBbsCredential t Z b = .returned r →
      parseBbsCredential t' Z b = .returned r) ∧
    (t.bits = t'.bits → ((∃ p, parseBbsCredential t Z b = .panicked p) ↔
      ∃ p, parseBbsCredential t' Z b = .panicked p)) ∧
    (33 ≤ t.bits → ∃ r, parseBbsCredential t Z b = .returned r) := by
  refine ⟨fun ms => ?_, fun r r' h h' => ?_, fun hle r => parse_widen hbits hle hb hb',
    fun hwidth => ?_, fun hwide => ?_⟩
  · rw [parse_ok_iff hbits hb, parse_ok_iff hbits' hb']
  · rcases Nat.le_total t.bits t'.bits with hle | hle
    · rw [parse_widen hbits hle hb hb' h] at h'
      cases h'
      rfl
    · rw [parse_widen hbits' hle hb' hb h'] at h
      cases h
      rfl
  · constructor
    · rintro ⟨p, hp⟩
      rw [parse_diagnosis t hbits Z b hb] at hp
      exact ⟨_, (parse_diagnosis t' hbits' Z b hb' _).mpr (hp.panics_of_width hwidth)⟩
    · rintro ⟨p, hp⟩
      rw [parse_diagnosis t' hbits' Z b hb'] at hp
      exact ⟨_, (parse_diagnosis t hbits Z b hb _).mpr (hp.panics_of_width hwidth.symm)⟩
  · obtain ⟨o, ho⟩ := diagnosis_total t Z b
    cases o with
    | returned r => exact ⟨r, parse_of_diagnosis hbits hb ho⟩
    | panicked p => exact absurd ho (Diagnosis.not_panicked hwide hb)
    | outOfFuel => cases ho

/-- A length field `FF FF FF FF` panics in checked 32-bit builds too, since it
does so in the release profile. -/
theorem parse_portable_wraps :
    ∃ p, parseBbsCredential ⟨32, true⟩ transparent (spread 80 7 ++ [255, 255, 255, 255])
      = .panicked p := by
  obtain ⟨_, _, _, hpanics, _⟩ := parse_portable transparent
    (spread 80 7 ++ [255, 255, 255, 255]) ⟨32, true⟩ .release32 (by decide) (by decide)
    (by decide) (by decide)
  exact (hpanics rfl).mpr ⟨.sliceIndex, by rfl⟩

end BbsFfi.CredentialDiagnosis
