import BbsFfi.CredentialFormat

/-!
# The parser on 32-bit targets

In the release profile on wasm32 and armv7 the bound check adds the announced
length modulo `2 ^ 32`.  A length field that reaches past the end of the address
space therefore passes the check and the slice behind it panics, as in every other
build without overflow checks (`parse_panics`).  Where no length field at a message
boundary does (`LengthsFitWord`), the run is the 64-bit run;
`parseBbsCredential_word_size` says that this is the exact condition.
-/

namespace BbsFfi.CredentialWordSize

open Loops BbsFfi.Rust BbsFfi.Backend BbsFfi.Credential BbsFfi.CredentialFormat BbsFfi.Transparent

/-! ## Sums that leave the address space -/

section Overflow

variable {t : Target} {Z : Zkryptium} {b : Bytes}

/-- How a sum that leaves the `usize` range ends: checked builds panic at once,
the others in the slice the wrapped sum lets through. -/
def overflowPanic (t : Target) : Panic :=
  if t.overflowChecks then .arithmeticOverflow else .sliceIndex

/-- Half of the address space holds an input, the other half is more than enough
for a length field behind it. -/
theorem isizeMax_add_lt (hbits : 32 ≤ t.bits) : t.isizeMax + 5 ≤ 2 ^ t.bits := by
  obtain ⟨k, hk⟩ := Nat.exists_eq_add_of_le hbits
  have hmax : t.isizeMax = 2 ^ (31 + k) - 1 := by
    rw [Target.isizeMax, hk]
    congr 2
    omega
  have hword : 2 ^ t.bits = 2 ^ (31 + k) * 2 := by
    rw [hk, ← pow_succ]
    congr 1
    omega
  have hlarge : 2 ^ 31 ≤ 2 ^ (31 + k) := Nat.pow_le_pow_right (by omega) (by omega)
  omega

/-- **A length field behind the address space.**  Checked, the sum panics; else
it wraps to a value below the offset, which the bounds check lets through to the
slice. -/
theorem parseLoopBody_overflow {s : LoopState} {n : Nat} {body : Bytes} (hbits : 32 ≤ t.bits)
    (hb : b.length ≤ t.isizeMax) (hn : n < 2 ^ 32)
    (hrest : b.drop s.offset = u32ToBeBytes n ++ body) (hover : 2 ^ t.bits ≤ s.offset + 4 + n) :
    parseLoopBody t b s = .panicked (overflowPanic t) := by
  have hroom := isizeMax_add_lt hbits
  have hword : 2 ^ 32 ≤ 2 ^ t.bits := Nat.pow_le_pow_right (by omega) hbits
  have hlen := length_of_drop hrest
  obtain ⟨e, he⟩ : ∃ e, s.offset + 4 + n = 2 ^ t.bits + e :=
    ⟨_, (Nat.add_sub_of_le hover).symm⟩
  rw [parseLoopBody_length hn hbits hrest (by omega), overflowPanic]
  cases hchecks : t.overflowChecks with
  | true =>
    have hadd : t.add (s.offset + 4) n = .panicked .arithmeticOverflow := by
      rw [Target.add, if_neg (by omega), if_pos hchecks]
    rw [hadd]
    rfl
  | false =>
    have hadd : t.add (s.offset + 4) n = .returned e := by
      rw [Target.add, if_neg (by omega), hchecks, if_neg Bool.false_ne_true, he,
        Nat.add_mod_left, Nat.mod_eq_of_lt (by omega)]
    have hslice : slice b (s.offset + 4) e = .panicked .sliceIndex := by
      rw [slice, if_neg (by omega)]
    rw [hadd]
    simp only [Outcome.returned_bind]
    rw [if_neg (by omega : ¬ e > b.length), hslice]
    rfl

/-- Behind an accepted signature and whole frames, the loop stands at their end
with turns to spare. -/
theorem parse_at_boundary (hbits : 32 ≤ t.bits) (hb : b.length ≤ t.isizeMax) {sig : U8Array 80}
    {ms : List Bytes} {rest : Bytes} (hacc : Accepts Z sig) (hms : framing.DomAll ms)
    (hsplit : b = encodeCredential sig ms ++ rest) :
    ∃ fuel, parseBbsCredential t Z b
      = iterate (parseLoopBody t b) (fuel + 1) (boundary sig ms) := by
  have hroom := isizeMax_add_lt hbits
  have hlen : b.length = (encodeCredential sig ms).length + rest.length := by
    rw [hsplit, List.length_append]
  have hsig : (encodeCredential sig ms).length = 80 + (framing.encodeAll ms).length := by
    rw [encodeCredential, List.length_append, sig.property]
  have hcount : ms.length ≤ (framing.encodeAll ms).length := length_le_encodeAll ms
  have h80 : 80 ≤ b.length := by omega
  have hbytes : sigBytes b h80 = sig := by
    apply sigBytes_of_append
    rw [hsplit, encodeCredential, List.append_assoc]
  have hreach : Reaches (parseLoopBody t b) ms.length ⟨[], 80⟩ (boundary sig ms) := by
    have hrun := reaches_boundary hbits sig [] rest hms (by rw [List.nil_append]; omega)
    rwa [List.nil_append, ← hsplit, boundary_nil] at hrun
  have hfuel : b.length + 1 = ms.length + (b.length - ms.length + 1) := by omega
  refine ⟨b.length - ms.length, ?_⟩
  rw [parseBbsCredential_accepted h80 (by rw [hbytes]; exact hacc), hfuel,
    iterate_of_reaches hreach]

theorem drop_boundary {sig : U8Array 80} {ms : List Bytes} {rest : Bytes}
    (hsplit : b = encodeCredential sig ms ++ rest) :
    b.drop (boundary sig ms).offset = rest := by
  rw [hsplit]
  exact List.drop_left

/-- **A message that would end behind the address space.** -/
theorem parse_panics (hbits : 32 ≤ t.bits) (hb : b.length ≤ t.isizeMax) {sig : U8Array 80}
    {ms : List Bytes} {n : Nat} {body : Bytes} (hacc : Accepts Z sig) (hms : framing.DomAll ms)
    (hn : n < 2 ^ 32) (hsplit : b = encodeCredential sig ms ++ (u32ToBeBytes n ++ body))
    (hover : 2 ^ t.bits ≤ (encodeCredential sig ms).length + 4 + n) :
    parseBbsCredential t Z b = .panicked (overflowPanic t) := by
  obtain ⟨fuel, hparse⟩ := parse_at_boundary hbits hb hacc hms hsplit
  rw [hparse, iterate_panicked (parseLoopBody_overflow hbits hb hn (drop_boundary hsplit) hover)]

end Overflow

/-! ## Where the lengths fit -/

/-- No length field that stands behind an accepted signature and whole messages
announces a message ending at or past byte `2 ^ 32`. -/
def LengthsFitWord (Z : Zkryptium) (b : Bytes) : Prop :=
  ∀ sig ms n rest, Accepts Z sig → (∀ m ∈ ms, m.length < 2 ^ 32) → n < 2 ^ 32 →
    b = encodeCredential sig ms ++ u32ToBeBytes n ++ rest →
      (encodeCredential sig ms).length + 4 + n < 2 ^ 32

structure AtBoundary (sig : U8Array 80) (b : Bytes) (s : LoopState) : Prop where
  short : framing.DomAll s.messages
  state : s = boundary sig s.messages
  split : b = encodeCredential sig s.messages ++ b.drop s.offset

theorem AtBoundary.offset_eq {sig : U8Array 80} {b : Bytes} {s : LoopState}
    (h : AtBoundary sig b s) : s.offset = (encodeCredential sig s.messages).length :=
  congrArg LoopState.offset h.state

theorem AtBoundary.offset_le {sig : U8Array 80} {b : Bytes} {s : LoopState}
    (h : AtBoundary sig b s) : s.offset ≤ b.length := by
  have hoff := h.offset_eq
  have hlen := congrArg List.length h.split
  rw [List.length_append] at hlen
  omega

theorem AtBoundary.fits {Z : Zkryptium} {sig : U8Array 80} {b : Bytes} {s : LoopState}
    (h : AtBoundary sig b s) (hfit : LengthsFitWord Z b) (hacc : Accepts Z sig) {n : Nat}
    {body : Bytes} (hn : n < 2 ^ 32) (hrest : b.drop s.offset = u32ToBeBytes n ++ body) :
    s.offset + 4 + n < 2 ^ 32 := by
  rw [h.offset_eq]
  refine hfit sig s.messages n body hacc h.short hn ?_
  rw [List.append_assoc, ← hrest]
  exact h.split

/-- What one turn does at a boundary, on a target where the length fits: it
leaves the loop with a value of its own, or moves to the next boundary. -/
theorem parseLoopBody_agree (checks : Bool) {Z : Zkryptium} {sig : U8Array 80} {b : Bytes}
    (hb : b.length ≤ Target.release32.isizeMax) (hacc : Accepts Z sig)
    (hfit : LengthsFitWord Z b) {s : LoopState} (hs : AtBoundary sig b s) :
    parseLoopBody .release32 b s = parseLoopBody (.bits64 checks) b s ∧
      ∀ s', parseLoopBody .release32 b s = .returned (.next s') → AtBoundary sig b s' := by
  have hmax : Target.release32.isizeMax = 2 ^ 31 - 1 := rfl
  have h32 : Target.release32.bits = 32 := rfl
  have h64 : (Target.bits64 checks).bits = 64 := rfl
  have hle := hs.offset_le
  have hrestlen : (b.drop s.offset).length = b.length - s.offset := List.length_drop
  rcases rest_cases (b.drop s.offset) with hnil | ⟨hpos, hlt⟩ | ⟨n, body, hn, hrest⟩
  · have hend : b.length ≤ s.offset := List.drop_eq_nil_iff.mp hnil
    rw [parseLoopBody_end hend, parseLoopBody_end hend]
    exact ⟨rfl, fun s' h => by cases h⟩
  · rw [parseLoopBody_cut_length (by omega) (by omega) (by rw [h32]; omega),
      parseLoopBody_cut_length (by omega) (by omega) (by rw [h64]; omega)]
    exact ⟨rfl, fun s' h => by cases h⟩
  · have hword := hs.fits hfit hacc hn hrest
    by_cases hfull : n ≤ body.length
    · rw [parseLoopBody_message hn (Nat.le_refl 32) hrest (by rw [h32]; omega) hfull,
        parseLoopBody_message hn (by rw [h64]; omega) hrest (by rw [h64]; omega) hfull]
      refine ⟨rfl, ?_⟩
      rintro s' ⟨⟩
      have hm : (body.take n).length = n := List.length_take_of_le hfull
      have hoff := hs.offset_eq
      have henc : encodeCredential sig (s.messages ++ [body.take n])
          = encodeCredential sig s.messages ++ frame (body.take n) := by
        rw [encodeCredential_append]
        exact congrArg _ (List.append_nil _)
      refine ⟨framing.domAll_append.mpr ⟨hs.short, ?_⟩, ?_, ?_⟩
      · have hdom : (body.take n).length < 2 ^ 32 := by omega
        exact framing.domAll_cons.mpr ⟨hdom, framing.domAll_nil⟩
      · rw [boundary, henc, List.length_append, frame_length, hm, ← hoff, Nat.add_assoc]
      · show b = encodeCredential sig (s.messages ++ [body.take n]) ++ b.drop (s.offset + 4 + n)
        rw [henc, List.append_assoc, ← drop_eq_frame hrest hfull]
        exact hs.split
    · rw [parseLoopBody_cut_data hn (Nat.le_refl 32) hrest (by rw [h32]; omega) (by omega),
        parseLoopBody_cut_data hn (by rw [h64]; omega) hrest (by rw [h64]; omega) (by omega)]
      exact ⟨rfl, fun s' h => by cases h⟩

theorem parse_eq_of_fits (checks : Bool) {Z : Zkryptium} {b : Bytes}
    (hb : b.length ≤ Target.release32.isizeMax) (hfit : LengthsFitWord Z b) :
    parseBbsCredential .release32 Z b = parseBbsCredential (.bits64 checks) Z b := by
  refine parseBbsCredential_congr fun hlen hacc => ?_
  refine iterate_congr (AtBoundary (sigBytes b hlen) b)
    (fun s hs => (parseLoopBody_agree checks hb hacc hfit hs).1)
    (fun s s' hs h => (parseLoopBody_agree checks hb hacc hfit hs).2 s' h) _ _ ?_
  have hstart : encodeCredential (sigBytes b hlen) [] = b.take 80 := List.append_nil _
  exact ⟨framing.domAll_nil, (boundary_nil _).symm, by
    rw [hstart]
    exact (List.take_append_drop 80 b).symm⟩

/-! ## 32 against 64 bits -/

/-- **32 against 64 bits.**  On an input a 32-bit target can hold, the 32-bit
release build returns, and returns what the 64-bit build does, exactly when no
length field at a message boundary reaches past the address space. -/
theorem parseBbsCredential_word_size (checks : Bool) (Z : Zkryptium) (b : Bytes)
    (hb : b.length ≤ Target.release32.isizeMax) :
    (∃ r, parseBbsCredential .release32 Z b = .returned r ∧
      parseBbsCredential (.bits64 checks) Z b = .returned r) ↔ LengthsFitWord Z b := by
  have hmax : Target.release32.isizeMax = 2 ^ 31 - 1 := rfl
  have hmax64 : (Target.bits64 checks).isizeMax = 2 ^ 63 - 1 := rfl
  constructor
  · rintro ⟨r, h32, _⟩ sig ms n rest hacc hms hn rfl
    by_contra hwrap
    have hover : 2 ^ Target.release32.bits ≤ (encodeCredential sig ms).length + 4 + n :=
      Nat.le_of_not_lt hwrap
    have hpanic := parse_panics (Nat.le_refl 32) hb hacc hms hn (List.append_assoc ..) hover
    rw [hpanic] at h32
    cases h32
  · intro hfit
    obtain ⟨r, h64, _⟩ := parse_decides checks (Z := Z) (b := b) (by omega)
    exact ⟨r, by rw [parse_eq_of_fits checks hb hfit, h64], h64⟩

theorem parseBbsCredential_word_size_three :
    LengthsFitWord transparent (encodeCredential ⟨spread 80 7, rfl⟩ [[1, 2], [], [3]]) :=
  (parseBbsCredential_word_size true transparent _ (by decide)).mp
    ⟨.ok [[1, 2], [], [3]], by rfl, by rfl⟩

/-- An accepted signature and the length field `FF FF FF FF`: the 32-bit build
panics, the 64-bit build reports a parse error. -/
theorem parseBbsCredential_wraps :
    parseBbsCredential .release32 transparent (spread 80 7 ++ [255, 255, 255, 255])
        = .panicked .sliceIndex ∧
      (∃ msg, parseBbsCredential (.bits64 false) transparent
        (spread 80 7 ++ [255, 255, 255, 255])
          = .returned (.error (.CredentialParseFailed msg))) ∧
      ¬ ∃ r, parseBbsCredential .release32 transparent (spread 80 7 ++ [255, 255, 255, 255])
          = .returned r ∧
        parseBbsCredential (.bits64 false) transparent (spread 80 7 ++ [255, 255, 255, 255])
          = .returned r := by
  have hpanic : parseBbsCredential .release32 transparent (spread 80 7 ++ [255, 255, 255, 255])
      = .panicked .sliceIndex := by rfl
  refine ⟨hpanic, ⟨_, by rfl⟩, ?_⟩
  rintro ⟨r, h32, _⟩
  rw [hpanic] at h32
  cases h32

end BbsFfi.CredentialWordSize
