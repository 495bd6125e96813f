import BbsFfi.CredentialFormat

/-!
# Appending to credentials and cutting them

What follows a credential is parsed on its own, and its messages come behind
those of the credential; so a credential can be cut at its message boundaries
and nowhere else (`parseBbsCredential_compositional`).
-/

namespace BbsFfi.CredentialCuts

open PrefixCodes BbsFfi.Rust BbsFfi.Backend BbsFfi.Credential BbsFfi.CredentialFormat
  BbsFfi.Transparent

variable {Z : Zkryptium} {checks : Bool}

/-- The parser returns a list exactly on the credentials with these messages. -/
theorem parse_eq_ok_iff {b : Bytes} (hb : b.length ≤ (Target.bits64 checks).isizeMax)
    {ms : List Bytes} :
    parseBbsCredential (.bits64 checks) Z b = .returned (.ok ms) ↔ IsCredential Z b ms := by
  obtain ⟨r, hr, hok, _⟩ := parse_decides checks (Z := Z) hb
  rw [hr, ← hok]
  constructor
  · intro h
    cases h
    rfl
  · rintro rfl
    rfl

theorem parse_error_iff {b : Bytes} (hb : b.length ≤ (Target.bits64 checks).isizeMax) :
    (∃ msg, parseBbsCredential (.bits64 checks) Z b
      = .returned (.error (.CredentialParseFailed msg))) ↔ ∀ ms, ¬ IsCredential Z b ms := by
  obtain ⟨r, hr, hok, herr⟩ := parse_decides checks (Z := Z) hb
  rw [hr]
  constructor
  · rintro ⟨msg, h⟩ ms hms
    cases h
    cases (hok ms).mpr hms
  · intro hno
    cases r with
    | ok ms => exact absurd ((hok ms).mp rfl) (hno ms)
    | error e =>
      obtain ⟨msg, rfl⟩ := herr e rfl
      exact ⟨msg, rfl⟩

/-! ## Appending -/

/-- Credentials behind one signature differ in their frames only. -/
theorem isCredential_append_iff {sig : U8Array 80} {tail : Bytes} {ms : List Bytes} :
    IsCredential Z (sig.val ++ tail) ms ↔
      Accepts Z sig ∧ framing.DomAll ms ∧ tail = framing.encodeAll ms := by
  have h80 : 80 ≤ (sig.val ++ tail).length := by
    rw [List.length_append, sig.property]
    exact Nat.le_add_right ..
  rw [isCredential_iff h80, sigBytes_of_append rfl, List.drop_left' sig.property]

/-- **What is appended is read on its own.** -/
theorem isCredential_append {sig : U8Array 80} {a t : Bytes} {ms ks : List Bytes}
    (ha : IsCredential Z (sig.val ++ a) ms) :
    IsCredential Z (sig.val ++ a ++ t) ks ↔
      ∃ ns, ks = ms ++ ns ∧ IsCredential Z (sig.val ++ t) ns := by
  obtain ⟨hacc, hms, rfl⟩ := isCredential_append_iff.mp ha
  rw [List.append_assoc, isCredential_append_iff]
  constructor
  · rintro ⟨_, hks, henc⟩
    obtain ⟨ns, rfl, ht⟩ := framing.encodeAll_append_inv hms hks henc
    exact ⟨ns, rfl, isCredential_append_iff.mpr ⟨hacc, (framing.domAll_append.mp hks).2, ht⟩⟩
  · rintro ⟨ns, rfl, ht⟩
    obtain ⟨_, hns, rfl⟩ := isCredential_append_iff.mp ht
    exact ⟨hacc, framing.domAll_append.mpr ⟨hms, hns⟩, (framing.encodeAll_append ms ns).symm⟩

theorem parse_append {sig : U8Array 80} {a t : Bytes} {ms : List Bytes}
    (hlen : (sig.val ++ a ++ t).length ≤ (Target.bits64 checks).isizeMax)
    (ha : parseBbsCredential (.bits64 checks) Z (sig.val ++ a) = .returned (.ok ms)) :
    (∀ ns, parseBbsCredential (.bits64 checks) Z (sig.val ++ t) = .returned (.ok ns) →
        parseBbsCredential (.bits64 checks) Z (sig.val ++ a ++ t) = .returned (.ok (ms ++ ns))) ∧
      ((∃ e, parseBbsCredential (.bits64 checks) Z (sig.val ++ t) = .returned (.error e)) →
        ∃ msg, parseBbsCredential (.bits64 checks) Z (sig.val ++ a ++ t)
          = .returned (.error (.CredentialParseFailed msg))) := by
  have hlena : (sig.val ++ a).length ≤ (Target.bits64 checks).isizeMax := by
    simp only [List.length_append] at hlen ⊢
    omega
  have hlent : (sig.val ++ t).length ≤ (Target.bits64 checks).isizeMax := by
    simp only [List.length_append] at hlen ⊢
    omega
  have hcred := (parse_eq_ok_iff hlena).mp ha
  constructor
  · intro ns hns
    apply (parse_eq_ok_iff hlen).mpr
    exact (isCredential_append hcred).mpr ⟨ns, rfl, (parse_eq_ok_iff hlent).mp hns⟩
  · rintro ⟨e, he⟩
    apply (parse_error_iff hlen).mpr
    intro ks hks
    obtain ⟨ns, rfl, hns⟩ := (isCredential_append hcred).mp hks
    rw [(parse_eq_ok_iff hlent).mpr hns] at he
    cases he

/-! ## Cutting -/

/-- The length of a credential up to its message number `j`. -/
def cut (ms : List Bytes) (j : Nat) : Nat := 80 + ((ms.take j).map fun m => 4 + m.length).sum

theorem length_encodeAll (ms : List Bytes) :
    (framing.encodeAll ms).length = (ms.map fun m => 4 + m.length).sum := by
  induction ms with
  | nil => rfl
  | cons m ms ih =>
    have hm : (framing.enc m).length = 4 + m.length := frame_length m
    rw [PrefixCode.encodeAll_cons, List.length_append, ih, hm, List.map_cons, List.sum_cons]

theorem cut_eq (ms : List Bytes) (j : Nat) :
    cut ms j = 80 + (framing.encodeAll (ms.take j)).length := by
  rw [cut, length_encodeAll]

theorem cut_inj {ms : List Bytes} (hms : framing.DomAll ms) {i j : Nat} (hi : i ≤ ms.length)
    (hj : j ≤ ms.length) (h : cut ms i = cut ms j) : i = j := by
  rw [cut_eq, cut_eq] at h
  exact framing.encodeAll_take_length_inj hms hi hj (Nat.add_left_cancel h)

/-- **The first bytes of a credential** are one themselves exactly up to a
message boundary. -/
theorem isCredential_take_iff {c : Bytes} {ms : List Bytes} (hc : IsCredential Z c ms) {n : Nat}
    (hn : n ≤ c.length) {ns : List Bytes} :
    IsCredential Z (c.take n) ns ↔ ∃ j ≤ ms.length, n = cut ms j ∧ ns = ms.take j := by
  obtain ⟨⟨sig, hacc, rfl⟩, hms⟩ := hc
  have hlen : (encodeCredential sig ms).length = 80 + (framing.encodeAll ms).length := by
    rw [encodeCredential, List.length_append, sig.property]
  by_cases h80 : 80 ≤ n
  · obtain ⟨k, rfl⟩ := Nat.exists_eq_add_of_le h80
    have hk : k ≤ (framing.encodeAll ms).length := by omega
    have htake : (encodeCredential sig ms).take (80 + k)
        = sig.val ++ (framing.encodeAll ms).take k := by
      rw [encodeCredential, List.take_append, sig.property, Nat.add_sub_cancel_left,
        List.take_of_length_le (by rw [sig.property]; exact h80)]
    rw [htake, isCredential_append_iff]
    simp only [cut_eq, Nat.add_left_cancel_iff]
    rw [← framing.take_encodeAll_eq_iff hms hk]
    exact ⟨fun h => h.2, fun h => ⟨hacc, h⟩⟩
  · -- Before byte 80 there is neither a credential nor a boundary.
    constructor
    · intro h
      have hshort := length_of_isCredential h
      rw [List.length_take_of_le hn] at hshort
      exact absurd hshort h80
    · rintro ⟨j, _, rfl, _⟩
      exact absurd (Nat.le_add_right ..) h80

theorem parse_take {c : Bytes} {ms : List Bytes}
    (hlen : c.length ≤ (Target.bits64 checks).isizeMax)
    (hc : parseBbsCredential (.bits64 checks) Z c = .returned (.ok ms)) {n : Nat}
    (hn : n ≤ c.length) :
    (∀ ns, parseBbsCredential (.bits64 checks) Z (c.take n) = .returned (.ok ns) ↔
        ∃ j ≤ ms.length, n = cut ms j ∧ ns = ms.take j) ∧
      (∀ i ≤ ms.length, ∀ j ≤ ms.length, n = cut ms i → n = cut ms j → i = j) ∧
      ((∀ j ≤ ms.length, n ≠ cut ms j) → ∃ msg,
        parseBbsCredential (.bits64 checks) Z (c.take n)
          = .returned (.error (.CredentialParseFailed msg))) := by
  have hcred := (parse_eq_ok_iff hlen).mp hc
  have htake : (c.take n).length ≤ (Target.bits64 checks).isizeMax := by
    rw [List.length_take_of_le hn]
    exact hn.trans hlen
  refine ⟨?_, ?_, ?_⟩
  · intro ns
    rw [parse_eq_ok_iff htake, isCredential_take_iff hcred hn]
  · intro i hi j hj hni hnj
    exact cut_inj hcred.short hi hj (hni.symm.trans hnj)
  · intro hno
    apply (parse_error_iff htake).mpr
    intro ns hns
    obtain ⟨j, hj, hnj, _⟩ := (isCredential_take_iff hcred hn).mp hns
    exact hno j hj hnj

/-- **Parsing is compositional.**  Behind a credential the parser goes on as if
the rest stood behind its signature; and of a credential it accepts the first
`n` bytes exactly where `n` is a message boundary, which is the end of one
number of messages only, and returns these messages. -/
theorem parseBbsCredential_compositional (checks : Bool) (Z : Zkryptium) :
    (∀ (sig : U8Array 80) (a t : Bytes) (ms : List Bytes), Accepts Z sig →
      (sig.val ++ a ++ t).length ≤ (Target.bits64 checks).isizeMax →
      parseBbsCredential (.bits64 checks) Z (sig.val ++ a) = .returned (.ok ms) →
        (∀ ns, parseBbsCredential (.bits64 checks) Z (sig.val ++ t) = .returned (.ok ns) →
          parseBbsCredential (.bits64 checks) Z (sig.val ++ a ++ t)
            = .returned (.ok (ms ++ ns))) ∧
        ((∃ e, parseBbsCredential (.bits64 checks) Z (sig.val ++ t) = .returned (.error e)) →
          ∃ msg, parseBbsCredential (.bits64 checks) Z (sig.val ++ a ++ t)
            = .returned (.error (.CredentialParseFailed msg)))) ∧
    (∀ (c : Bytes) (ms : List Bytes), c.length ≤ (Target.bits64 checks).isizeMax →
      parseBbsCredential (.bits64 checks) Z c = .returned (.ok ms) → ∀ n ≤ c.length,
        (∀ ns, parseBbsCredential (.bits64 checks) Z (c.take n) = .returned (.ok ns) ↔
          ∃ j ≤ ms.length, n = cut ms j ∧ ns = ms.take j) ∧
        (∀ i ≤ ms.length, ∀ j ≤ ms.length, n = cut ms i → n = cut ms j → i = j) ∧
        ((∀ j ≤ ms.length, n ≠ cut ms j) → ∃ msg,
          parseBbsCredential (.bits64 checks) Z (c.take n)
            = .returned (.error (.CredentialParseFailed msg)))) := by
  constructor
  · intro sig a t ms _ hlen ha
    exact parse_append hlen ha
  · intro c ms hlen hc n hn
    exact parse_take hlen hc hn

/-- A credential with two messages, the first one empty: a third message is
appended, and a cut at 84 leaves the empty message. -/
theorem parseBbsCredential_compositional_three :
    parseBbsCredential (.bits64 true) transparent
        (spread 80 7 ++ framing.encodeAll [[], [3]] ++ framing.encodeAll [[1, 2]])
      = .returned (.ok [[], [3], [1, 2]]) ∧
    parseBbsCredential (.bits64 true) transparent
        ((spread 80 7 ++ framing.encodeAll [[], [3]]).take 84)
      = .returned (.ok [[]]) := by
  obtain ⟨happend, htake⟩ := parseBbsCredential_compositional true transparent
  have hcred : parseBbsCredential (.bits64 true) transparent
      (spread 80 7 ++ framing.encodeAll [[], [3]]) = .returned (.ok [[], [3]]) := by rfl
  constructor
  · exact (happend ⟨spread 80 7, rfl⟩ (framing.encodeAll [[], [3]]) (framing.encodeAll [[1, 2]])
      [[], [3]] ⟨(7 : UInt8), rfl⟩ (by decide) hcred).1 [[1, 2]] (by rfl)
  · exact ((htake _ _ (by decide) hcred 84 (by decide)).1 [[]]).mpr ⟨1, by decide, by decide, rfl⟩

end BbsFfi.CredentialCuts
