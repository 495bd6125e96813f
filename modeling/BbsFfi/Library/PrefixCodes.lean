import Mathlib.Data.List.Basic

/-!
# Prefix codes

A code assigns a nonempty word to every value of a domain, and no code word is
continued by another one (`PrefixCode`).  Concatenations of code words then
decode in one way only (`encodeAll_inj`), a concatenation that begins with
another one continues it by whole code words (`encodeAll_append_inv`), and it
can be cut only between its words (`take_encodeAll_eq_iff`).  Any list at all is
a concatenation up to a rest that no code word begins (`exists_stuck`).  In a
table of incomparable words the one that a list begins with is found
(`find?_isPrefixOf`).
-/

namespace PrefixCodes

/-- A prefix-free code with nonempty words on the values satisfying `Dom`. -/
structure PrefixCode (α β : Type) where
  Dom : α → Prop
  enc : α → List β
  enc_ne_nil : ∀ a, Dom a → enc a ≠ []
  enc_prefix : ∀ a b x y, Dom a → Dom b → enc a ++ x = enc b ++ y → a = b ∧ x = y

namespace PrefixCode

variable {α β : Type} (C : PrefixCode α β)

/-- Code words one after the other. -/
def encodeAll (as : List α) : List β := as.flatMap C.enc

@[simp] theorem encodeAll_nil : C.encodeAll [] = [] := rfl

@[simp] theorem encodeAll_cons (a : α) (as : List α) :
    C.encodeAll (a :: as) = C.enc a ++ C.encodeAll as := rfl

@[simp] theorem encodeAll_append (as bs : List α) :
    C.encodeAll (as ++ bs) = C.encodeAll as ++ C.encodeAll bs := List.flatMap_append

/-- Every value of the list is in the domain. -/
def DomAll (as : List α) : Prop := ∀ a ∈ as, C.Dom a

theorem domAll_nil : C.DomAll [] := by simp [DomAll]

theorem domAll_cons {a : α} {as : List α} : C.DomAll (a :: as) ↔ C.Dom a ∧ C.DomAll as := by
  simp [DomAll]

theorem domAll_append {as bs : List α} :
    C.DomAll (as ++ bs) ↔ C.DomAll as ∧ C.DomAll bs := by
  simp only [DomAll, List.mem_append, or_imp, forall_and]

theorem encodeAll_eq_nil {as : List α} (h : C.DomAll as) : C.encodeAll as = [] ↔ as = [] := by
  cases as with
  | nil => simp
  | cons a as =>
    have ha := C.enc_ne_nil a (C.domAll_cons.mp h).1
    simp [ha]

/-- A concatenation whose first word is `enc a` starts with the value `a`. -/
theorem encodeAll_eq_enc_append {a : α} {as : List α} {rest : List β}
    (ha : C.Dom a) (has : C.DomAll as) :
    C.enc a ++ rest = C.encodeAll as ↔ ∃ as', as = a :: as' ∧ rest = C.encodeAll as' := by
  constructor
  · intro h
    cases as with
    | nil => simp [C.enc_ne_nil a ha] at h
    | cons b bs =>
      obtain ⟨rfl, hrest⟩ := C.enc_prefix a b rest (C.encodeAll bs) ha (C.domAll_cons.mp has).1 h
      exact ⟨bs, rfl, hrest⟩
  · rintro ⟨as', rfl, rfl⟩
    rfl

/-- **Cut lemma.**  A concatenation that begins with a concatenation goes on
with whole code words. -/
theorem encodeAll_append_inv {as bs : List α} {rest : List β} (has : C.DomAll as)
    (hbs : C.DomAll bs) (h : C.encodeAll as ++ rest = C.encodeAll bs) :
    ∃ cs, bs = as ++ cs ∧ rest = C.encodeAll cs := by
  induction as generalizing bs with
  | nil => exact ⟨bs, rfl, h⟩
  | cons a as ih =>
    obtain ⟨ha, has'⟩ := C.domAll_cons.mp has
    rw [encodeAll_cons, List.append_assoc] at h
    obtain ⟨bs', rfl, hrest⟩ := (C.encodeAll_eq_enc_append ha hbs).mp h
    obtain ⟨cs, rfl, hcs⟩ := ih has' (C.domAll_cons.mp hbs).2 hrest
    exact ⟨cs, rfl, hcs⟩

/-- **Unique decodability.** -/
theorem encodeAll_inj {as bs : List α} (has : C.DomAll as) (hbs : C.DomAll bs)
    (h : C.encodeAll as = C.encodeAll bs) : as = bs := by
  have h' : C.encodeAll as ++ [] = C.encodeAll bs := by rw [List.append_nil, h]
  obtain ⟨cs, rfl, hcs⟩ := C.encodeAll_append_inv has hbs h'
  have hnil := (C.encodeAll_eq_nil (C.domAll_append.mp hbs).2).mp hcs.symm
  simp [hnil]

theorem domAll_take {as : List α} (h : C.DomAll as) (j : Nat) : C.DomAll (as.take j) := by
  intro a ha
  exact h a (List.mem_of_mem_take ha)

theorem take_encodeAll (as : List α) (j : Nat) :
    (C.encodeAll as).take (C.encodeAll (as.take j)).length = C.encodeAll (as.take j) := by
  have hsplit : C.encodeAll as = C.encodeAll (as.take j) ++ C.encodeAll (as.drop j) := by
    rw [← encodeAll_append, List.take_append_drop]
  rw [hsplit]
  exact List.take_left

/-- **Where a concatenation can be cut.**  Its first `n` elements are a
concatenation themselves exactly when they end with a code word, and then it is
the values up to this word that they encode. -/
theorem take_encodeAll_eq_iff {as bs : List α} {n : Nat} (has : C.DomAll as)
    (hn : n ≤ (C.encodeAll as).length) :
    C.DomAll bs ∧ (C.encodeAll as).take n = C.encodeAll bs ↔
      ∃ j ≤ as.length, n = (C.encodeAll (as.take j)).length ∧ bs = as.take j := by
  constructor
  · rintro ⟨hbs, hcut⟩
    have hsplit : C.encodeAll bs ++ (C.encodeAll as).drop n = C.encodeAll as := by
      rw [← hcut, List.take_append_drop]
    obtain ⟨cs, rfl, _⟩ := C.encodeAll_append_inv hbs has hsplit
    have htake : (bs ++ cs).take bs.length = bs := List.take_left
    refine ⟨bs.length, by simp, ?_, htake.symm⟩
    rw [htake, ← hcut, List.length_take_of_le hn]
  · rintro ⟨j, _, rfl, rfl⟩
    exact ⟨C.domAll_take has j, C.take_encodeAll as j⟩

/-- Different numbers of values end at different places. -/
theorem encodeAll_take_length_inj {as : List α} (has : C.DomAll as) {i j : Nat}
    (hi : i ≤ as.length) (hj : j ≤ as.length)
    (h : (C.encodeAll (as.take i)).length = (C.encodeAll (as.take j)).length) : i = j := by
  have henc : C.encodeAll (as.take i) = C.encodeAll (as.take j) := by
    rw [← C.take_encodeAll as i, h, take_encodeAll]
  have htake := C.encodeAll_inj (C.domAll_take has i) (C.domAll_take has j) henc
  have hlen := congrArg List.length htake
  rwa [List.length_take_of_le hi, List.length_take_of_le hj] at hlen

/-- No code word begins `rest`. -/
def Stuck (rest : List β) : Prop := ∀ a tail, C.Dom a → rest ≠ C.enc a ++ tail

/-- **Every list decodes up to a stuck rest.** -/
theorem exists_stuck (b : List β) :
    ∃ as rest, C.DomAll as ∧ C.Stuck rest ∧ b = C.encodeAll as ++ rest := by
  induction hn : b.length using Nat.strongRecOn generalizing b with
  | _ n ih =>
    by_cases hstuck : C.Stuck b
    · exact ⟨[], b, C.domAll_nil, hstuck, rfl⟩
    · simp only [Stuck, not_forall, not_not] at hstuck
      obtain ⟨a, tail, ha, rfl⟩ := hstuck
      have hpos : 0 < (C.enc a).length := List.length_pos_of_ne_nil (C.enc_ne_nil a ha)
      obtain ⟨as, rest, has, hrest, rfl⟩ :=
        ih tail.length (by rw [List.length_append] at hn; omega) tail rfl
      refine ⟨a :: as, rest, C.domAll_cons.mpr ⟨ha, has⟩, hrest, ?_⟩
      rw [encodeAll_cons, List.append_assoc]

end PrefixCode

/-! ## Tables -/

/-- Neither word begins the other. -/
def Incomparable {β : Type} (v w : List β) : Prop := ¬ v <+: w ∧ ¬ w <+: v

/-- **Looking up the word a list begins with.**  In a table of incomparable words
only the entry of this word is found. -/
theorem find?_isPrefixOf {α β : Type} [DecidableEq β] (key : α → List β) {as : List α}
    (hfree : as.Pairwise fun a b => Incomparable (key a) (key b)) {a : α} (ha : a ∈ as)
    (rest : List β) : as.find? (fun b => (key b).isPrefixOf (key a ++ rest)) = some a := by
  induction as with
  | nil => cases ha
  | cons b bs ih =>
    obtain ⟨hb, hbs⟩ := List.pairwise_cons.mp hfree
    rcases List.mem_cons.mp ha with rfl | ha
    · simp
    · have hother : ¬ key b <+: key a ++ rest := by
        intro h
        rcases List.prefix_or_prefix_of_prefix h (List.prefix_append (key a) rest) with h | h
        · exact (hb a ha).1 h
        · exact (hb a ha).2 h
      rw [List.find?_cons_of_neg (by simpa using hother)]
      exact ih hbs ha

end PrefixCodes
