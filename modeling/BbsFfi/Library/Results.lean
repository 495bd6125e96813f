import Mathlib.Tactic.Common

/-!
# Successful runs of fallible steps

A sequence of steps in `Except` that rename the errors of what they call
succeeds exactly when every step does.  With these lemmas `simp only` turns
`(do ..) = .ok b` into the values the steps computed.  `ErrorsIn` bounds the
errors such a sequence can end in by those its steps are renamed to, `Ends`
describes both ways it can end.
-/

namespace Results

variable {ε ε' α β : Type}

theorem bind_eq_ok {x : Except ε α} {f : α → Except ε β} {b : β} :
    (x >>= f) = .ok b ↔ ∃ a, x = .ok a ∧ f a = .ok b := by
  cases x with
  | error e => exact ⟨nofun, nofun⟩
  | ok a => exact ⟨fun h => ⟨a, rfl, h⟩, fun ⟨_, h, hf⟩ => by cases h; exact hf⟩

theorem mapError_bind_eq_ok {x : Except ε α} {f : ε → ε'} {g : α → Except ε' β} {b : β} :
    (x.mapError f >>= g) = .ok b ↔ ∃ a, x = .ok a ∧ g a = .ok b := by
  cases x with
  | error e => exact ⟨nofun, nofun⟩
  | ok a => exact ⟨fun h => ⟨a, rfl, h⟩, fun ⟨_, h, hg⟩ => by cases h; exact hg⟩

theorem pure_eq_ok {a b : α} : (pure a : Except ε α) = .ok b ↔ a = b :=
  ⟨fun h => by cases h; rfl, fun h => by rw [h]; rfl⟩

theorem map_eq_ok {x : Except ε α} {f : α → β} {b : β} :
    x.map f = .ok b ↔ ∃ a, x = .ok a ∧ f a = b := by
  cases x with
  | error e => exact ⟨nofun, nofun⟩
  | ok a => exact ⟨fun h => ⟨a, rfl, by cases h; rfl⟩, fun ⟨_, h, hb⟩ => by cases h; rw [← hb]; rfl⟩

/-- An early exit with an error. -/
theorem ite_throw_bind_eq_ok {p : Prop} [Decidable p] {e : ε} {f : α → Except ε β}
    {x : Except ε β} {b : β} :
    (if p then throw e >>= f else x) = .ok b ↔ ¬ p ∧ x = .ok b := by
  by_cases hp : p
  · rw [if_pos hp]
    exact ⟨nofun, fun h => absurd hp h.1⟩
  · rw [if_neg hp]
    exact ⟨fun h => ⟨hp, h⟩, fun h => h.2⟩

/-- A result that is not a success is an error. -/
theorem error_iff_not_ok {x : Except ε α} : (∃ e, x = .error e) ↔ ¬ ∃ a, x = .ok a := by
  cases x with
  | error e => exact ⟨fun _ => nofun, fun _ => ⟨e, rfl⟩⟩
  | ok a => exact ⟨nofun, fun h => absurd ⟨a, rfl⟩ h⟩

/-! ## The errors that can come out -/

/-- Every error of `x` satisfies `P`. -/
def ErrorsIn (P : ε → Prop) (x : Except ε α) : Prop := ∀ e, x = .error e → P e

section ErrorsIn

variable {P : ε → Prop}

theorem errorsIn_pure (a : α) : ErrorsIn P (pure a : Except ε α) := by
  intro e h
  cases h

theorem errorsIn_throw_bind {e : ε} {f : α → Except ε β} (h : P e) :
    ErrorsIn P (throw e >>= f) := by
  intro e' h'
  cases h'
  exact h

theorem errorsIn_mapError {x : Except ε' α} {g : ε' → ε} (h : ∀ e, P (g e)) :
    ErrorsIn P (x.mapError g) := by
  intro e he
  cases x with
  | error e' => cases he; exact h e'
  | ok a => cases he

theorem ErrorsIn.bind {x : Except ε α} {f : α → Except ε β} (hx : ErrorsIn P x)
    (hf : ∀ a, x = .ok a → ErrorsIn P (f a)) : ErrorsIn P (x >>= f) := by
  intro e h
  cases x with
  | error e' => cases h; exact hx _ rfl
  | ok a => exact hf a rfl e h

theorem ErrorsIn.map {x : Except ε α} (hx : ErrorsIn P x) (f : α → β) :
    ErrorsIn P (x.map f) := by
  intro e h
  cases x with
  | error e' => cases h; exact hx _ rfl
  | ok a => cases h

/-- A renamed step among others. -/
theorem errorsIn_mapError_bind {x : Except ε' α} {g : ε' → ε} {f : α → Except ε β}
    (h : ∀ e, P (g e)) (hf : ∀ a, ErrorsIn P (f a)) : ErrorsIn P (x.mapError g >>= f) :=
  (errorsIn_mapError h).bind fun a _ => hf a

theorem ErrorsIn.ite {p : Prop} [Decidable p] {x y : Except ε α} (hx : ErrorsIn P x)
    (hy : ErrorsIn P y) : ErrorsIn P (if p then x else y) := by
  split
  · exact hx
  · exact hy

end ErrorsIn

/-! ## Both ways to end -/

/-- `x` is an error with `P` or a value with `Q`. -/
inductive Ends (P : ε → Prop) (Q : α → Prop) : Except ε α → Prop
  | error {e : ε} : P e → Ends P Q (.error e)
  | ok {a : α} : Q a → Ends P Q (.ok a)

section Ends

variable {P : ε → Prop} {P' : ε' → Prop} {Q Q' : α → Prop} {R : β → Prop}

theorem ErrorsIn.ends {x : Except ε α} (hx : ErrorsIn P x) (hQ : ∀ a, x = .ok a → Q a) :
    Ends P Q x := by
  cases x with
  | error e => exact .error (hx e rfl)
  | ok a => exact .ok (hQ a rfl)

/-- The value it ends in is its value. -/
theorem Ends.self {x : Except ε α} (hx : Ends P Q x) : Ends P (fun a => x = .ok a ∧ Q a) x := by
  cases hx with
  | error he => exact .error he
  | ok ha => exact .ok ⟨rfl, ha⟩

/-- **Sequences.**  The error of either step, or the value of the second. -/
theorem Ends.bind {x : Except ε α} {f : α → Except ε β} (hx : Ends P Q x)
    (hf : ∀ a, Q a → Ends P R (f a)) : Ends P R (x >>= f) := by
  cases hx with
  | error he => exact .error he
  | ok ha => exact hf _ ha

theorem Ends.mapError {x : Except ε α} {g : ε → ε'} (hx : Ends P Q x)
    (hg : ∀ e, P e → P' (g e)) : Ends P' Q (x.mapError g) := by
  cases hx with
  | error he => exact .error (hg _ he)
  | ok ha => exact .ok ha

theorem Ends.imp {x : Except ε α} (hx : Ends P Q x) (hQ : ∀ a, Q a → Q' a) : Ends P Q' x := by
  cases hx with
  | error he => exact .error he
  | ok ha => exact .ok (hQ _ ha)

end Ends

end Results
