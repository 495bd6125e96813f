import Mathlib.Tactic.Common

/-!
# Fuelled loops with early return and panics

An evaluation returns a value, panics, or runs out of fuel (`Outcome`).  A loop
body maps a state either to the next state or to the value the loop is left
with (`Step`), and `iterate` runs it on a fuel budget.

* `iterate_total`: an invariant and a decreasing measure give a returned value,
  and any relation between state and value that each step carries backwards
  holds of the start state;
* `iterate_of_reaches`: a run through a state continues from that state;
* `iterate_congr`: two bodies that agree on an invariant give the same run.
-/

namespace Loops

/-- What an evaluation ends in. -/
inductive Outcome (ε α : Type) where
  | returned (a : α)
  | panicked (e : ε)
  | outOfFuel
  deriving DecidableEq, Repr

namespace Outcome

variable {ε α β : Type}

protected def bind : Outcome ε α → (α → Outcome ε β) → Outcome ε β
  | .returned a, f => f a
  | .panicked e, _ => .panicked e
  | .outOfFuel, _ => .outOfFuel

instance : Monad (Outcome ε) where
  pure := .returned
  bind := Outcome.bind

@[simp] theorem pure_eq (a : α) : (pure a : Outcome ε α) = .returned a := rfl

@[simp] theorem returned_bind (a : α) (f : α → Outcome ε β) :
    (Outcome.returned a >>= f) = f a := rfl

@[simp] theorem panicked_bind (e : ε) (f : α → Outcome ε β) :
    (Outcome.panicked e >>= f) = .panicked e := rfl

end Outcome

/-- One turn of a loop: go on from a state, or leave with a value. -/
inductive Step (σ ρ : Type) where
  | next (s : σ)
  | done (r : ρ)
  deriving DecidableEq, Repr

variable {ε σ ρ : Type}

/-- At most `fuel` turns of `body`, starting in `s`. -/
def iterate (body : σ → Outcome ε (Step σ ρ)) : Nat → σ → Outcome ε ρ
  | 0, _ => .outOfFuel
  | fuel + 1, s =>
    match body s with
    | .returned (.next s') => iterate body fuel s'
    | .returned (.done r) => .returned r
    | .panicked e => .panicked e
    | .outOfFuel => .outOfFuel

theorem iterate_next {body : σ → Outcome ε (Step σ ρ)} {s s' : σ}
    (h : body s = .returned (.next s')) (fuel : Nat) :
    iterate body (fuel + 1) s = iterate body fuel s' := by
  simp [iterate, h]

theorem iterate_done {body : σ → Outcome ε (Step σ ρ)} {s : σ} {r : ρ}
    (h : body s = .returned (.done r)) (fuel : Nat) :
    iterate body (fuel + 1) s = .returned r := by
  simp [iterate, h]

theorem iterate_panicked {body : σ → Outcome ε (Step σ ρ)} {s : σ} {e : ε}
    (h : body s = .panicked e) (fuel : Nat) :
    iterate body (fuel + 1) s = .panicked e := by
  simp [iterate, h]

/-- **Total correctness.**  `Inv` is kept, `measure` decreases, and `Post` is
carried from the end of the loop back to its start. -/
theorem iterate_total {body : σ → Outcome ε (Step σ ρ)} (Inv : σ → Prop) (measure : σ → Nat)
    (Post : σ → ρ → Prop)
    (turn : ∀ s, Inv s →
      (∃ r, body s = .returned (.done r) ∧ Post s r) ∨
      (∃ s', body s = .returned (.next s') ∧ Inv s' ∧ measure s' < measure s ∧
        ∀ r, Post s' r → Post s r)) :
    ∀ fuel s, Inv s → measure s < fuel → ∃ r, iterate body fuel s = .returned r ∧ Post s r := by
  intro fuel
  induction fuel with
  | zero => intro s _ hm; omega
  | succ fuel ih =>
    intro s hs hm
    rcases turn s hs with ⟨r, hb, hr⟩ | ⟨s', hb, hs', hlt, hback⟩
    · exact ⟨r, iterate_done hb fuel, hr⟩
    · obtain ⟨r, hi, hr⟩ := ih s' hs' (by omega)
      exact ⟨r, by rw [iterate_next hb, hi], hback r hr⟩

/-- `Reaches body n s t`: `n` turns lead from `s` to `t` without leaving the loop. -/
inductive Reaches (body : σ → Outcome ε (Step σ ρ)) : Nat → σ → σ → Prop
  | refl (s : σ) : Reaches body 0 s s
  | step {n : Nat} {s s' t : σ} :
      body s = .returned (.next s') → Reaches body n s' t → Reaches body (n + 1) s t

/-- A run that passes through `t` is a run from `t`. -/
theorem iterate_of_reaches {body : σ → Outcome ε (Step σ ρ)} {n : Nat} {s t : σ}
    (h : Reaches body n s t) (fuel : Nat) :
    iterate body (n + fuel) s = iterate body fuel t := by
  induction h with
  | refl => rw [Nat.zero_add]
  | @step n s s' t hb _ ih => rw [Nat.add_right_comm, iterate_next hb, ih]

/-- Two bodies that agree wherever `Inv` holds run alike. -/
theorem iterate_congr {body body' : σ → Outcome ε (Step σ ρ)} (Inv : σ → Prop)
    (agree : ∀ s, Inv s → body s = body' s)
    (keep : ∀ s s', Inv s → body s = .returned (.next s') → Inv s') :
    ∀ fuel s, Inv s → iterate body fuel s = iterate body' fuel s := by
  intro fuel
  induction fuel with
  | zero => intro s _; rfl
  | succ fuel ih =>
    intro s hs
    have ha := agree s hs
    simp only [iterate, ← ha]
    cases hb : body s with
    | returned v =>
      cases v with
      | next s' => exact ih s' (keep s s' hs hb)
      | done r => rfl
    | panicked e => rfl
    | outOfFuel => rfl

end Loops
