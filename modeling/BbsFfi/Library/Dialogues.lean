import Mathlib.Tactic.Common

/-!
# Dialogues with a machine

A client acts, gets an answer, and goes on as the answer says (`Dialogue`).  A
machine that may fail, simulated by one that cannot, never fails in a dialogue
that keeps to a discipline, and gives the same answers (`run_of_simulation`).
The discipline is stated on the machine that cannot fail (`Keeps`).
-/

namespace Dialogues

inductive Dialogue (α β : Type) where
  | done
  | act (a : α) (next : β → Dialogue α β)

namespace Dialogue

variable {α β σ τ ε : Type}

/-- The answers given, and the state the dialogue leaves. -/
def run (step : α → σ → Except ε (β × σ)) : Dialogue α β → σ → Except ε (List β × σ)
  | .done, s => .ok ([], s)
  | .act a next, s =>
    match step a s with
    | .ok (b, s') => (run step (next b) s').map fun r => (b :: r.1, r.2)
    | .error e => .error e

def runTotal (spec : α → τ → β × τ) : Dialogue α β → τ → List β × τ
  | .done, t => ([], t)
  | .act a next, t =>
    let r := runTotal spec (next (spec a t).1) (spec a t).2
    ((spec a t).1 :: r.1, r.2)

/-- Every action is allowed in the state that it meets. -/
def Keeps (Allowed : α → τ → Prop) (spec : α → τ → β × τ) : Dialogue α β → τ → Prop
  | .done, _ => True
  | .act a next, t => Allowed a t ∧ Keeps Allowed spec (next (spec a t).1) (spec a t).2

instance decidableKeeps {Allowed : α → τ → Prop} {spec : α → τ → β × τ}
    [∀ a t, Decidable (Allowed a t)] :
    ∀ (d : Dialogue α β) (t : τ), Decidable (d.Keeps Allowed spec t)
  | .done, _ => .isTrue trivial
  | .act a next, t =>
    have : Decidable (Keeps Allowed spec (next (spec a t).1) (spec a t).2) := decidableKeeps _ _
    inferInstanceAs (Decidable (_ ∧ _))

/-- **Simulation rule.** -/
theorem run_of_simulation {step : α → σ → Except ε (β × σ)} {spec : α → τ → β × τ}
    {Allowed : α → τ → Prop} (Rel : σ → τ → Prop)
    (sim : ∀ a s t, Rel s t → Allowed a t →
      ∃ s', step a s = .ok ((spec a t).1, s') ∧ Rel s' (spec a t).2)
    (d : Dialogue α β) (s : σ) (t : τ) (h : Rel s t) (hd : d.Keeps Allowed spec t) :
    ∃ s', run step d s = .ok ((runTotal spec d t).1, s') ∧ Rel s' (runTotal spec d t).2 := by
  induction d generalizing s t with
  | done => exact ⟨s, rfl, h⟩
  | act a next ih =>
    obtain ⟨hallow, hrest⟩ := hd
    obtain ⟨s₁, hstep, h₁⟩ := sim a s t h hallow
    obtain ⟨s₂, hrun, h₂⟩ := ih _ s₁ _ h₁ hrest
    refine ⟨s₂, ?_, h₂⟩
    rw [run, hstep]
    simp only [hrun]
    rfl

end Dialogue

end Dialogues
