import Mathlib.Tactic.Common

/-!
# Runs under a discipline

A system whose operations may fail, used by a client who keeps to a discipline:
each operation is allowed only in some states (`System`).  A run is disciplined
when every operation is allowed where it happens.  `run_of_invariant` is the
rule for both safety and absence of failures along such runs; `run_of_simulation`
is the one for refinement, where every operation is also a step of a
specification.
-/

namespace Runs

structure System (σ ε α : Type) where
  Allowed : α → σ → Prop
  step : α → σ → Except ε σ

namespace System

variable {σ ε α : Type} (S : System σ ε α)

def run : List α → σ → Except ε σ
  | [], s => .ok s
  | a :: as, s =>
    match S.step a s with
    | .ok s' => run as s'
    | .error e => .error e

/-- Every operation of the run is allowed in the state it meets. -/
inductive Disciplined : List α → σ → Prop
  | nil (s : σ) : Disciplined [] s
  | cons {a : α} {as : List α} {s : σ} :
      S.Allowed a s → (∀ s', S.step a s = .ok s' → Disciplined as s') → Disciplined (a :: as) s

variable {S}

theorem Disciplined.left {as bs : List α} {s : σ} (h : S.Disciplined (as ++ bs) s) :
    S.Disciplined as s := by
  induction as generalizing s with
  | nil => exact .nil s
  | cons a as ih =>
    cases h with
    | cons hallow hrest => exact .cons hallow fun s' hs' => ih (hrest s' hs')

/-- **Invariant rule.**  If allowed operations do not fail and keep `Inv`, no
disciplined run fails, and `Inv` holds after it. -/
theorem run_of_invariant (Inv : σ → Prop)
    (keep : ∀ a s, Inv s → S.Allowed a s → ∃ s', S.step a s = .ok s' ∧ Inv s') :
    ∀ as s, Inv s → S.Disciplined as s → ∃ s', S.run as s = .ok s' ∧ Inv s' := by
  intro as
  induction as with
  | nil => intro s hs _; exact ⟨s, rfl, hs⟩
  | cons a as ih =>
    intro s hs hd
    cases hd with
    | cons hallow hrest =>
      obtain ⟨s₁, hstep, hs₁⟩ := keep a s hs hallow
      obtain ⟨s₂, hrun, hs₂⟩ := ih s₁ hs₁ (hrest s₁ hstep)
      exact ⟨s₂, by rw [run, hstep]; exact hrun, hs₂⟩

/-! ## Refinement -/

inductive SpecRun {τ : Type} (Spec : α → τ → τ → Prop) : List α → τ → τ → Prop
  | nil (t : τ) : SpecRun Spec [] t t
  | cons {a : α} {as : List α} {t t₁ t₂ : τ} :
      Spec a t t₁ → SpecRun Spec as t₁ t₂ → SpecRun Spec (a :: as) t t₂

/-- **Simulation rule.**  If every allowed operation succeeds, is a step of the
specification and keeps the states related, so does every disciplined run. -/
theorem run_of_simulation {τ : Type} {Spec : α → τ → τ → Prop} (Rel : σ → τ → Prop)
    (sim : ∀ a s t, Rel s t → S.Allowed a s →
      ∃ s' t', S.step a s = .ok s' ∧ Spec a t t' ∧ Rel s' t') :
    ∀ as s t, Rel s t → S.Disciplined as s →
      ∃ s' t', S.run as s = .ok s' ∧ SpecRun Spec as t t' ∧ Rel s' t' := by
  intro as
  induction as with
  | nil => intro s t hst _; exact ⟨s, t, rfl, .nil t, hst⟩
  | cons a as ih =>
    intro s t hst hd
    cases hd with
    | cons hallow hrest =>
      obtain ⟨s₁, t₁, hstep, hspec, hst₁⟩ := sim a s t hst hallow
      obtain ⟨s₂, t₂, hrun, hruns, hst₂⟩ := ih s₁ t₁ hst₁ (hrest s₁ hstep)
      exact ⟨s₂, t₂, by rw [run, hstep]; exact hrun, .cons hspec hruns, hst₂⟩

end System

end Runs
