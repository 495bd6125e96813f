import BbsFfi.Verifying

/-!
# Protocol steps through either binding

`Done` says that an operation was done with some results, by the Rust function
or by any C call that describes the same values.  Both give the Rust result
(`Done.eval`), what the Rust function accepts every such C call accepts
(`Succeeds.of_eval`, `Accepted.of_eval`), and it does not matter how a call
describes its values (`alike_of_operation_eq`, `alike_of_check_eq`).
-/

namespace BbsFfi.Steps

open BbsFfi.Rust BbsFfi.Backend BbsFfi.Values BbsFfi.Memory BbsFfi.Marshal BbsFfi.Exits BbsFfi.Calls
  BbsFfi.Verifying

/-- A parameter is missing exactly where it stands for the empty string. -/
theorem absent_iff_nil {s : CSlice UInt8} : absent s = true ↔ s.toList = [] := by
  constructor
  · exact toList_of_absent
  · obtain ⟨data, len, valid⟩ := s
    cases data with
    | null => exact fun _ => rfl
    | addr mem =>
      intro h
      have hlen : (mem.take len).length = len := List.length_take_of_le (valid mem rfl)
      have hzero : len = 0 := by rw [← hlen, show mem.take len = [] from h, List.length_nil]
      exact absent_iff.mpr (Or.inr hzero)

theorem absent_eq_isEmpty (s : CSlice UInt8) : absent s = s.toList.isEmpty := by
  rw [Bool.eq_iff_iff, absent_iff_nil, List.isEmpty_iff]

/-! ## Operations -/

variable {Z : Zkryptium}

theorem missing_eq_isEmpty (c : ProducingCall Z) :
    c.missing = c.operation.guarded.any List.isEmpty := by
  cases c <;>
    simp only [ProducingCall.missing, ProducingCall.guarded, ProducingCall.operation,
      Operation.guarded, List.any_cons, List.any_nil, absent_eq_isEmpty]

/-- The operation was done, in Rust or in C, with results `vs`. -/
inductive Done (op : Operation Z) (vs : List Bytes) : Prop
  | rust : op.eval = .ok vs → Done op vs
  | c (t : Target) (call : ProducingCall Z) (w w' : World) : call.operation = op →
      (∀ out ∈ call.outs, out ≠ none) → call.outs.Nodup →
      call.run t w = .ok (.Ok, w') → call.outs.map (output w') = vs.map some → Done op vs

theorem Done.eval {op : Operation Z} {vs : List Bytes} (h : Done op vs) : op.eval = .ok vs := by
  rcases h with h | ⟨t, call, w, w', rfl, hnull, hdistinct, hrun, houts⟩
  · exact h
  · obtain ⟨code, w₁, hrun', _, hends⟩ := call.spec t hnull hdistinct w
    cases hrun'.symm.trans hrun
    obtain ⟨vs', hrust, houts'⟩ := hends.outputs call.failed_ne.1 rfl
    have heq : vs'.map some = vs.map some := houts'.symm.trans houts
    rw [← List.map_injective_iff.mpr (Option.some_injective _) heq]
    exact hrust

/-- The operation succeeds with results `vs`, in Rust and in every C call. -/
structure Succeeds (op : Operation Z) (vs : List Bytes) : Prop where
  rust : op.eval = .ok vs
  c : ∀ (t : Target) (call : ProducingCall Z) w, call.operation = op →
    (∀ out ∈ call.outs, out ≠ none) → call.outs.Nodup →
    ∃ w', call.run t w = .ok (.Ok, w') ∧ call.outs.map (output w') = vs.map some

theorem Succeeds.of_eval {op : Operation Z} {vs : List Bytes} (h : op.eval = .ok vs)
    (hguards : ∀ b ∈ op.guarded, b ≠ []) : Succeeds op vs where
  rust := h
  c t call w hop hnull hdistinct := by
    subst hop
    have hm : call.missing = false := by
      rw [missing_eq_isEmpty, Bool.eq_false_iff, Ne, List.any_eq_true]
      rintro ⟨b, hb, hempty⟩
      exact hguards b hb (List.isEmpty_iff.mp hempty)
    obtain ⟨code, w', hrun, _, hends⟩ := call.spec t hnull hdistinct w
    rw [hm, ProducingCall.rust, h] at hends
    obtain ⟨rfl, houts⟩ := hends
    exact ⟨w', hrun, houts⟩

theorem failed_eq {c c' : ProducingCall Z} (h : c.operation = c'.operation) :
    c.failed = c'.failed := by
  cases c <;> cases c' <;> first | rfl | cases h

/-- Both calls end with one code: with the same results, or all outputs cleared. -/
def Alike (t : Target) (c c' : ProducingCall Z) : Prop :=
  ∀ w w', ∃ code w₁ w₂, c.run t w = .ok (code, w₁) ∧ c'.run t w' = .ok (code, w₂) ∧
    (code = .Ok → c.outs.map (output w₁) = c'.outs.map (output w₂)) ∧
    (code ≠ .Ok → AllNull w₁ c.outs ∧ AllNull w₂ c'.outs)

theorem alike_of_operation_eq (t : Target) {c c' : ProducingCall Z}
    (h : c.operation = c'.operation) (hnull : ∀ out ∈ c.outs, out ≠ none)
    (hdistinct : c.outs.Nodup) (hnull' : ∀ out ∈ c'.outs, out ≠ none)
    (hdistinct' : c'.outs.Nodup) : Alike t c c' := by
  intro w w'
  obtain ⟨code, w₁, hrun, _, hends⟩ := c.spec t hnull hdistinct w
  obtain ⟨code', w₂, hrun', _, hends'⟩ := c'.spec t hnull' hdistinct' w'
  rw [missing_eq_isEmpty, ProducingCall.rust, h, failed_eq h] at hends
  rw [missing_eq_isEmpty, ProducingCall.rust] at hends'
  obtain rfl : code = code' := hends.code_eq.trans hends'.code_eq.symm
  refine ⟨code, w₁, w₂, hrun, hrun', fun hok => ?_, fun hne => ?_⟩
  · obtain ⟨vs, hvs, houts⟩ := hends.outputs c'.failed_ne.1 hok
    obtain ⟨vs', hvs', houts'⟩ := hends'.outputs c'.failed_ne.1 hok
    cases hvs.symm.trans hvs'
    exact houts.trans houts'.symm
  · exact ⟨hends.cleared hne, hends'.cleared hne⟩

/-! ## Checks -/

theorem present_iff_check (c : VerifyingCall Z) :
    Present c ↔ ∀ b ∈ c.check.guarded, b ≠ [] := by
  rw [← missing_eq_false]
  cases c <;>
    simp [VerifyingCall.missing, VerifyingCall.guarded, VerifyingCall.check, Check.guarded,
      absent_eq_isEmpty]

/-- The check comes out true, in Rust and in every C call. -/
structure Accepted (Z : Zkryptium) (chk : Check) : Prop where
  rust : chk.eval Z = .ok true
  c : ∀ (t : Target) (call : VerifyingCall Z) slot w, call.check = chk →
    call.validOut = some slot → ∃ w', call.run t w = .ok (.Ok, w') ∧ w'.ints slot = 1

theorem Accepted.of_eval {chk : Check} (h : chk.eval Z = .ok true)
    (hguards : ∀ b ∈ chk.guarded, b ≠ []) : Accepted Z chk where
  rust := h
  c t call slot w hchk hslot := by
    subst hchk
    have hpresent : Present call := (present_iff_check call).mpr hguards
    obtain ⟨code, n, heap, hrun, _, hjudged⟩ := call.spec t hslot w
    rw [missing_eq_false.mpr hpresent, VerifyingCall.rust, h] at hjudged
    obtain ⟨rfl, rfl⟩ := hjudged
    exact ⟨_, hrun, Function.update_self ..⟩

theorem verdict_failed_eq {c c' : VerifyingCall Z} (h : c.check = c'.check) :
    c.failed = c'.failed := by
  cases c <;> cases c' <;> first | rfl | cases h

/-- Calls that describe the same values give one code and one verdict. -/
theorem alike_of_check_eq (t : Target) {c c' : VerifyingCall Z} (h : c.check = c'.check)
    {slot slot' : Nat} (hslot : c.validOut = some slot) (hslot' : c'.validOut = some slot')
    (w w' : World) :
    ∃ code w₁ w₂, c.run t w = .ok (code, w₁) ∧ c'.run t w' = .ok (code, w₂) ∧
      w₁.ints slot = w₂.ints slot' := by
  obtain ⟨code, n, heap, hrun, _, hjudged⟩ := c.spec t hslot w
  obtain ⟨code', n', heap', hrun', _, hjudged'⟩ := c'.spec t hslot' w'
  have hmissing : c.missing = c'.missing := by
    rw [Bool.eq_iff_iff, ← not_iff_not, Bool.not_eq_true, Bool.not_eq_true, missing_eq_false,
      missing_eq_false, present_iff_check, present_iff_check, h]
  rw [hmissing, VerifyingCall.rust, h, verdict_failed_eq h] at hjudged
  obtain ⟨rfl, rfl⟩ := hjudged.unique hjudged'
  refine ⟨code, _, _, hrun, hrun', ?_⟩
  show Function.update w.ints slot n slot = Function.update w'.ints slot' n slot'
  rw [Function.update_self, Function.update_self]

end BbsFfi.Steps
