import BbsFfi.Calls
import BbsFfi.Transparent

/-!
# The functions with buffer outputs

Where every output is there, the C function is the Rust function behind its
guards (`producing_refines`).  A call that fails clears its outputs, except
where it leaves early because one of them is null (`stale_outputs_iff`).
-/

namespace BbsFfi.Producing

open BbsFfi.Rust BbsFfi.Backend BbsFfi.Memory BbsFfi.CFfi BbsFfi.Marshal BbsFfi.Exits BbsFfi.Calls
  BbsFfi.Transparent

variable {Z : Zkryptium}

theorem missing_iff (c : ProducingCall Z) :
    c.missing = true ↔ ∃ p ∈ c.guarded, p.data.isNull = true ∨ p.len = 0 := by
  simp only [ProducingCall.missing, List.any_eq_true, absent_iff]

/-- **The C function is the Rust function behind its guards.**  The code is
`InvalidInput` exactly when a mandatory parameter is missing; otherwise it is
`Ok` exactly when the Rust function succeeds, and the outputs then hold its
results.  On every other code the outputs are null buffers; no other slot is
written, and what could be read before can be read after. -/
theorem producing_refines (t : Target) (c : ProducingCall Z) (w : World)
    (hnull : ∀ out ∈ c.outs, out ≠ none) (hdistinct : c.outs.Nodup) :
    ∃ code w', c.run t w = .ok (code, w') ∧
      (code = .InvalidInput ↔ ∃ p ∈ c.guarded, p.data.isNull = true ∨ p.len = 0) ∧
      (code ≠ .InvalidInput →
        (code = .Ok ↔ ∃ vs, c.rust = .ok vs) ∧ (code = c.failed ↔ ∃ e, c.rust = .error e)) ∧
      (code = .Ok → ∃ vs, c.rust = .ok vs ∧ c.outs.map (output w') = vs.map some) ∧
      (code ≠ .Ok → AllNull w' c.outs) ∧
      (∀ slot, some slot ∉ c.outs → w'.buffers slot = w.buffers slot) ∧ w'.ints = w.ints ∧
      (∀ buf v, read w buf = some v → read w' buf = some v) := by
  obtain ⟨code, w', hrun, hhand, hends⟩ := c.spec t hnull hdistinct w
  obtain ⟨hok, hinvalid⟩ := c.failed_ne
  have hcode : code = exitCode c.missing c.rust c.failed := hends.code_eq
  refine ⟨code, w', hrun, ?_, fun hne => ?_, hends.outputs hok, hends.cleared, hhand.others,
    hhand.ints, fun _ _ => hhand.read⟩
  · rw [← missing_iff, hcode, exitCode_eq_invalidInput hinvalid]
  · have hpresent : c.missing = false := by
      rw [hcode, Ne, exitCode_eq_invalidInput hinvalid, Bool.not_eq_true] at hne
      exact hne
    rw [hcode, exitCode_eq_ok hok, exitCode_eq_failed hok hinvalid]
    simp [hpresent]

theorem producing_refines_sign :
    ∃ w', (ProducingCall.sign (Z := transparent) (0 : UInt8) (fun _ => 3) (CSlice.of (spread 32 7))
        (CSlice.of (spread 96 7)) (CSlice.null 0)
        (CSlice.of [CSlice.of [1, 2], CSlice.of [], CSlice.null 0]) (some 4)).run
          (.bits64 false) World.initial = .ok (.Ok, w') ∧
      output w' (some 4) = some (spread 80 10) := by
  obtain ⟨code, w', hrun, hinvalid, hcodes, houts, _⟩ := producing_refines (.bits64 false)
    (ProducingCall.sign (Z := transparent) (0 : UInt8) (fun _ => 3) (CSlice.of (spread 32 7))
      (CSlice.of (spread 96 7)) (CSlice.null 0)
      (CSlice.of [CSlice.of [1, 2], CSlice.of [], CSlice.null 0]) (some 4))
    World.initial (by decide) (by decide)
  have hpresent : code ≠ .InvalidInput := by
    rw [Ne, hinvalid]
    decide
  have hok := (hcodes hpresent).1.mpr ⟨[spread 80 10], by rfl⟩
  obtain ⟨vs, hvs, hread⟩ := houts hok
  cases hvs
  exact ⟨w', by rw [hrun, hok], (List.cons.inj hread).1⟩

/-! ## Stale outputs -/

theorem writeVecs_runs {spare : Nat → Nat} {writes : List (MutPtr × Bytes)}
    (hnull : ∀ p ∈ writes, p.1 ≠ none) (w : World) :
    ∃ w', writeVecs spare writes w = .ok ((), w') ∧
      ∀ p ∈ writes.getLast?, output w' p.1 = some p.2 := by
  induction writes generalizing spare w with
  | nil => exact ⟨w, rfl, nofun⟩
  | cons p writes ih =>
    obtain ⟨out, bytes⟩ := p
    obtain ⟨slot, rfl⟩ := Option.ne_none_iff_exists'.mp (hnull _ List.mem_cons_self)
    obtain ⟨v, w₁, w₂, hvec, hwrite, _, hout⟩ := writeVec_spec slot bytes (spare 0) w
    obtain ⟨w', hrun, hlast⟩ := @ih (fun i => spare (i + 1))
      (fun q hq => hnull q (List.mem_cons_of_mem _ hq)) w₂
    refine ⟨w', (bind_ok hvec).trans ((bind_ok hwrite).trans hrun), ?_⟩
    cases writes with
    | nil =>
      cases hrun
      intro p hp
      cases hp
      exact hout
    | cons q writes => exact hlast

/-- Without a null output a failing call clears all of them, be they distinct
or not; a successful one leaves the last result in the last output. -/
theorem run_ends (t : Target) (c : ProducingCall Z) (w : World)
    (hnull : ∀ out ∈ c.outs, out ≠ none) :
    ∃ w', c.run t w = .ok (c.code, w') ∧ (c.code ≠ .Ok → AllNull w' c.outs) ∧
      (c.code = .Ok → ∃ vs, c.rust = .ok vs ∧
        ∀ p ∈ (c.outs.zip vs).getLast?, output w' p.1 = some p.2) := by
  obtain ⟨spare, call, writes, r, values, hrun, hcall, hrust, hwrites, _⟩ := c.shape t
  have hany : ¬ c.outs.any Option.isNone = true := any_isNone_eq_false hnull
  rw [ProducingCall.code, hrun, hrust, produce, if_neg hany]
  cases hm : c.missing with
  | true =>
    obtain ⟨w', hwrite, _, hnulls⟩ := writeNulls_spec hnull w
    exact ⟨w', bind_ok hwrite, fun _ => hnulls, fun h => by cases h⟩
  | false =>
    obtain ⟨heap, hcallee, _⟩ := callee_of_marshals (hcall hm) w
    cases r with
    | ok v =>
      obtain ⟨w', hwrite, hlast⟩ := @writeVecs_runs spare (writes v)
        (by rw [hwrites]; exact fun p hp => hnull _ (List.of_mem_zip hp).1)
        { w with heap := heap }
      rw [hwrites] at hlast
      exact ⟨w', (bind_ok hcallee).trans (bind_ok hwrite), fun h => absurd rfl h,
        fun _ => ⟨values v, rfl, hlast⟩⟩
    | error e =>
      obtain ⟨w', hwrite, _, hnulls⟩ := writeNulls_spec hnull { w with heap := heap }
      exact ⟨w', (bind_ok hcallee).trans (bind_ok hwrite), fun _ => hnulls,
        fun h => absurd h c.failed_ne.1⟩

/-- **Which calls leave stale outputs.**  A failing call clears the outputs that
are not null exactly when none is null, or they were clear before. -/
theorem stale_outputs_iff (t : Target) (c : ProducingCall Z) (w : World) :
    ∃ code w', c.run t w = .ok (code, w') ∧
      ((code ≠ .Ok → AllNull w' c.outs) ↔ (none ∉ c.outs ∨ AllNull w c.outs)) := by
  by_cases hmem : none ∈ c.outs
  · refine ⟨.InvalidInput, w, c.run_null t hmem w, ?_⟩
    simp [hmem]
  · obtain ⟨w', hrun, hclear, _⟩ :=
      run_ends t c w fun out hout hnone => hmem (hnone ▸ hout)
    exact ⟨c.code, w', hrun, ⟨fun _ => Or.inl hmem, fun _ => hclear⟩⟩

/-- A commitment call with a null `blind_factor_out` fails and leaves the buffer
of an earlier call in the commitment slot. -/
theorem stale_commitment_kept :
    ∃ w', (ProducingCall.commitWithNym (Z := transparent) (0 : UInt8) (fun _ => 0)
        (CSlice.null 0) (CSlice.of (spread 32 5)) (some 0) none).run (.bits64 false)
          { World.initial with buffers := fun _ => ⟨.block 0, 112, 112⟩ }
            = .ok (.InvalidInput, w') ∧ w'.buffers 0 ≠ BbsBuffer.null :=
  ⟨_, rfl, by decide⟩

end BbsFfi.Producing
