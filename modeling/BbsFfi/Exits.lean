import BbsFfi.Marshal

/-!
# What the exits of a C function leave behind

`Handed outs w w'`: between `w` and `w'` only the slots `outs` were written, and
the heap grew by the blocks of the buffers now in them.  Every exit of a
function with buffer outputs is of this kind when no output is null
(`produce_spec`); with a null output nothing happens (`produce_null`).  The
functions with a verdict write `valid_out` and nothing else (`verdict_spec`).
-/

namespace BbsFfi.Exits

open BbsFfi.Rust BbsFfi.Backend BbsFfi.Memory BbsFfi.CFfi BbsFfi.Marshal Ledgers

/-! ## Buffers and the blocks behind them -/

/-- The block a buffer owns, if it owns one. -/
def owned (buf : BbsBuffer) : List (Nat × Layout) :=
  match buf.data with
  | .block id => if buf.cap = 0 then [] else [(id, bytesLayout buf.cap)]
  | _ => []

/-- A buffer as the crate hands it out: null, or with its capacity allocated and its
length initialised. -/
structure Sound (w : World) (buf : BbsBuffer) : Prop where
  dangling : buf.data = .dangling → buf.len = 0 ∧ buf.cap = 0
  block : ∀ id, buf.data = .block id →
    0 < buf.cap ∧ buf.len ≤ buf.cap ∧ buf.len ≤ (w.contents id).length

theorem sound_null (w : World) : Sound w BbsBuffer.null := ⟨nofun, nofun⟩

/-- A buffer stays sound while its bytes stay. -/
theorem Sound.kept {w w' : World} {buf : BbsBuffer} (h : Sound w buf)
    (hcontents : ∀ id, buf.data = .block id → w'.contents id = w.contents id) : Sound w' buf where
  dangling := h.dangling
  block id hdata := by
    rw [hcontents id hdata]
    exact h.block id hdata

theorem Sound.owned_eq {w : World} {buf : BbsBuffer} (h : Sound w buf) {id : Nat}
    (hdata : buf.data = .block id) : owned buf = [(id, bytesLayout buf.cap)] := by
  have hcap := (h.block id hdata).1
  rw [owned, hdata]
  exact if_neg (Nat.ne_of_gt hcap)

/-- The bytes of a buffer; none behind a null pointer or a released block. -/
def read (w : World) (buf : BbsBuffer) : Option Bytes :=
  match buf.data with
  | .null => none
  | .dangling => some []
  | .block id =>
    if w.heap.live.lookup id = some (bytesLayout buf.cap) then
      some ((w.contents id).take buf.len)
    else none

theorem read_block_iff {w : World} {id len cap : Nat} {v : Bytes} :
    read w ⟨.block id, len, cap⟩ = some v ↔
      w.heap.live.lookup id = some (bytesLayout cap) ∧ (w.contents id).take len = v := by
  simp only [read, Option.ite_none_right_eq_some, Option.some.injEq]

/-- The bytes in an output. -/
def output (w : World) (out : MutPtr) : Option Bytes :=
  out.bind fun slot => read w (w.buffers slot)

/-- The buffers in the outputs that are not null. -/
def received (w : World) (outs : List MutPtr) : List BbsBuffer :=
  outs.filterMap fun out => out.map w.buffers

def AllNull (w : World) (outs : List MutPtr) : Prop :=
  ∀ slot, some slot ∈ outs → w.buffers slot = BbsBuffer.null

theorem mem_received {w : World} {outs : List MutPtr} {buf : BbsBuffer} :
    buf ∈ received w outs ↔ ∃ slot, some slot ∈ outs ∧ w.buffers slot = buf := by
  simp only [received, List.mem_filterMap]
  constructor
  · rintro ⟨out, hout, hbuf⟩
    obtain ⟨slot, rfl, rfl⟩ := Option.map_eq_some_iff.mp hbuf
    exact ⟨slot, hout, rfl⟩
  · rintro ⟨slot, hslot, rfl⟩
    exact ⟨some slot, hslot, rfl⟩

theorem received_of_allNull {w : World} {outs : List MutPtr} (h : AllNull w outs) :
    (received w outs).flatMap owned = [] := by
  rw [List.flatMap_eq_nil_iff]
  intro buf hbuf
  obtain ⟨slot, hslot, rfl⟩ := mem_received.mp hbuf
  rw [h slot hslot]
  rfl

/-- What a call has handed out through `outs`. -/
structure Handed (outs : List MutPtr) (w w' : World) : Prop where
  ints : w'.ints = w.ints
  others : ∀ slot, some slot ∉ outs → w'.buffers slot = w.buffers slot
  sound : ∀ slot, some slot ∈ outs → Sound w' (w'.buffers slot)
  holdings : w'.heap.holdings = ↑((received w' outs).flatMap owned) + w.heap.holdings
  contents : ∀ id layout, (id, layout) ∈ w.heap.holdings → w'.contents id = w.contents id

/-- What could be read before can still be read. -/
theorem Handed.read {outs : List MutPtr} {w w' : World} (h : Handed outs w w') {buf : BbsBuffer}
    {v : Bytes} (hv : read w buf = some v) : read w' buf = some v := by
  obtain ⟨data, len, cap⟩ := buf
  cases data with
  | null => cases hv
  | dangling => exact hv
  | block id =>
    obtain ⟨hlive, htake⟩ := read_block_iff.mp hv
    have hmem := Ledger.mem_holdings.mpr hlive
    have hmem' : (id, bytesLayout cap) ∈ w'.heap.holdings := by
      rw [h.holdings]
      exact Multiset.mem_add.mpr (Or.inr hmem)
    refine read_block_iff.mpr ⟨Ledger.mem_holdings.mp hmem', ?_⟩
    rw [h.contents id _ hmem, htake]

/-- The block of a buffer handed out is live. -/
theorem Handed.live {outs : List MutPtr} {w w' : World} (h : Handed outs w w') {slot id : Nat}
    (hslot : some slot ∈ outs) (hdata : (w'.buffers slot).data = .block id) :
    (id, bytesLayout (w'.buffers slot).cap) ∈ w'.heap.holdings := by
  rw [h.holdings]
  refine Multiset.mem_add.mpr (Or.inl (List.mem_flatMap.mpr ?_))
  refine ⟨w'.buffers slot, mem_received.mpr ⟨slot, hslot, rfl⟩, ?_⟩
  rw [(h.sound slot hslot).owned_eq hdata]
  exact List.mem_singleton.mpr rfl

theorem Handed.cons {slot : Nat} {outs : List MutPtr} {w w₁ w₂ : World}
    (h : Handed [some slot] w w₁) (h' : Handed outs w₁ w₂) (hnew : some slot ∉ outs) :
    Handed (some slot :: outs) w w₂ where
  ints := h'.ints.trans h.ints
  others s hs := by
    rw [List.mem_cons, not_or] at hs
    rw [h'.others s hs.2, h.others s (by simpa using hs.1)]
  sound s hs := by
    rcases List.mem_cons.mp hs with heq | hs
    · cases heq
      have hmem : some slot ∈ [some slot] := List.mem_singleton.mpr rfl
      rw [h'.others slot hnew]
      exact (h.sound slot hmem).kept fun id hdata => h'.contents id _ (h.live hmem hdata)
    · exact h'.sound s hs
  holdings := by
    have hkept : received w₁ [some slot] = [w₂.buffers slot] := by
      rw [h'.others slot hnew]
      rfl
    rw [h'.holdings, h.holdings, hkept, ← add_assoc]
    congr 1
    show _ = (↑((w₂.buffers slot :: received w₂ outs).flatMap owned) : Multiset (Nat × Layout))
    rw [List.flatMap_cons, ← Multiset.coe_add, add_comm]
    simp
  contents id layout hmem := by
    have hmem₁ : (id, layout) ∈ w₁.heap.holdings := by
      rw [h.holdings]
      exact Multiset.mem_add.mpr (Or.inr hmem)
    rw [h'.contents id layout hmem₁, h.contents id layout hmem]

/-- A marshalled call before the writes changes only the bookkeeping. -/
theorem Handed.of_heap {outs : List MutPtr} {w w' : World} {heap : Ledger Layout}
    (hheap : heap.holdings = w.heap.holdings) (h : Handed outs { w with heap := heap } w') :
    Handed outs w w' where
  ints := h.ints
  others := h.others
  sound := h.sound
  holdings := by rw [h.holdings, hheap]
  contents id layout hmem := h.contents id layout (by rw [hheap]; exact hmem)

/-! ## Writing the outputs -/

theorem writeBuffer_some (slot : Nat) (buf : BbsBuffer) (w : World) :
    writeBuffer (some slot) buf w
      = .ok ((), { w with buffers := Function.update w.buffers slot buf }) := rfl

theorem writeNulls_spec {outs : List MutPtr} (hnull : ∀ out ∈ outs, out ≠ none) (w : World) :
    ∃ w', writeNulls outs w = .ok ((), w') ∧ Handed outs w w' ∧ AllNull w' outs := by
  suffices ∃ buffers, writeNulls outs w = .ok ((), { w with buffers := buffers }) ∧
      (∀ slot, some slot ∈ outs → buffers slot = BbsBuffer.null) ∧
      ∀ slot, some slot ∉ outs → buffers slot = w.buffers slot by
    obtain ⟨buffers, hrun, hin, hout⟩ := this
    refine ⟨_, hrun, ⟨rfl, hout, fun slot hs => ?_, ?_, fun _ _ _ => rfl⟩, hin⟩
    · show Sound _ (buffers slot)
      rw [hin slot hs]
      exact sound_null _
    · rw [received_of_allNull (w := { w with buffers := buffers }) hin]
      simp
  induction outs generalizing w with
  | nil => exact ⟨w.buffers, rfl, nofun, fun _ _ => rfl⟩
  | cons out outs ih =>
    obtain ⟨slot, rfl⟩ := Option.ne_none_iff_exists'.mp (hnull out List.mem_cons_self)
    obtain ⟨buffers, hrun, hin, hout⟩ := ih (fun o ho => hnull o (List.mem_cons_of_mem _ ho))
      { w with buffers := Function.update w.buffers slot BbsBuffer.null }
    refine ⟨buffers, (bind_ok (writeBuffer_some slot _ w)).trans hrun, fun s hs => ?_,
      fun s hs => ?_⟩
    · by_cases hmem : some s ∈ outs
      · exact hin s hmem
      · obtain rfl : s = slot := by simpa [hmem] using hs
        rw [hout s hmem]
        exact Function.update_self ..
    · rw [List.mem_cons, not_or] at hs
      rw [hout s hs.2]
      exact Function.update_of_ne (by simpa using hs.1) ..

/-- One `Vec` handed out. -/
theorem writeVec_spec (slot : Nat) (bytes : Bytes) (spare : Nat) (w : World) :
    ∃ v w₁ w', newVec bytes spare w = .ok (v, w₁) ∧
      writeBuffer (some slot) (BbsBuffer.fromVec v) w₁ = .ok ((), w') ∧
      Handed [some slot] w w' ∧ output w' (some slot) = some bytes := by
  by_cases hcap : bytes.length + spare = 0
  · have hnil : bytes = [] := List.eq_nil_of_length_eq_zero (by omega)
    refine ⟨_, _, _, by rw [newVec, if_pos hcap]; rfl, rfl,
      ⟨rfl, fun s hs => ?_, fun s hs => ?_, ?_, fun _ _ _ => rfl⟩, ?_⟩
    · exact Function.update_of_ne (by simpa using hs) ..
    · obtain rfl : s = slot := by simpa using hs
      show Sound _ (Function.update w.buffers s _ s)
      rw [Function.update_self]
      exact ⟨fun _ => ⟨rfl, rfl⟩, nofun⟩
    · simp [received, owned, BbsBuffer.fromVec]
    · simp [output, Exits.read, BbsBuffer.fromVec, hnil]
  · refine ⟨⟨.block w.heap.next, bytes.length, bytes.length + spare⟩,
      { w with heap := w.heap.acquire (bytesLayout (bytes.length + spare))
               contents := Function.update w.contents w.heap.next bytes }, _,
      by rw [newVec, if_neg hcap]; rfl, rfl, ⟨rfl, fun s hs => ?_, fun s hs => ?_, ?_,
      fun id layout hmem => ?_⟩, ?_⟩
    · exact Function.update_of_ne (by simpa using hs) ..
    · obtain rfl : s = slot := by simpa using hs
      show Sound _ (Function.update w.buffers s _ s)
      rw [Function.update_self]
      refine ⟨nofun, ?_⟩
      rintro _ ⟨⟩
      refine ⟨Nat.pos_of_ne_zero hcap, Nat.le_add_right .., ?_⟩
      show bytes.length ≤ (Function.update w.contents w.heap.next bytes w.heap.next).length
      rw [Function.update_self]
    · have hown : owned (BbsBuffer.fromVec
            ⟨.block w.heap.next, bytes.length, bytes.length + spare⟩)
          = [(w.heap.next, bytesLayout (bytes.length + spare))] := if_neg hcap
      simp [received, hown, Ledger.holdings_acquire]
    · exact Function.update_of_ne (Nat.ne_of_lt (Ledger.lt_next_of_mem hmem)) ..
    · simp [output, Exits.read, BbsBuffer.fromVec, Ledger.acquire, Finmap.lookup_insert]

theorem writeVecs_spec {outs : List MutPtr} (hnull : ∀ out ∈ outs, out ≠ none)
    (hdistinct : outs.Nodup) {vs : List Bytes} (hlen : vs.length = outs.length)
    (spare : Nat → Nat) (w : World) :
    ∃ w', writeVecs spare (outs.zip vs) w = .ok ((), w') ∧ Handed outs w w' ∧
      outs.map (output w') = vs.map some := by
  induction outs generalizing vs spare w with
  | nil =>
    obtain rfl : vs = [] := List.eq_nil_of_length_eq_zero hlen
    exact ⟨w, rfl, ⟨rfl, fun _ _ => rfl, nofun, by simp [received], fun _ _ _ => rfl⟩, rfl⟩
  | cons out outs ih =>
    obtain ⟨slot, rfl⟩ := Option.ne_none_iff_exists'.mp (hnull out List.mem_cons_self)
    obtain ⟨hnew, hdistinct'⟩ := List.nodup_cons.mp hdistinct
    cases vs with
    | nil => cases hlen
    | cons bytes vs =>
      obtain ⟨v, w₁, w₂, hvec, hwrite, hhand, hout⟩ := writeVec_spec slot bytes (spare 0) w
      obtain ⟨w', hrun, hhand', houts⟩ := ih (fun o ho => hnull o (List.mem_cons_of_mem _ ho))
        hdistinct' (Nat.succ.inj hlen) (fun i => spare (i + 1)) w₂
      refine ⟨w', (bind_ok hvec).trans ((bind_ok hwrite).trans hrun), hhand.cons hhand' hnew, ?_⟩
      have hkept : output w' (some slot) = some bytes := by
        show read w' (w'.buffers slot) = some bytes
        rw [hhand'.others slot hnew]
        exact hhand'.read hout
      rw [List.map_cons, List.map_cons, hkept, houts]

/-! ## The two shapes -/

/-- How a function with buffer outputs ends in `w'`, given its guards and the
result `r` of the wrapped call. -/
def Produced (outs : List MutPtr) (missing : Bool) (r : Except FfiError (List Bytes))
    (failed code : BbsFfiResult) (w' : World) : Prop :=
  match missing, r with
  | true, _ => code = .InvalidInput ∧ AllNull w' outs
  | false, .ok vs => code = .Ok ∧ outs.map (output w') = vs.map some
  | false, .error _ => code = failed ∧ AllNull w' outs

/-- How a function with a verdict ends, `n` being what it writes. -/
def Judged (missing : Bool) (r : Except FfiError Bool) (failed code : BbsFfiResult) (n : Int32) :
    Prop :=
  match missing, r with
  | true, _ => code = .InvalidInput ∧ n = 0
  | false, .ok valid => code = .Ok ∧ n = if valid then 1 else 0
  | false, .error _ => code = failed ∧ n = 0

/-- The code of a call whose outputs are there. -/
def exitCode {ρ : Type} (missing : Bool) (r : Except FfiError ρ) (failed : BbsFfiResult) :
    BbsFfiResult :=
  match missing, r with
  | true, _ => .InvalidInput
  | false, .ok _ => .Ok
  | false, .error _ => failed

section ExitCode

variable {ρ : Type} {missing : Bool} {r : Except FfiError ρ} {failed : BbsFfiResult}

theorem exitCode_eq_invalidInput (h : failed ≠ .InvalidInput) :
    exitCode missing r failed = .InvalidInput ↔ missing = true := by
  cases missing with
  | true => simp [exitCode]
  | false => cases r <;> simp [exitCode, h]

theorem exitCode_eq_ok (h : failed ≠ .Ok) :
    exitCode missing r failed = .Ok ↔ missing = false ∧ ∃ v, r = .ok v := by
  cases missing with
  | true => simp [exitCode]
  | false => cases r <;> simp [exitCode, h]

theorem exitCode_eq_failed (hok : failed ≠ .Ok) (hinvalid : failed ≠ .InvalidInput) :
    exitCode missing r failed = failed ↔ missing = false ∧ ∃ e, r = .error e := by
  cases missing with
  | true => simp [exitCode, hinvalid.symm]
  | false => cases r <;> simp [exitCode, hok.symm]

end ExitCode

section Produced

variable {outs : List MutPtr} {missing : Bool} {r : Except FfiError (List Bytes)}
  {failed code : BbsFfiResult} {w' : World}

theorem Produced.code_eq (h : Produced outs missing r failed code w') :
    code = exitCode missing r failed := by
  cases missing with
  | true => exact h.1
  | false =>
    cases r with
    | ok vs => exact h.1
    | error e => exact h.1

theorem Produced.outputs (h : Produced outs missing r failed code w') (hfailed : failed ≠ .Ok)
    (hok : code = .Ok) : ∃ vs, r = .ok vs ∧ outs.map (output w') = vs.map some := by
  obtain ⟨rfl, vs, rfl⟩ := (exitCode_eq_ok hfailed).mp (h.code_eq.symm.trans hok)
  exact ⟨vs, rfl, h.2⟩

theorem Produced.cleared (h : Produced outs missing r failed code w') (hne : code ≠ .Ok) :
    AllNull w' outs := by
  cases missing with
  | true => exact h.2
  | false =>
    cases r with
    | ok vs => exact absurd h.1 hne
    | error e => exact h.2

end Produced

theorem Judged.code_eq {missing : Bool} {r : Except FfiError Bool} {failed code : BbsFfiResult}
    {n : Int32} (h : Judged missing r failed code n) : code = exitCode missing r failed := by
  cases missing with
  | true => exact h.1
  | false =>
    cases r with
    | ok valid => exact h.1
    | error e => exact h.1

theorem Judged.unique {missing : Bool} {r : Except FfiError Bool}
    {failed code code' : BbsFfiResult} {n n' : Int32} (h : Judged missing r failed code n)
    (h' : Judged missing r failed code' n') : code = code' ∧ n = n' := by
  cases missing with
  | true => exact ⟨h.1.trans h'.1.symm, h.2.trans h'.2.symm⟩
  | false =>
    cases r with
    | ok valid => exact ⟨h.1.trans h'.1.symm, h.2.trans h'.2.symm⟩
    | error e => exact ⟨h.1.trans h'.1.symm, h.2.trans h'.2.symm⟩

section Shapes

variable {ρ : Type} {spare : Nat → Nat} {outs : List MutPtr} {missing : Bool}
  {writes : ρ → List (MutPtr × Bytes)} {failed : BbsFfiResult}

/-- With a null output nothing is written. -/
theorem produce_null {call : MarshalM (Except FfiError ρ)} (h : none ∈ outs) (w : World) :
    produce spare outs missing call writes failed w = .ok (.InvalidInput, w) := by
  rw [produce, if_pos (List.any_eq_true.mpr ⟨none, h, rfl⟩)]
  rfl

theorem any_isNone_eq_false (hnull : ∀ out ∈ outs, out ≠ none) :
    ¬ outs.any Option.isNone = true := by
  rw [List.any_eq_true]
  rintro ⟨out, hmem, hnone⟩
  exact hnull out hmem (Option.isNone_iff_eq_none.mp hnone)

theorem handOver_spec {call : MarshalM (Except FfiError ρ)} {r : Except FfiError ρ}
    {values : ρ → List Bytes} (hcall : Marshals call r) (hnull : ∀ out ∈ outs, out ≠ none)
    (hdistinct : outs.Nodup) (hwrites : ∀ v, writes v = outs.zip (values v))
    (hlen : ∀ v, (values v).length = outs.length) (w : World) :
    ∃ code w', handOver spare outs call writes failed w = .ok (code, w') ∧ Handed outs w w' ∧
      Produced outs false (r.map values) failed code w' := by
  obtain ⟨heap, hrun, hheap⟩ := callee_of_marshals hcall w
  cases r with
  | ok v =>
    obtain ⟨w', hwrite, hhand, houts⟩ :=
      writeVecs_spec hnull hdistinct (hlen v) spare { w with heap := heap }
    refine ⟨.Ok, w', ?_, hhand.of_heap hheap, rfl, houts⟩
    rw [← hwrites] at hwrite
    exact (bind_ok hrun).trans (bind_ok hwrite)
  | error e =>
    obtain ⟨w', hwrite, hhand, hnulls⟩ := writeNulls_spec hnull { w with heap := heap }
    exact ⟨failed, w', (bind_ok hrun).trans (bind_ok hwrite), hhand.of_heap hheap, rfl, hnulls⟩

/-- **The exits with all outputs there.** -/
theorem produce_spec {call : MarshalM (Except FfiError ρ)} {r : Except FfiError ρ}
    {values : ρ → List Bytes} (hcall : missing = false → Marshals call r)
    (hnull : ∀ out ∈ outs, out ≠ none) (hdistinct : outs.Nodup)
    (hwrites : ∀ v, writes v = outs.zip (values v))
    (hlen : ∀ v, (values v).length = outs.length) (w : World) :
    ∃ code w', produce spare outs missing call writes failed w = .ok (code, w') ∧
      Handed outs w w' ∧ Produced outs missing (r.map values) failed code w' := by
  rw [produce, if_neg (any_isNone_eq_false hnull)]
  cases missing with
  | true =>
    obtain ⟨w', hwrite, hhand, hnulls⟩ := writeNulls_spec hnull w
    exact ⟨.InvalidInput, w', bind_ok hwrite, hhand, rfl, hnulls⟩
  | false => exact handOver_spec (hcall rfl) hnull hdistinct hwrites hlen w

/-- **The exits of a function with a verdict.** -/
theorem verdict_spec {call : MarshalM (Except FfiError Bool)} {r : Except FfiError Bool}
    (hcall : missing = false → Marshals call r) (slot : Nat) (w : World) :
    ∃ code n heap, verdict (some slot) missing call failed w
        = .ok (code, { w with heap := heap, ints := Function.update w.ints slot n }) ∧
      heap.holdings = w.heap.holdings ∧ Judged missing r failed code n := by
  cases missing with
  | true => exact ⟨.InvalidInput, 0, w.heap, rfl, rfl, rfl, rfl⟩
  | false =>
    obtain ⟨heap, hrun, hheap⟩ := callee_of_marshals (hcall rfl) w
    cases r with
    | ok valid => exact ⟨.Ok, _, heap, bind_ok hrun, hheap, rfl, rfl⟩
    | error e => exact ⟨failed, 0, heap, bind_ok hrun, hheap, rfl, rfl⟩

end Shapes

end BbsFfi.Exits
