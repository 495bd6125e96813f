import BbsFfi.Bindings

/-!
# What reaches the Rust functions

A call that passes its guards reads its parameters and then applies its Rust
function to the arguments read (`HandsOver`), which are everything that is stored
behind the pointers it was given.  The length declared with a null pointer counts
for nothing: outside the guarded parameters such a pointer is read as the empty
value, so a call hands over all that was declared exactly when its null pointers
declare nothing (`handed_over`).
-/

namespace BbsFfi.HandedOver

open BbsFfi.Rust BbsFfi.Backend BbsFfi.Memory BbsFfi.CFfi BbsFfi.Marshal BbsFfi.Exits
  BbsFfi.Params BbsFfi.Calls BbsFfi.Bindings BbsFfi.Transparent

/-! ## Sizes -/

/-- How many elements there are behind a pointer, the declared ones unless it is
null. -/
def stored {α : Type} (s : CSlice α) : Nat := if s.data.isNull then 0 else s.len

def NullIsEmpty {α : Type} (s : CSlice α) : Prop := s.data.isNull = true → s.len = 0

theorem toList_length {α : Type} (s : CSlice α) : s.toList.length = stored s := by
  obtain ⟨data, len, valid⟩ := s
  cases data with
  | null => rfl
  | addr mem => exact List.length_take_of_le (valid mem rfl)

theorem stored_eq_len {α : Type} {s : CSlice α} : stored s = s.len ↔ NullIsEmpty s := by
  unfold stored NullIsEmpty
  split
  case isTrue h => simp [h, eq_comm]
  case isFalse h => simp [h]

/-- The declared number of elements, unless it is declared with a null pointer. -/
theorem length_eq_len {α : Type} {s : CSlice α} : s.toList.length = s.len ↔ NullIsEmpty s := by
  rw [toList_length, stored_eq_len]

/-- The argument has the size of its parameter, and so has each of its messages. -/
def Sized (size : ∀ {α : Type}, CSlice α → Nat) : (p : Param) → p.Value → Prop
  | .required s, v => v.length = size s
  | .optional s, v => v.length = size s
  | .messages msgs, v =>
    v.length = size msgs ∧ List.Forall₂ (fun b m => b.length = size m) v msgs.toList
  | .indices arr, v => v.length = size arr

def AllSized (size : ∀ {α : Type}, CSlice α → Nat) : (ps : List Param) → Args ps → Prop
  | [], _ => True
  | p :: ps, (v, vs) => Sized size p v ∧ AllSized size ps vs

/-- No null pointer in the parameter declares anything. -/
def NothingBehindNull : Param → Prop
  | .required s => NullIsEmpty s
  | .optional s => NullIsEmpty s
  | .messages msgs => NullIsEmpty msgs ∧ ∀ m ∈ msgs.toList, NullIsEmpty m
  | .indices arr => NullIsEmpty arr

theorem allSized_values {size : ∀ {α : Type}, CSlice α → Nat} {ps : List Param} :
    AllSized size ps (values ps) ↔ ∀ p ∈ ps, Sized size p p.value := by
  induction ps with
  | nil => simp [AllSized]
  | cons p ps ih =>
    rw [List.forall_mem_cons, ← ih]
    rfl

theorem forall₂_messagesOf (size : ∀ {α : Type}, CSlice α → Nat) {msgs : CSlice BbsMessage} :
    List.Forall₂ (fun b m => b.length = size m) (messagesOf msgs) msgs.toList ↔
      ∀ m ∈ msgs.toList, stored m = size m := by
  rw [messagesOf, List.forall₂_map_left_iff, List.forall₂_same]
  simp only [toList_length]

theorem messagesOf_length (msgs : CSlice BbsMessage) : (messagesOf msgs).length = stored msgs := by
  rw [messagesOf, List.length_map, toList_length]

theorem sized_stored (p : Param) : Sized stored p p.value := by
  cases p with
  | required s => exact toList_length s
  | optional s => exact toList_length s
  | messages msgs => exact ⟨messagesOf_length msgs, (forall₂_messagesOf stored).mpr fun _ _ => rfl⟩
  | indices arr => exact toList_length arr

theorem sized_len_iff (p : Param) : Sized CSlice.len p p.value ↔ NothingBehindNull p := by
  cases p with
  | required s => exact length_eq_len
  | optional s => exact length_eq_len
  | messages msgs =>
    have hcount : (messagesOf msgs).length = msgs.len ↔ NullIsEmpty msgs := by
      rw [messagesOf_length, stored_eq_len]
    have hlens : List.Forall₂ (fun b m => b.length = m.len) (messagesOf msgs) msgs.toList ↔
        ∀ m ∈ msgs.toList, NullIsEmpty m := by
      rw [forall₂_messagesOf CSlice.len]
      simp only [stored_eq_len]
    exact and_congr hcount hlens
  | indices arr => exact length_eq_len

/-! ## What a call hands over -/

variable {Z : Zkryptium}

/-- What becomes of the result of the Rust function. -/
def finish (c : ProducingCall Z) : Except FfiError (List Bytes) → FfiM BbsFfiResult
  | .ok vs => do
    writeVecs c.spare (c.outs.zip vs)
    return .Ok
  | .error _ => do
    writeNulls c.outs
    return c.failed

def finishVerdict (c : VerifyingCall Z) : Except FfiError Bool → FfiM BbsFfiResult
  | .ok valid => do
    writeInt c.validOut (if valid then 1 else 0)
    return .Ok
  | .error _ => do
    writeInt c.validOut 0
    return c.failed

/-- The Rust function on `args`, and what becomes of its result. -/
def conclude : (c : Call Z) → Args c.params → FfiM BbsFfiResult
  | .producing c, args => finish c (c.operationOn args).eval
  | .verifying c, args => finishVerdict c ((c.checkOn args).eval Z)

/-- Called on `w`, the C function reads `args` and goes on as the Rust function on
these says. -/
def HandsOver (t : Target) (c : Call Z) (w : World) (args : Args c.params) : Prop :=
  ∃ w₁, callee (withArgs t c.params pure) w = .ok (args, w₁) ∧ c.run t w = conclude c args w₁

/-- No mandatory parameter is missing. -/
def Complete (c : Call Z) : Prop := c.guarded.any absent = false

theorem complete_of_code {c : Call Z} (h : c.code ≠ .InvalidInput) : Complete c := by
  rw [Complete, Bool.eq_false_iff, Ne, List.any_eq_true, ← Call.code_eq_invalidInput]
  exact h

theorem Complete.present {c : Call Z} (h : Complete c) : ∀ p ∈ c.params, p.Present := by
  rcases c with c | c
  · exact ProducingCall.present_of_missing h
  · exact VerifyingCall.present_of_missing h

theorem withArgs_bind {α : Type} (t : Target) (ps : List Param) (next : Args ps → MarshalM α) :
    withArgs t ps next = withArgs t ps pure >>= next := by
  induction ps generalizing α with
  | nil => exact (pure_bind () next).symm
  | cons p ps ih =>
    have hrest : ∀ v, withArgs t ps (fun vs => next (v, vs))
        = withArgs t ps (fun vs => (pure (v, vs) : MarshalM (Args (p :: ps)))) >>= next := by
      intro v
      rw [ih, ih (fun vs => (pure (v, vs) : MarshalM (Args (p :: ps)))), bind_assoc]
      exact congrArg _ (funext fun vs => (pure_bind _ next).symm)
    show (p.read t >>= fun v => _) = (p.read t >>= fun v => _) >>= next
    rw [bind_assoc]
    exact congrArg _ (funext hrest)

/-- A function of the arguments, with the temporaries dropped after it. -/
theorem callee_withArgs {α : Type} {t : Target} {ps : List Param} {f : Args ps → α} {w w₁ : World}
    {args : Args ps} (h : callee (withArgs t ps pure) w = .ok (args, w₁)) :
    callee (withArgs t ps fun args => return f args) w = .ok (f args, w₁) := by
  have hmap : callee (withArgs t ps fun args => return f args)
      = f <$> callee (withArgs t ps pure) := by
    rw [withArgs_bind]
    simp only [callee, StateT.run_bind, StateT.run_pure, bind_assoc, pure_bind, map_bind, map_pure]
  rw [hmap]
  show Except.map _ (callee (withArgs t ps pure) w) = _
  rw [h]
  rfl

theorem run_eq_finish (t : Target) {c : ProducingCall Z} (hnull : ∀ out ∈ c.outs, out ≠ none)
    (hc : c.missing = false) {w w₁ : World} {args : Args c.params}
    (h : callee (withArgs t c.params pure) w = .ok (args, w₁)) :
    c.run t w = finish c (c.operationOn args).eval w₁ := by
  obtain ⟨ρ, rust, results, hrun, hrust, _⟩ := c.reads t
  rw [hrun, produce, if_neg (any_isNone_eq_false hnull), hc, hrust]
  refine (bind_ok (callee_withArgs h)).trans ?_
  cases rust args <;> rfl

theorem run_eq_finishVerdict (t : Target) {c : VerifyingCall Z} (hnull : c.validOut ≠ none)
    (hc : c.missing = false) {w w₁ : World} {args : Args c.params}
    (h : callee (withArgs t c.params pure) w = .ok (args, w₁)) :
    c.run t w = finishVerdict c ((c.checkOn args).eval Z) w₁ := by
  rw [c.reads, verdict, if_neg (mt Option.isNone_iff_eq_none.mp hnull), hc]
  refine (bind_ok (callee_withArgs h)).trans ?_
  cases (c.checkOn args).eval Z <;> rfl

/-- **A call past its guards** applies its Rust function to the arguments read. -/
theorem run_eq_conclude (t : Target) {c : Call Z} (hnull : ∀ out ∈ c.outs, out ≠ none)
    (hc : Complete c) {w w₁ : World} {args : Args c.params}
    (h : callee (withArgs t c.params pure) w = .ok (args, w₁)) :
    c.run t w = conclude c args w₁ := by
  rcases c with c | c
  · exact run_eq_finish t hnull hc h
  · exact run_eq_finishVerdict t (hnull _ (List.mem_singleton.mpr rfl)) hc h

theorem handsOver_values (t : Target) {c : Call Z} (hnull : ∀ out ∈ c.outs, out ≠ none)
    (hc : Complete c) (w : World) : HandsOver t c w (values c.params) := by
  obtain ⟨heap, hread, _⟩ := callee_of_marshals (marshals_withArgs t hc.present (.pure _)) w
  exact ⟨_, hread, run_eq_conclude t hnull hc hread⟩

/-- **What a successful call hands over.**  A missing parameter behind a guard is
reported.  A call that returns `Ok` is the Rust function applied to what its
parameters stand for, with as many elements as are stored behind each pointer;
these are the declared sizes exactly when no null pointer is declared with one. -/
theorem handed_over (t : Target) (c : Call Z) (w : World) :
    ∃ code w', c.run t w = .ok (code, w') ∧
      ((∃ s ∈ c.guarded, absent s = true) → code = .InvalidInput) ∧
      (code = .Ok → HandsOver t c w (values c.params) ∧
        AllSized stored c.params (values c.params) ∧
        (AllSized CSlice.len c.params (values c.params) ↔
          ∀ p ∈ c.params, NothingBehindNull p)) := by
  by_cases hnull : none ∈ c.outs
  · exact ⟨.InvalidInput, w, Call.run_null t hnull w, fun _ => rfl, fun h => by cases h⟩
  · have houts : ∀ out ∈ c.outs, out ≠ none := fun out hout hnone => hnull (hnone ▸ hout)
    obtain ⟨w', hrun⟩ := run_code t c w houts
    refine ⟨c.code, w', hrun, Call.code_eq_invalidInput.mpr, fun hok => ⟨?_, ?_, ?_⟩⟩
    · exact handsOver_values t houts (complete_of_code (by rw [hok]; decide)) w
    · exact allSized_values.mpr fun p _ => sized_stored p
    · rw [allSized_values]
      exact forall₂_congr fun p _ => sized_len_iff p

/-- Two messages are declared behind a null pointer, none is handed over, and the
empty list is signed. -/
theorem null_messages_signed :
    ∃ (c : Call transparent) (w' : World), c = .producing (.sign (0 : UInt8) (fun _ => 0)
          (CSlice.of (spread 32 7)) (CSlice.of (spread 96 7)) (CSlice.null 0) (CSlice.null 2)
          (some 0)) ∧
        c.run (.bits64 false) World.initial = .ok (.Ok, w') ∧
        HandsOver (.bits64 false) c World.initial (values c.params) ∧
        ¬ AllSized CSlice.len c.params (values c.params) := by
  let c : Call transparent := .producing (.sign (0 : UInt8) (fun _ => 0)
    (CSlice.of (spread 32 7)) (CSlice.of (spread 96 7)) (CSlice.null 0) (CSlice.null 2) (some 0))
  have hcode : c.code = .Ok := by rfl
  have houts : ∀ out ∈ c.outs, out ≠ none := by simp [c, Call.outs, ProducingCall.outs]
  obtain ⟨w', hrun⟩ := run_code (.bits64 false) c World.initial houts
  rw [hcode] at hrun
  refine ⟨c, w', rfl, hrun, ?_, ?_⟩
  · exact handsOver_values _ houts (complete_of_code (by rw [hcode]; decide)) _
  rintro ⟨_, _, _, ⟨hcount, _⟩, _⟩
  cases hcount

end BbsFfi.HandedOver
