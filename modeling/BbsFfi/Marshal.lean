import BbsFfi.CFfi

/-!
# Marshalling

`Marshals m a`: reading arguments with `m` gives `a`, faults nowhere, and
changes nothing but the heap, where it adds the temporaries it has noted.  So a
call on marshalled arguments leaves the heap as it was (`callee_of_marshals`).
Each helper of the C layer marshals what its argument stands for.
-/

namespace BbsFfi.Marshal

open BbsFfi.Rust BbsFfi.Memory BbsFfi.CFfi Ledgers

variable {α β : Type}

/-- A step that succeeds hands its value and its world to what follows. -/
theorem bind_ok {x : FfiM α} {f : α → FfiM β} {w w' : World} {a : α} (h : x w = .ok (a, w')) :
    (x >>= f) w = f a w' := by
  show Except.bind (x w) _ = _
  rw [h]
  rfl

theorem bind_error {x : FfiM α} {f : α → FfiM β} {w : World} {e : Fault} (h : x w = .error e) :
    (x >>= f) w = .error e := by
  show Except.bind (x w) _ = _
  rw [h]
  rfl

theorem marshal_bind_ok {m : MarshalM α} {f : α → MarshalM β} {a : α}
    {temps temps' : List (Nat × Layout)} {w w' : World} (h : m temps w = .ok ((a, temps'), w')) :
    (m >>= f) temps w = f a temps' w' := by
  show (m temps >>= fun p => f p.1 p.2) w = _
  exact bind_ok h

/-- `m` computes `a` and notes every block it allocates. -/
def Marshals (m : MarshalM α) (a : α) : Prop :=
  ∀ temps w, ∃ new heap, m temps w = .ok ((a, temps ++ new), { w with heap := heap }) ∧
    heap.holdings = ↑new + w.heap.holdings

theorem Marshals.pure (a : α) : Marshals (Pure.pure a) a := by
  intro temps w
  exact ⟨[], w.heap, by rw [List.append_nil]; rfl, by simp⟩

theorem Marshals.bind {m : MarshalM α} {f : α → MarshalM β} {a : α} {b : β} (hm : Marshals m a)
    (hf : Marshals (f a) b) : Marshals (m >>= f) b := by
  intro temps w
  obtain ⟨new, heap, hrun, hheap⟩ := hm temps w
  obtain ⟨new', heap', hrun', hheap'⟩ := hf (temps ++ new) { w with heap := heap }
  refine ⟨new ++ new', heap', ?_, ?_⟩
  · rw [← List.append_assoc]
    exact (marshal_bind_ok hrun).trans hrun'
  · rw [hheap', hheap, ← Multiset.coe_add, ← add_assoc, add_comm (↑new' : Multiset (Nat × Layout))]

/-- A computation on the memory that changes nothing. -/
theorem Marshals.lift {x : FfiM α} {a : α} (h : ∀ w, x w = .ok (a, w)) :
    Marshals (liftM x : MarshalM α) a := by
  intro temps w
  refine ⟨[], w.heap, ?_, by simp⟩
  rw [List.append_nil]
  show (x >>= fun a => Pure.pure (a, temps)) w = _
  exact bind_ok (h w)

theorem Marshals.mapM {f : α → MarshalM β} {g : α → β} (h : ∀ a, Marshals (f a) (g a))
    (as : List α) : Marshals (as.mapM f) (as.map g) := by
  induction as with
  | nil =>
    rw [List.mapM_nil]
    exact .pure _
  | cons a as ih =>
    rw [List.mapM_cons]
    exact (h a).bind (ih.bind (.pure _))

theorem marshals_temporary (layout : Layout) : Marshals (temporary layout) () := by
  rw [temporary]
  split
  · exact .pure ()
  · intro temps w
    exact ⟨[(w.heap.next, layout)], w.heap.acquire layout, rfl, w.heap.holdings_acquire layout⟩

/-! ## The helpers -/

theorem fromRawParts_data {s : CSlice α} (h : s.data.isNull = false) (w : World) :
    fromRawParts s.data s.len w = .ok (s.toList, w) := by
  obtain ⟨data, len, valid⟩ := s
  cases data with
  | null => cases h
  | addr mem =>
    rw [fromRawParts, if_pos (valid mem rfl)]
    rfl

theorem toList_of_absent {s : CSlice α} (h : (s.data.isNull || s.len == 0) = true) :
    s.toList = [] := by
  obtain ⟨data, len, valid⟩ := s
  cases data with
  | null => rfl
  | addr mem =>
    have hlen : len = 0 := by simpa [ConstPtr.isNull] using h
    subst hlen
    exact @List.take_zero α mem

theorem not_null_of_present {s : CSlice α} (h : ¬ (s.data.isNull || s.len == 0) = true) :
    s.data.isNull = false := by
  rw [Bool.or_eq_true, not_or] at h
  exact Bool.eq_false_iff.mpr h.1

/-- A parameter behind its guard. -/
theorem marshals_sliceToVec {s : CSlice UInt8} (h : isMissing s.data s.len = false) :
    Marshals (sliceToVec s.data s.len) s.toList := by
  have hdata : s.data.isNull = false := not_null_of_present (Bool.eq_false_iff.mp h)
  exact (Marshals.lift (fromRawParts_data hdata)).bind
    ((marshals_temporary _).bind (.pure _))

/-- A parameter with no guard: nothing is read from a null pointer. -/
theorem marshals_readOptionalBytes (s : CSlice UInt8) :
    Marshals (readOptionalBytes s.data s.len) s.toList := by
  rw [readOptionalBytes]
  split
  case isTrue h =>
    rw [toList_of_absent h]
    exact .pure []
  case isFalse h => exact marshals_sliceToVec (Bool.eq_false_iff.mpr h)

theorem marshals_collectMessages (t : Target) (msgs : CSlice BbsMessage) :
    Marshals (collectMessages t msgs.data msgs.len) (messagesOf msgs) := by
  rw [collectMessages]
  split
  case isTrue h =>
    rw [messagesOf, toList_of_absent h]
    exact .pure []
  case isFalse h =>
    exact (Marshals.lift (fromRawParts_data (not_null_of_present h))).bind
      ((marshals_temporary _).bind (.mapM marshals_readOptionalBytes _))

theorem marshals_collectU32Array (arr : CSlice UInt32) :
    Marshals (collectU32Array arr.data arr.len) arr.toList := by
  rw [collectU32Array]
  split
  case isTrue h =>
    rw [toList_of_absent h]
    exact .pure []
  case isFalse h =>
    exact (Marshals.lift (fromRawParts_data (not_null_of_present h))).bind
      ((marshals_temporary _).bind (.pure _))

/-! ## Dropping the temporaries -/

theorem dealloc_block {w : World} {id : Nat} {layout : Layout} {heap : Ledger Layout}
    (h : w.heap.release id layout = some heap) :
    dealloc (.block id) layout w = .ok ((), { w with heap := heap }) := by
  rw [dealloc, bind_ok (show (get : FfiM World) w = .ok (w, w) from rfl)]
  simp only [h]
  rfl

theorem vecFromRawParts_block (id len cap : Nat) (w : World) :
    vecFromRawParts (.block id) len cap w =
      if w.heap.live.lookup id ≠ some (bytesLayout cap) then .error .badDealloc
      else if len ≤ cap ∧ len ≤ (w.contents id).length then .ok (⟨.block id, len, cap⟩, w)
      else .error .outOfBounds := by
  rw [vecFromRawParts, bind_ok (show (get : FfiM World) w = .ok (w, w) from rfl)]
  dsimp only
  split
  · rfl
  · split <;> rfl

theorem dropAll_of_holdings {temps : List (Nat × Layout)} {rest : Multiset (Nat × Layout)}
    {w : World} (h : w.heap.holdings = ↑temps + rest) :
    ∃ heap, dropAll temps w = .ok ((), { w with heap := heap }) ∧ heap.holdings = rest := by
  induction temps generalizing w with
  | nil => exact ⟨w.heap, rfl, by simpa using h⟩
  | cons temp temps ih =>
    obtain ⟨id, layout⟩ := temp
    rw [← Multiset.cons_coe, Multiset.cons_add] at h
    obtain ⟨heap₁, hrel, hheld⟩ := Ledger.release_of_holdings h
    obtain ⟨heap₂, hdrop, hrest⟩ := ih (w := { w with heap := heap₁ }) hheld
    exact ⟨heap₂, (bind_ok (dealloc_block hrel)).trans hdrop, hrest⟩

/-- **A call leaves no temporaries behind.** -/
theorem callee_of_marshals {m : MarshalM α} {a : α} (h : Marshals m a) (w : World) :
    ∃ heap, callee m w = .ok (a, { w with heap := heap }) ∧ heap.holdings = w.heap.holdings := by
  obtain ⟨temps, heap, hrun, hheap⟩ := h [] w
  obtain ⟨heap', hdrop, hrest⟩ := dropAll_of_holdings (w := { w with heap := heap }) hheap
  refine ⟨heap', ?_, hrest⟩
  exact (bind_ok hrun).trans (bind_ok hdrop)

end BbsFfi.Marshal
