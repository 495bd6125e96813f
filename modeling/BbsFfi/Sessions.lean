import BbsFfi.ByteStore
import BbsFfi.Library.Dialogues

/-!
# Clients that pass buffers on

A client leaves the buffers it receives in slots, hands pointers into them to
later calls, frees them, looks at bytes and at verdicts, and decides what to do
next by the answers.  It keeps to the discipline of the header comments: the
outputs of a call are there and distinct, and a slot that has never been written,
or whose buffer has been freed, is written before it is used (`Allowed`).  Such a
client gets the answers that it would get if the calls were those of the Rust
functions and the slots held byte strings (`sessions_refined`).
-/

namespace BbsFfi.Sessions

open Ledgers Dialogues BbsFfi.Rust BbsFfi.Backend BbsFfi.Memory BbsFfi.CFfi BbsFfi.Marshal
  BbsFfi.Exits BbsFfi.Calls BbsFfi.Ownership BbsFfi.ByteStore BbsFfi.Transparent

/-! ## What a client does -/

/-- A call on the buffers in some slots, and on whatever else. -/
structure Site (Z : Zkryptium) where
  slots : List Nat
  call : List (CSlice UInt8) → Call Z

inductive Action (Z : Zkryptium) where
  | call (site : Site Z)
  | free (slot : Nat)
  | look (slot : Nat)
  | verdict (slot : Nat)

inductive Answer where
  | code (code : BbsFfiResult)
  | freed
  | bytes (bytes : Option Bytes)
  | verdict (n : Int32)
  deriving DecidableEq, Repr

variable {Z : Zkryptium} {t : Target}

/-- `buf.data` and `buf.len` as an argument: a fault unless that memory is there. -/
def passed (w : World) (buf : BbsBuffer) : Except Fault (CSlice UInt8) :=
  match buf.data with
  | .null => .ok (CSlice.null buf.len)
  | .dangling => if buf.len = 0 then .ok (CSlice.of []) else .error .outOfBounds
  | .block id =>
    if w.heap.live.lookup id = some (bytesLayout buf.cap) ∧ buf.len ≤ (w.contents id).length then
      .ok (CSlice.of ((w.contents id).take buf.len))
    else .error .outOfBounds

/-- The call with its arguments taken from the memory. -/
def Site.run (t : Target) (site : Site Z) : FfiM BbsFfiResult := fun w => do
  let args ← site.slots.mapM fun slot => passed w (w.buffers slot)
  (site.call args).run t w

def act (t : Target) : Action Z → World → Except Fault (Answer × World)
  | .call site, w => (site.run t w).map fun r => (.code r.1, r.2)
  | .free slot, w => (bbsFfiFreeBuffer (w.buffers slot) w).map fun r => (.freed, r.2)
  | .look slot, w => (passed w (w.buffers slot)).map fun s =>
    (.bytes (if s.data.isNull then none else some s.toList), w)
  | .verdict slot, w => .ok (.verdict (w.ints slot), w)

/-! ## The same on values -/

/-- What a slot is good for: nothing, being a null buffer, or its bytes. -/
inductive Content where
  | gone
  | null
  | bytes (v : Bytes)
  deriving DecidableEq, Repr

def Content.of : Option Bytes → Content
  | none => .null
  | some v => .bytes v

def Content.freed : Content → Content
  | .bytes _ => .gone
  | k => k

def Content.value : Content → Option Bytes
  | .bytes v => some v
  | _ => none

def Content.argument : Content → CSlice UInt8
  | .bytes v => CSlice.of v
  | _ => CSlice.null 0

structure View where
  buffers : Nat → Content
  verdicts : Nat → Int32

def View.blank (verdicts : Nat → Int32) : View := ⟨fun _ => .gone, verdicts⟩

/-- Values written to slots, in order. -/
def put {α : Type} : List (MutPtr × α) → (Nat → α) → Nat → α
  | [], f => f
  | (some slot, a) :: writes, f => put writes (Function.update f slot a)
  | (none, _) :: writes, f => put writes f

/-- What the call leaves behind, by its Rust function. -/
def View.after (v : View) : Call Z → View
  | .producing c => { v with buffers := put (c.outs.zip ((results c).map Content.of)) v.buffers }
  | .verifying c => { v with verdicts := put [(c.validOut, verdictOf c)] v.verdicts }

def Site.on (site : Site Z) (v : View) : Call Z :=
  site.call (site.slots.map fun slot => (v.buffers slot).argument)

def View.act : Action Z → View → Answer × View
  | .call site, v => (.code (site.on v).code, v.after (site.on v))
  | .free slot, v =>
    (.freed, { v with buffers := Function.update v.buffers slot (v.buffers slot).freed })
  | .look slot, v => (.bytes (v.buffers slot).value, v)
  | .verdict slot, v => (.verdict (v.verdicts slot), v)

/-- **The discipline.** -/
def Allowed : Action Z → View → Prop
  | .call site, v => (∀ slot ∈ site.slots, v.buffers slot ≠ .gone) ∧
    (∀ out ∈ (site.on v).outs, out ≠ none) ∧ (site.on v).outs.Nodup
  | .free slot, v => v.buffers slot ≠ .gone
  | .look slot, v => v.buffers slot ≠ .gone
  | .verdict _, _ => True

instance (a : Action Z) (v : View) : Decidable (Allowed a v) :=
  match a with
  | .call _ => inferInstanceAs (Decidable (_ ∧ _ ∧ _))
  | .free _ => inferInstanceAs (Decidable (_ ≠ _))
  | .look _ => inferInstanceAs (Decidable (_ ≠ _))
  | .verdict _ => inferInstanceAs (Decidable True)

/-! ## The slots -/

/-- The buffer is what the client takes it for. -/
def Matches (w : World) (buf : BbsBuffer) : Content → Prop
  | .gone => True
  | .null => buf = BbsBuffer.null
  | .bytes v => Sound w buf ∧ read w buf = some v

/-- **The invariant.**  No block is in two slots that may be used. -/
structure Tidy (w : World) (v : View) : Prop where
  slots : ∀ slot, Matches w (w.buffers slot) (v.buffers slot)
  apart : ∀ slot slot' id, v.buffers slot ≠ .gone → v.buffers slot' ≠ .gone →
    (w.buffers slot).data = .block id → (w.buffers slot').data = .block id → slot = slot'
  verdicts : w.ints = v.verdicts

theorem tidy_blank (w : World) : Tidy w (View.blank w.ints) where
  slots _ := trivial
  apart _ _ _ h := absurd rfl h
  verdicts := rfl

theorem live_of_read {w : World} {buf : BbsBuffer} {v : Bytes} (h : read w buf = some v) {id : Nat}
    (hdata : buf.data = .block id) : w.heap.live.lookup id = some (bytesLayout buf.cap) := by
  obtain ⟨data, len, cap⟩ := buf
  obtain rfl : data = .block id := hdata
  exact (read_block_iff.mp h).1

theorem Matches.owns {w : World} {buf : BbsBuffer} {k : Content} (h : Matches w buf k)
    (hk : k ≠ .gone) {id : Nat} (hdata : buf.data = .block id) :
    owned buf = [(id, bytesLayout buf.cap)] ∧ (id, bytesLayout buf.cap) ∈ w.heap.holdings := by
  cases k with
  | gone => exact absurd rfl hk
  | null =>
    obtain rfl : buf = BbsBuffer.null := h
    cases hdata
  | bytes v =>
    obtain ⟨hsound, hread⟩ := h
    exact ⟨hsound.owned_eq hdata, Ledger.mem_holdings.mpr (live_of_read hread hdata)⟩

theorem Matches.kept {w w' : World} {buf : BbsBuffer} {k : Content} (h : Matches w buf k)
    (hblock : ∀ id, buf.data = .block id →
      w.heap.live.lookup id = some (bytesLayout buf.cap) →
        w'.heap.live.lookup id = some (bytesLayout buf.cap) ∧ w'.contents id = w.contents id) :
    Matches w' buf k := by
  cases k with
  | gone => trivial
  | null => exact h
  | bytes v =>
    obtain ⟨hsound, hread⟩ := h
    exact ⟨hsound.kept fun id hdata => (hblock id hdata (live_of_read hread hdata)).2,
      read_of_live hblock hread⟩

/-- What may be used can be passed on. -/
theorem Matches.passed {w : World} {buf : BbsBuffer} {k : Content} (h : Matches w buf k)
    (hk : k ≠ .gone) : passed w buf = .ok k.argument := by
  cases k with
  | gone => exact absurd rfl hk
  | null =>
    obtain rfl : buf = BbsBuffer.null := h
    rfl
  | bytes v =>
    obtain ⟨hsound, hread⟩ := h
    obtain ⟨data, len, cap⟩ := buf
    cases data with
    | null => cases hread
    | dangling =>
      obtain rfl : [] = v := Option.some.inj hread
      exact if_pos (hsound.dangling rfl).1
    | block id =>
      obtain ⟨hlive, rfl⟩ := read_block_iff.mp hread
      exact if_pos ⟨hlive, (hsound.block id rfl).2.2⟩

/-! ## Calls -/

/-- The arguments of a call on slots that may be used. -/
theorem passed_slots {w : World} {v : View} (hw : Tidy w v) {slots : List Nat}
    (h : ∀ slot ∈ slots, v.buffers slot ≠ .gone) :
    (slots.mapM fun slot => passed w (w.buffers slot))
      = .ok (slots.map fun slot => (v.buffers slot).argument) := by
  induction slots with
  | nil => rfl
  | cons slot slots ih =>
    obtain ⟨hslot, hslots⟩ := List.forall_mem_cons.mp h
    rw [List.mapM_cons, (hw.slots slot).passed hslot, ih hslots]
    rfl

theorem put_outputs {α : Type} (outs : List MutPtr) (g : MutPtr → α) (f : Nat → α) (slot : Nat) :
    put (outs.zip (outs.map g)) f slot = if some slot ∈ outs then g (some slot) else f slot := by
  induction outs generalizing f with
  | nil => rfl
  | cons out outs ih =>
    cases out with
    | none =>
      show put (outs.zip (outs.map g)) f slot = _
      rw [ih]
      simp
    | some slot' =>
      show put (outs.zip (outs.map g)) (Function.update f slot' (g (some slot'))) slot = _
      rw [ih]
      by_cases hslot : slot = slot'
      · subst hslot
        simp
      · simp [hslot]

theorem received_apart {w : World} {outs : List MutPtr}
    (hnodup : (((received w outs).flatMap owned).map Prod.fst).Nodup) {slot slot' id : Nat}
    {layout layout' : Layout} (hslot : some slot ∈ outs) (hslot' : some slot' ∈ outs)
    (hown : owned (w.buffers slot) = [(id, layout)])
    (hown' : owned (w.buffers slot') = [(id, layout')]) : slot = slot' := by
  by_contra hne
  rw [List.map_flatMap, List.nodup_flatMap, received, List.pairwise_filterMap] at hnodup
  let Separate (out out' : MutPtr) : Prop := ∀ buf, out.map w.buffers = some buf →
    ∀ buf', out'.map w.buffers = some buf' →
      ((owned buf).map Prod.fst).Disjoint ((owned buf').map Prod.fst)
  have hpairs : outs.Pairwise Separate := hnodup.2
  have hsymm : Std.Symm Separate :=
    ⟨fun _ _ h buf hbuf buf' hbuf' => (h buf' hbuf' buf hbuf).symm⟩
  have hdisjoint := hpairs.forall hslot hslot' (by simpa using hne) _ rfl _ rfl
  rw [hown, hown'] at hdisjoint
  exact hdisjoint List.mem_cons_self List.mem_cons_self

/-- New blocks are apart from each other and from the old ones. -/
theorem apart_after {outs : List MutPtr} {w w' : World} {v : View} (hw : Tidy w v)
    (hhand : Handed outs w w') {slot slot' id : Nat}
    (hslot : some slot ∉ outs → v.buffers slot ≠ .gone)
    (hslot' : some slot' ∉ outs → v.buffers slot' ≠ .gone)
    (hdata : (w'.buffers slot).data = .block id) (hdata' : (w'.buffers slot').data = .block id) :
    slot = slot' := by
  have hids := w'.heap.nodup_ids
  rw [hhand.holdings, Multiset.map_add, Multiset.nodup_add] at hids
  obtain ⟨hnew, _, hold⟩ := hids
  have hcross : ∀ {a b : Nat}, some a ∈ outs → some b ∉ outs → v.buffers b ≠ .gone →
      (w'.buffers a).data = .block id → (w'.buffers b).data = .block id → False := by
    intro a b ha hb hgone ha' hb'
    rw [hhand.others b hb] at hb'
    have hmem : (id, bytesLayout (w'.buffers a).cap) ∈ (received w' outs).flatMap owned := by
      refine List.mem_flatMap.mpr ⟨w'.buffers a, mem_received.mpr ⟨a, ha, rfl⟩, ?_⟩
      rw [(hhand.sound a ha).owned_eq ha']
      exact List.mem_singleton.mpr rfl
    have holdId : id ∈ w.heap.holdings.map Prod.fst :=
      Multiset.mem_map_of_mem Prod.fst ((hw.slots b).owns hgone hb').2
    exact Multiset.disjoint_left.mp hold (Multiset.mem_map_of_mem Prod.fst hmem) holdId
  by_cases hmem : some slot ∈ outs
  · by_cases hmem' : some slot' ∈ outs
    · exact received_apart hnew hmem hmem' ((hhand.sound slot hmem).owned_eq hdata)
        ((hhand.sound slot' hmem').owned_eq hdata')
    · exact (hcross hmem hmem' (hslot' hmem') hdata hdata').elim
  · by_cases hmem' : some slot' ∈ outs
    · exact (hcross hmem' hmem (hslot hmem) hdata' hdata).elim
    · rw [hhand.others slot hmem] at hdata
      rw [hhand.others slot' hmem'] at hdata'
      exact hw.apart slot slot' id (hslot hmem) (hslot' hmem') hdata hdata'

/-- **A call with buffer outputs** is its Rust function on what the client knows. -/
theorem producing_step {c : ProducingCall Z} (hnull : ∀ out ∈ c.outs, out ≠ none)
    (hdistinct : c.outs.Nodup) {w : World} {v : View} (hw : Tidy w v) :
    ∃ w', c.run t w = .ok (c.code, w') ∧ Tidy w' (v.after (.producing c)) := by
  obtain ⟨code, w', hrun, hhand, hends⟩ := c.spec t hnull hdistinct w
  obtain rfl : code = c.code := hends.code_eq
  obtain ⟨hresults, hnulls⟩ := produced_results hnull hends
  have hview : ∀ slot, (v.after (.producing c)).buffers slot
      = if some slot ∈ c.outs then Content.of (read w' (w'.buffers slot)) else v.buffers slot := by
    intro slot
    refine Eq.trans ?_ (put_outputs c.outs (fun out => Content.of (output w' out)) v.buffers slot)
    show put (c.outs.zip ((results c).map Content.of)) v.buffers slot = _
    rw [← hresults, List.map_map]
    rfl
  have hleft : ∀ slot, some slot ∉ c.outs → (v.after (.producing c)).buffers slot ≠ .gone →
      v.buffers slot ≠ .gone := by
    intro slot hslot hgone
    rwa [hview, if_neg hslot] at hgone
  refine ⟨w', hrun, fun slot => ?_, fun slot slot' id hgone hgone' => ?_,
    hhand.ints.trans hw.verdicts⟩
  · rw [hview]
    split
    case isTrue hslot =>
      cases hread : read w' (w'.buffers slot) with
      | none => exact hnulls slot hslot hread
      | some v => exact ⟨hhand.sound slot hslot, hread⟩
    case isFalse hslot =>
      rw [hhand.others slot hslot]
      refine (hw.slots slot).kept fun id _ hlive => ?_
      have hmem := Ledger.mem_holdings.mpr hlive
      refine ⟨Ledger.mem_holdings.mp ?_, hhand.contents id _ hmem⟩
      rw [hhand.holdings]
      exact Multiset.mem_add.mpr (Or.inr hmem)
  · exact apart_after hw hhand (fun h => hleft slot h hgone) (fun h => hleft slot' h hgone')

/-- **A call with a verdict** is its Rust function on what the client knows. -/
theorem verifying_step {c : VerifyingCall Z} (hnull : c.validOut ≠ none) {w : World} {v : View}
    (hw : Tidy w v) :
    ∃ w', c.run t w = .ok (c.code, w') ∧ Tidy w' (v.after (.verifying c)) := by
  obtain ⟨slot, hslot⟩ := Option.ne_none_iff_exists'.mp hnull
  obtain ⟨code, n, heap, hrun, hheap, hends⟩ := c.spec t hslot w
  obtain rfl : code = c.code := hends.code_eq
  refine ⟨_, hrun, fun slot' => (hw.slots slot').kept fun id _ hlive => ⟨?_, rfl⟩, hw.apart, ?_⟩
  · show heap.live.lookup id = _
    rw [← Ledger.mem_holdings, hheap]
    exact Ledger.mem_holdings.mpr hlive
  · show Function.update w.ints slot n = put [(c.validOut, verdictOf c)] v.verdicts
    rw [hslot, ← judged_verdict hends, hw.verdicts]
    rfl

theorem call_step {c : Call Z} (hnull : ∀ out ∈ c.outs, out ≠ none) (hdistinct : c.outs.Nodup)
    {w : World} {v : View} (hw : Tidy w v) :
    ∃ w', c.run t w = .ok (c.code, w') ∧ Tidy w' (v.after c) := by
  cases c with
  | producing c => exact producing_step hnull hdistinct hw
  | verifying c => exact verifying_step (hnull _ (List.mem_singleton.mpr rfl)) hw

/-- A call whose arguments are taken from slots. -/
theorem site_step {site : Site Z} {w : World} {v : View} (hw : Tidy w v)
    (ha : Allowed (.call site) v) :
    ∃ w', site.run t w = .ok ((site.on v).code, w') ∧ Tidy w' (v.after (site.on v)) := by
  obtain ⟨hslots, hnull, hdistinct⟩ := ha
  obtain ⟨w', hrun, hw'⟩ := call_step (t := t) hnull hdistinct hw
  refine ⟨w', ?_, hw'⟩
  rw [Site.run, passed_slots hw hslots]
  exact hrun

/-! ## Freeing -/

theorem Tidy.forget {w w' : World} {v : View} (hw : Tidy w v) {slot : Nat}
    (hbuffers : w'.buffers = w.buffers) (hints : w'.ints = w.ints)
    (hslots : ∀ slot', slot' ≠ slot → Matches w' (w.buffers slot') (v.buffers slot')) :
    Tidy w' { v with buffers := Function.update v.buffers slot .gone } where
  slots slot' := by
    rw [hbuffers]
    show Matches w' _ (Function.update v.buffers slot .gone slot')
    by_cases hslot : slot' = slot
    · rw [hslot, Function.update_self]
      trivial
    · rw [Function.update_of_ne hslot]
      exact hslots slot' hslot
  apart a b id ha hb := by
    have hused : ∀ {c}, Function.update v.buffers slot .gone c ≠ .gone → v.buffers c ≠ .gone := by
      intro c hc
      by_cases hslot : c = slot
      · rw [hslot, Function.update_self] at hc
        exact absurd rfl hc
      · rwa [Function.update_of_ne hslot] at hc
    rw [hbuffers]
    exact hw.apart a b id (hused ha) (hused hb)
  verdicts := hints.trans hw.verdicts

/-- Releasing the block of one slot leaves the other slots as they are. -/
theorem Tidy.released {w : World} {v : View} (hw : Tidy w v) {slot id : Nat}
    (hgone : v.buffers slot ≠ .gone) (hdata : (w.buffers slot).data = .block id) :
    ∃ heap, dealloc (.block id) (bytesLayout (w.buffers slot).cap) w
        = .ok ((), { w with heap := heap }) ∧
      ∀ slot', slot' ≠ slot →
        Matches { w with heap := heap } (w.buffers slot') (v.buffers slot') := by
  obtain ⟨rest, hrest⟩ := Multiset.exists_cons_of_mem ((hw.slots slot).owns hgone hdata).2
  obtain ⟨heap, hrelease, hheap⟩ := Ledger.release_of_holdings hrest
  refine ⟨heap, dealloc_block hrelease, fun slot' hne => ?_⟩
  by_cases hgone' : v.buffers slot' = .gone
  · rw [hgone']
    trivial
  · refine (hw.slots slot').kept fun id' hdata' hlive => ⟨?_, rfl⟩
    have hid : id' ≠ id := by
      rintro rfl
      exact hne (hw.apart slot' slot id' hgone' hgone hdata' hdata)
    have hheld := Ledger.mem_holdings.mpr hlive
    rw [hrest] at hheld
    refine Ledger.mem_holdings.mp ?_
    show (id', _) ∈ heap.holdings
    rw [hheap]
    exact (Multiset.mem_cons.mp hheld).resolve_left fun heq => hid (Prod.mk.inj heq).1

/-- **Freeing the buffer in a slot.** -/
theorem free_step {w : World} {v : View} (hw : Tidy w v) {slot : Nat}
    (hgone : v.buffers slot ≠ .gone) :
    ∃ w', bbsFfiFreeBuffer (w.buffers slot) w = .ok ((), w') ∧
      Tidy w' { v with buffers := Function.update v.buffers slot (v.buffers slot).freed } := by
  have hslot := hw.slots slot
  cases hk : v.buffers slot with
  | gone => exact absurd hk hgone
  | null =>
    rw [hk] at hslot
    have hnull : (w.buffers slot).data = .null := by rw [show w.buffers slot = _ from hslot]; rfl
    refine ⟨w, freeBuffer_skipped (Or.inl hnull) w, ?_⟩
    show Tidy w { v with buffers := Function.update v.buffers slot .null }
    rw [← hk, Function.update_eq_self]
    exact hw
  | bytes b =>
    rw [hk] at hslot
    rcases freeBuffer_cases hslot.1 with ⟨_, hfree⟩ | ⟨id, hdata, _, hfree⟩
    · exact ⟨w, hfree, hw.forget rfl rfl fun slot' _ => hw.slots slot'⟩
    · obtain ⟨heap, hdealloc, hothers⟩ := hw.released hgone hdata
      have hlive := ((hw.slots slot).owns hgone hdata).2
      exact ⟨_, (hfree hlive).trans hdealloc, hw.forget rfl rfl hothers⟩

/-! ## Whole dialogues -/

/-- **One action** is the action on values. -/
theorem act_refined (a : Action Z) (w : World) (v : View) (hw : Tidy w v) (ha : Allowed a v) :
    ∃ w', act t a w = .ok ((v.act a).1, w') ∧ Tidy w' (v.act a).2 := by
  cases a with
  | call site =>
    obtain ⟨w', hrun, hw'⟩ := site_step (t := t) hw ha
    exact ⟨w', by rw [act, hrun]; rfl, hw'⟩
  | free slot =>
    obtain ⟨w', hrun, hw'⟩ := free_step hw ha
    exact ⟨w', by rw [act, hrun]; rfl, hw'⟩
  | look slot =>
    refine ⟨w, ?_, hw⟩
    rw [act, (hw.slots slot).passed ha]
    show Except.ok _ = Except.ok ((Answer.bytes (v.buffers slot).value, v).1, w)
    cases hk : v.buffers slot with
    | gone => exact absurd hk ha
    | null => rfl
    | bytes b => simp [Content.argument, Content.value, CSlice.of, ConstPtr.isNull, CSlice.toList]
  | verdict slot => exact ⟨w, by rw [act, hw.verdicts]; rfl, hw⟩

/-- **Sessions see the Rust functions.**  A client that has no buffers yet, on
whatever memory, keeps to the discipline as it passes buffers on, frees them and
decides by what it is told.  Then nothing faults: no argument points into released
memory and no block is freed twice.  Every code, every byte read and every verdict
is what the Rust functions give on the bytes in the slots, and at the end each slot
still holds its bytes. -/
theorem sessions_refined (t : Target) (d : Dialogue (Action Z) Answer) (w : World)
    (h : d.Keeps Allowed View.act (View.blank w.ints)) :
    ∃ w', Dialogue.run (act t) d w
        = .ok ((Dialogue.runTotal View.act d (View.blank w.ints)).1, w') ∧
      Tidy w' (Dialogue.runTotal View.act d (View.blank w.ints)).2 :=
  Dialogue.run_of_simulation Tidy act_refined d w _ (tidy_blank w) h

def commitSite : Site transparent where
  slots := [0]
  call args := .producing (.commitWithNym (1 : UInt8) (fun _ => 0) (CSlice.null 0)
    (args.headD (CSlice.null 0)) (some 1) (some 2))

def failSite : Site transparent where
  slots := []
  call _ := .producing (.sign (0 : UInt8) (fun _ => 0) (CSlice.null 0) (CSlice.null 0)
    (CSlice.null 0) (CSlice.null 0) (some 0))

/-- The nym secret is committed to and freed.  Its slot is then written by a call
that fails, and committed to again. -/
def commitTwice : Dialogue (Action transparent) Answer :=
  .act (.call commitSite) fun _ => .act (.free 0) fun _ => .act (.call failSite) fun _ =>
    .act (.free 0) fun _ => .act (.look 1) fun _ => .act (.call commitSite) fun _ => .done

/-- A nym secret is drawn, and used where that went well. -/
def sampleDialogue : Dialogue (Action transparent) Answer :=
  .act (.call ⟨[], fun _ => .producing (.generateNymSecret (5 : UInt8) (fun _ => 3) (some 0))⟩)
    fun answer => if answer = .code .Ok then commitTwice else .done

theorem sessions_refined_sample :
    ∃ w', Dialogue.run (act (.bits64 false)) sampleDialogue World.initial
        = .ok ([.code .Ok, .code .Ok, .freed, .code .InvalidInput, .freed,
            .bytes (some (spread 112 6)), .code .InvalidInput], w') := by
  obtain ⟨w', hrun, _⟩ := sessions_refined (.bits64 false) sampleDialogue
    World.initial (by decide)
  exact ⟨w', hrun⟩

end BbsFfi.Sessions
