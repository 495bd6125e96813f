import BbsFfi.Ownership

/-!
# The byte store behind the C functions

For its client the heap is a store of byte strings (`Store`): a call adds what
its outputs hold, freeing a buffer removes one entry, and nothing else happens to
the entries there are.  Every disciplined run is a run of this store
(`byte_store_refined`): a buffer reads as what the call returned for as long as
the client holds it, and a verdict stands until the next one is written over it.
-/

namespace BbsFfi.ByteStore

open Results Ledgers Runs BbsFfi.Rust BbsFfi.Backend BbsFfi.Memory BbsFfi.CFfi BbsFfi.Marshal
  BbsFfi.Exits BbsFfi.Calls BbsFfi.Transparent BbsFfi.Ownership

variable {Z : Zkryptium} {t : Target} {s s' : Client}

/-! ## What one operation leaves alone -/

/-- Between `w` and `w'` only blocks were acquired or released. -/
def HeapOnly (w w' : World) : Prop := ∃ heap, w' = { w with heap := heap }

theorem HeapOnly.refl (w : World) : HeapOnly w w := ⟨w.heap, rfl⟩

theorem HeapOnly.ints {w w' : World} (h : HeapOnly w w') : w'.ints = w.ints := by
  obtain ⟨_, rfl⟩ := h
  rfl

theorem dealloc_refused {w : World} {id : Nat} {layout : Layout}
    (h : w.heap.release id layout = none) :
    dealloc (.block id) layout w = .error .badDealloc := by
  rw [dealloc, bind_ok (show (get : FfiM World) w = .ok (w, w) from rfl)]
  simp only [h]
  rfl

theorem dealloc_heapOnly {p : DataPtr} {layout : Layout} {w : World} {r : Unit × World}
    (h : dealloc p layout w = .ok r) : HeapOnly w r.2 := by
  cases p with
  | null => cases h
  | dangling => cases h
  | block id =>
    cases hrel : w.heap.release id layout with
    | none =>
      rw [dealloc_refused hrel] at h
      cases h
    | some heap =>
      rw [dealloc_block hrel] at h
      cases h
      exact ⟨heap, rfl⟩

theorem freeBuffer_heapOnly {buf : BbsBuffer} {w : World} {r : Unit × World}
    (h : bbsFfiFreeBuffer buf w = .ok r) : HeapOnly w r.2 := by
  rcases freeBuffer_ok h with ⟨_, rfl⟩ | ⟨_, heap, _, _, _, rfl⟩
  · exact .refl w
  · exact ⟨heap, rfl⟩

theorem alloc_heapOnly {granted : Bool} {len align : Nat} {w : World} {r : DataPtr × World}
    (h : bbsFfiAlloc t granted len align w = .ok r) : HeapOnly w r.2 := by
  unfold bbsFfiAlloc at h
  by_cases hlen : len = 0
  · rw [if_pos hlen] at h
    cases h
    exact .refl w
  · rw [if_neg hlen] at h
    cases hlayout : Layout.fromSizeAlign t len align with
    | none =>
      rw [hlayout] at h
      cases h
      exact .refl w
    | some layout =>
      rw [hlayout] at h
      cases granted with
      | false =>
        cases h
        exact .refl w
      | true =>
        cases h
        exact ⟨_, rfl⟩

theorem bbsFfiDealloc_heapOnly {p : DataPtr} {len align : Nat} {w : World} {r : Unit × World}
    (h : bbsFfiDealloc t p len align w = .ok r) : HeapOnly w r.2 := by
  unfold bbsFfiDealloc at h
  by_cases hnone : p = .null ∨ len = 0
  · rw [if_pos hnone] at h
    cases h
    exact .refl w
  · rw [if_neg hnone] at h
    cases hlayout : Layout.fromSizeAlign t len align with
    | none =>
      rw [hlayout] at h
      cases h
      exact .refl w
    | some layout =>
      rw [hlayout] at h
      exact dealloc_heapOnly h

theorem fillBlock_ints {id : Nat} {bytes : Bytes} {w : World} {r : Unit × World}
    (h : fillBlock id bytes w = .ok r) : r.2.ints = w.ints := by
  rw [fillBlock, bind_ok (show (get : FfiM World) w = .ok (w, w) from rfl)] at h
  cases hlive : w.heap.live.lookup id with
  | none =>
    simp only [hlive] at h
    cases h
  | some layout =>
    simp only [hlive] at h
    split at h
    · cases h
      rfl
    · cases h

/-- What a call writes: its outputs, and the contents of new blocks. -/
theorem call_contents {c : Call Z} {w : World} {r : BbsFfiResult × World}
    (hnull : ∀ out ∈ c.outs, out ≠ none) (hdistinct : c.outs.Nodup) (h : c.run t w = .ok r)
    {id : Nat} {layout : Layout} (hmem : (id, layout) ∈ w.heap.holdings) :
    r.2.contents id = w.contents id := by
  rcases c with c | c
  · obtain ⟨code, w', hrun, hhand, _⟩ := c.spec t hnull hdistinct w
    cases hrun.symm.trans h
    exact hhand.contents id layout hmem
  · obtain ⟨slot, hslot⟩ := Option.ne_none_iff_exists'.mp (hnull _ (List.mem_singleton.mpr rfl))
    obtain ⟨code, n, heap, hrun, _, _⟩ := c.spec t hslot w
    cases hrun.symm.trans h
    rfl

/-- The blocks of an old state keep their bytes, where a buffer holds them. -/
theorem step_contents {op : Op Z} (hs : Exact t s) (ha : Allowed op s)
    (h : step t op s = .ok s') {buf : BbsBuffer} (hheld : buf ∈ s'.held) {id : Nat}
    (hdata : buf.data = .block id) {layout : Layout}
    (hmem : (id, layout) ∈ s.world.heap.holdings) :
    s'.world.contents id = s.world.contents id := by
  have same : ∀ {w : World}, HeapOnly s.world w → w.contents id = s.world.contents id := by
    rintro _ ⟨heap, rfl⟩
    rfl
  cases op with
  | call c =>
    obtain ⟨r, hr, rfl⟩ := map_eq_ok.mp h
    exact call_contents ha.1 ha.2 hr hmem
  | freeBuffer buf =>
    obtain ⟨r, hr, rfl⟩ := map_eq_ok.mp h
    exact same (freeBuffer_heapOnly hr)
  | alloc granted len align =>
    obtain ⟨⟨p, w⟩, hr, rfl⟩ := map_eq_ok.mp h
    have hw := same (alloc_heapOnly hr)
    cases p <;> exact hw
  | fill id' bytes =>
    obtain ⟨r, hr, rfl, hlen⟩ := ha
    obtain ⟨r', hfill, rfl⟩ := map_eq_ok.mp h
    cases hfill.symm.trans (fillBlock_ok (Ledger.mem_holdings.mp (hs.live_region hr)) hlen)
    refine Function.update_of_ne ?_ ..
    rintro rfl
    exact hs.region_ne hheld hr hdata
  | dealloc p len align =>
    obtain ⟨r, hr, rfl⟩ := map_eq_ok.mp h
    have hw := same (bbsFfiDealloc_heapOnly hr)
    cases p <;> exact hw

/-! ## Reading what is held -/

/-- A buffer stays readable where its block stays, with its bytes. -/
theorem read_of_live {w w' : World} {buf : BbsBuffer} {v : Bytes}
    (hblock : ∀ id, buf.data = .block id →
      w.heap.live.lookup id = some (bytesLayout buf.cap) →
        w'.heap.live.lookup id = some (bytesLayout buf.cap) ∧ w'.contents id = w.contents id)
    (hv : read w buf = some v) : read w' buf = some v := by
  obtain ⟨data, len, cap⟩ := buf
  cases data with
  | null => cases hv
  | dangling => exact hv
  | block id =>
    obtain ⟨hlive, htake⟩ := read_block_iff.mp hv
    obtain ⟨hlive', hcontents⟩ := hblock id rfl hlive
    exact read_block_iff.mpr ⟨hlive', hcontents ▸ htake⟩

/-- No block of a reachable heap is empty. -/
theorem cap_pos_of_lookup (hs : Exact t s) {id cap : Nat}
    (h : s.world.heap.live.lookup id = some (bytesLayout cap)) : 0 < cap := by
  rcases hs.lookup_iff.mp h with ⟨buf, _, _, hcap, heq⟩ | ⟨r, hr, _, heq⟩
  · cases heq
    exact hcap
  · have hlen := (hs.granted r hr).1
    cases r with
    | mk id len align =>
      cases heq
      exact Nat.pos_of_ne_zero hlen

/-- **Frame rule.**  What is still held after an operation reads as before. -/
theorem read_kept {op : Op Z} (hs : Exact t s) (ha : Allowed op s) (h : step t op s = .ok s')
    (hs' : Exact t s') {buf : BbsBuffer} (hheld : buf ∈ s'.held) {v : Bytes}
    (hv : read s.world buf = some v) : read s'.world buf = some v := by
  refine read_of_live (fun id hdata hlive => ⟨?_, ?_⟩) hv
  · have hcap := cap_pos_of_lookup hs hlive
    exact hs'.lookup_iff.mpr (Or.inl ⟨buf, hheld, hdata, hcap, rfl⟩)
  · exact step_contents hs ha h hheld hdata (Ledger.mem_holdings.mpr hlive)

/-! ## The abstract store -/

/-- The byte strings the client has, each with the buffer that names it, and the
verdicts by slot.  `none` is the null buffer of a failed call. -/
structure Store where
  entries : List (BbsBuffer × Option Bytes)
  verdicts : Nat → Int32

def Store.empty : Store := ⟨[], fun _ => 0⟩

/-- What a call leaves in its outputs. -/
def results (c : ProducingCall Z) : List (Option Bytes) :=
  match c.missing, c.rust with
  | false, .ok vs => vs.map some
  | _, _ => c.outs.map fun _ => none

/-- What a call leaves in `valid_out`. -/
def verdictOf (c : VerifyingCall Z) : Int32 :=
  match c.missing, c.rust with
  | false, .ok true => 1
  | _, _ => 0

/-- The operations on the store.  The names of new entries are up to the
allocator. -/
inductive Store.Step : Op Z → Store → Store → Prop
  | produced (c : ProducingCall Z) (added : List (BbsBuffer × Option Bytes)) (store : Store) :
      added.map Prod.snd = results c →
      Step (.call (.producing c)) store { store with entries := store.entries ++ added }
  | judged (c : VerifyingCall Z) (slot : Nat) (store : Store) : c.validOut = some slot →
      Step (.call (.verifying c)) store
        { store with verdicts := Function.update store.verdicts slot (verdictOf c) }
  | freed (buf : BbsBuffer) (store : Store) :
      Step (.freeBuffer buf) store
        { store with entries := store.entries.eraseP fun e => e.1 = buf }
  | alloc (granted : Bool) (len align : Nat) (store : Store) :
      Step (.alloc granted len align) store store
  | filled (id : Nat) (bytes : Bytes) (store : Store) : Step (.fill id bytes) store store
  | dealloc (p : DataPtr) (len align : Nat) (store : Store) :
      Step (.dealloc p len align) store store

/-- The entry is what its buffer reads as. -/
def Holds (w : World) (e : BbsBuffer × Option Bytes) : Prop :=
  read w e.1 = e.2 ∧ (e.2 = none → e.1 = BbsBuffer.null)

structure Represents (t : Target) (s : Client) (store : Store) : Prop where
  ledger : Exact t s
  held : s.held = store.entries.map Prod.fst
  holds : ∀ e ∈ store.entries, Holds s.world e
  verdicts : s.world.ints = store.verdicts

theorem represents_initial (t : Target) : Represents t Client.initial Store.empty where
  ledger := exact_initial t
  held := rfl
  holds := nofun
  verdicts := rfl

/-! ## The store is refined -/

/-- Entries whose buffers are still held still hold. -/
theorem holds_kept {op : Op Z} (hs : Exact t s) (ha : Allowed op s) (h : step t op s = .ok s')
    (hs' : Exact t s') {e : BbsBuffer × Option Bytes} (hheld : e.1 ∈ s'.held)
    (he : Holds s.world e) : Holds s'.world e := by
  obtain ⟨hread, hnull⟩ := he
  refine ⟨?_, hnull⟩
  cases hv : e.2 with
  | none =>
    rw [hnull hv]
    rfl
  | some v =>
    rw [hv] at hread
    exact read_kept hs ha h hs' hheld hread

/-- **What a call leaves in its outputs**: its results, and a null buffer where
there is none. -/
theorem produced_results {c : ProducingCall Z} {code : BbsFfiResult} {w : World}
    (hnull : ∀ out ∈ c.outs, out ≠ none)
    (h : Produced c.outs c.missing c.rust c.failed code w) :
    c.outs.map (output w) = results c ∧
      ∀ slot, some slot ∈ c.outs → read w (w.buffers slot) = none →
        w.buffers slot = BbsBuffer.null := by
  have hcleared : AllNull w c.outs → c.outs.map (output w) = c.outs.map (fun _ => none) ∧
      ∀ slot, some slot ∈ c.outs → read w (w.buffers slot) = none →
        w.buffers slot = BbsBuffer.null := by
    intro hall
    refine ⟨List.map_congr_left fun out hout => ?_, fun slot hslot _ => hall slot hslot⟩
    obtain ⟨slot, rfl⟩ := Option.ne_none_iff_exists'.mp (hnull out hout)
    show read w (w.buffers slot) = none
    rw [hall slot hout]
    rfl
  rw [results]
  cases hm : c.missing with
  | true =>
    rw [hm] at h
    exact hcleared h.2
  | false =>
    cases hr : c.rust with
    | error e =>
      rw [hm, hr] at h
      exact hcleared h.2
    | ok vs =>
      rw [hm, hr] at h
      refine ⟨h.2, fun slot hslot hread => ?_⟩
      have hmem : output w (some slot) ∈ c.outs.map (output w) := List.mem_map_of_mem hslot
      rw [h.2] at hmem
      obtain ⟨v, _, hv⟩ := List.mem_map.mp hmem
      cases hv.trans hread

/-- What a call leaves in `valid_out`. -/
theorem judged_verdict {c : VerifyingCall Z} {code : BbsFfiResult} {n : Int32}
    (h : Judged c.missing c.rust c.failed code n) : n = verdictOf c := by
  rw [verdictOf]
  cases hm : c.missing with
  | true =>
    rw [hm] at h
    exact h.2
  | false =>
    cases hr : c.rust with
    | error e =>
      rw [hm, hr] at h
      exact h.2
    | ok valid =>
      rw [hm, hr] at h
      cases valid <;> exact h.2

/-- The buffers received, one for each output. -/
theorem map_received {outs : List MutPtr} (hnull : ∀ out ∈ outs, out ≠ none) (w : World) :
    (received w outs).map (read w) = outs.map (output w) := by
  rw [received, List.map_filterMap, ← List.filterMap_eq_map]
  refine List.filterMap_congr fun out hout => ?_
  obtain ⟨slot, rfl⟩ := Option.ne_none_iff_exists'.mp (hnull out hout)
  rfl

/-- A call that keeps the ledger exact adds the entries of its outputs. -/
theorem represents_call {store : Store} (h : Represents t s store) {c : Call Z}
    (ha : Allowed (.call c) s) :
    ∃ s' store', step t (.call c) s = .ok s' ∧ Store.Step (.call c) store store' ∧
      Represents t s' store' := by
  obtain ⟨s', hstep, hs'⟩ := exact_call h.ledger ha
  have old : ∀ e ∈ store.entries, e.1 ∈ s'.held → Holds s'.world e := fun e he hheld =>
    holds_kept h.ledger ha hstep hs' hheld (h.holds e he)
  rcases c with c | c
  · obtain ⟨code, w', hrun, hhand, hends⟩ := c.spec t ha.1 ha.2 s.world
    obtain ⟨hresults, hnulls⟩ := produced_results ha.1 hends
    have hafter := hstep
    rw [step, Call.run, hrun] at hafter
    cases hafter
    let added := (received w' c.outs).map fun buf => (buf, read w' buf)
    have hheld : s.held ++ received w' c.outs = (store.entries ++ added).map Prod.fst := by
      simp [added, h.held, Function.comp_def]
    refine ⟨_, { store with entries := store.entries ++ added }, hstep,
      .produced c added store ?_, hs', hheld, fun e he => ?_, hhand.ints.trans h.verdicts⟩
    · have hreads : (received w' c.outs).map (read w') = c.outs.map (output w') :=
        map_received ha.1 w'
      rw [← hresults, ← hreads]
      simp [added]
    · rcases List.mem_append.mp he with hmem | hmem
      · refine old e hmem (List.mem_append.mpr (Or.inl ?_))
        rw [h.held]
        exact List.mem_map_of_mem hmem
      · obtain ⟨buf, hbuf, rfl⟩ := List.mem_map.mp hmem
        obtain ⟨slot, hslot, rfl⟩ := mem_received.mp hbuf
        exact ⟨rfl, hnulls slot hslot⟩
  · obtain ⟨slot, hslot⟩ :=
      Option.ne_none_iff_exists'.mp (ha.1 c.validOut (List.mem_singleton.mpr rfl))
    obtain ⟨code, n, heap, hrun, _, hends⟩ := c.spec t hslot s.world
    have hafter := hstep
    rw [step, Call.run, hrun] at hafter
    cases hafter
    have hheld : s.held ++ [] = store.entries.map Prod.fst := by rw [List.append_nil, h.held]
    refine ⟨_, { store with verdicts := Function.update store.verdicts slot (verdictOf c) }, hstep,
      .judged c slot store hslot, hs', hheld, fun e he => old e he ?_, ?_⟩
    · show e.1 ∈ s.held ++ []
      rw [hheld]
      exact List.mem_map_of_mem he
    · show Function.update s.world.ints slot n = _
      rw [judged_verdict hends, h.verdicts]

theorem represents_freeBuffer {store : Store} (h : Represents t s store) {buf : BbsBuffer}
    (ha : Allowed (Z := Z) (.freeBuffer buf) s) :
    ∃ s' store', step (Z := Z) t (.freeBuffer buf) s = .ok s' ∧
      Store.Step (Z := Z) (.freeBuffer buf) store store' ∧ Represents t s' store' := by
  obtain ⟨s', hstep, hs'⟩ := exact_freeBuffer (Z := Z) h.ledger ha
  obtain ⟨r, hr, rfl⟩ := map_eq_ok.mp hstep
  have hheld : s.held.erase buf
      = (store.entries.eraseP fun e => e.1 = buf).map Prod.fst := by
    rw [h.held, List.erase_eq_eraseP', List.eraseP_map]
    rfl
  refine ⟨_, _, hstep, .freed buf store, hs', hheld, fun e he => ?_, ?_⟩
  · refine holds_kept h.ledger ha hstep hs' ?_ (h.holds e (List.mem_of_mem_eraseP he))
    show e.1 ∈ s.held.erase buf
    rw [hheld]
    exact List.mem_map_of_mem he
  · exact (freeBuffer_heapOnly hr).ints.trans h.verdicts

/-- An operation on the regions leaves the store alone. -/
theorem represents_of_same {store : Store} (h : Represents t s store) {op : Op Z}
    (ha : Allowed op s) (hstep : step t op s = .ok s') (hs' : Exact t s')
    (hheld : s'.held = s.held) (hints : s'.world.ints = s.world.ints) :
    Represents t s' store where
  ledger := hs'
  held := hheld.trans h.held
  holds e he := by
    refine holds_kept h.ledger ha hstep hs' ?_ (h.holds e he)
    rw [hheld, h.held]
    exact List.mem_map_of_mem he
  verdicts := hints.trans h.verdicts

/-- **One operation is a step of the store.** -/
theorem represents_step (op : Op Z) (s : Client) (store : Store) (h : Represents t s store)
    (ha : Allowed op s) :
    ∃ s' store', step t op s = .ok s' ∧ Store.Step op store store' ∧ Represents t s' store' := by
  cases op with
  | call c => exact represents_call h ha
  | freeBuffer buf => exact represents_freeBuffer h ha
  | alloc granted len align =>
    obtain ⟨s', hstep, hs'⟩ := exact_alloc (Z := Z) h.ledger granted len align
    obtain ⟨⟨p, w⟩, hr, hs⟩ := map_eq_ok.mp hstep
    have hints : w.ints = s.world.ints := (alloc_heapOnly hr).ints
    refine ⟨s', store, hstep, .alloc granted len align store,
      represents_of_same h ha hstep hs' ?_ ?_⟩
    · rw [← hs]
      cases p <;> rfl
    · rw [← hs]
      cases p <;> exact hints
  | fill id bytes =>
    obtain ⟨s', hstep, hs'⟩ := exact_fill (Z := Z) h.ledger ha
    obtain ⟨r, hr, rfl⟩ := map_eq_ok.mp hstep
    exact ⟨_, store, hstep, .filled id bytes store,
      represents_of_same h ha hstep hs' rfl (fillBlock_ints hr)⟩
  | dealloc p len align =>
    obtain ⟨s', hstep, hs'⟩ := exact_dealloc (Z := Z) h.ledger ha
    obtain ⟨r, hr, hs⟩ := map_eq_ok.mp hstep
    have hints : r.2.ints = s.world.ints := (bbsFfiDealloc_heapOnly hr).ints
    refine ⟨s', store, hstep, .dealloc p len align store,
      represents_of_same h ha hstep hs' ?_ ?_⟩
    · rw [← hs]
      cases p <;> rfl
    · rw [← hs]
      cases p <;> exact hints

/-- **The heap is a byte store.**  Every disciplined run of the C functions is a
run of the store: after every step the buffers the client holds are the entries
of the store, each reads as its entry, a null buffer being the entry of a failed
call, and every slot for verdicts has the verdict of the store. -/
theorem byte_store_refined (t : Target) (ops : List (Op Z))
    (h : (system t Z).Disciplined ops Client.initial) :
    ∀ before after, ops = before ++ after → ∃ (s : Client) (store : Store),
      (system t Z).run before Client.initial = .ok s ∧
        System.SpecRun Store.Step before Store.empty store ∧
        s.held = store.entries.map Prod.fst ∧
        (∀ e ∈ store.entries, read s.world e.1 = e.2 ∧ (e.2 = none → e.1 = BbsBuffer.null)) ∧
        s.world.ints = store.verdicts := by
  rintro before after rfl
  obtain ⟨s, store, hrun, hspec, hrep⟩ := System.run_of_simulation (S := system t Z)
    (Represents t) represents_step before Client.initial Store.empty (represents_initial t) h.left
  exact ⟨s, store, hrun, hspec, hrep.held, hrep.holds, hrep.verdicts⟩

/-- A nym secret is still there after a failed call and after other buffers and
regions have come and gone. -/
theorem byte_store_refined_sample :
    ∃ (s : Client) (store : Store),
      (system (.bits64 false) transparent).run (sampleRun.take 4) Client.initial = .ok s ∧
        (⟨.block 1, 32, 35⟩, some (spread 32 5)) ∈ store.entries ∧
        read s.world ⟨.block 1, 32, 35⟩ = some (spread 32 5) := by
  obtain ⟨s, store, hrun, _, hheld, hreads, _⟩ := byte_store_refined (.bits64 false) sampleRun
    sampleRun_disciplined (sampleRun.take 4) (sampleRun.drop 4) (by rfl)
  refine ⟨s, store, hrun, ?_⟩
  cases hrun
  have hmem : (⟨.block 1, 32, 35⟩ : BbsBuffer) ∈ store.entries.map Prod.fst := by
    rw [← hheld]
    decide
  obtain ⟨e, he, hbuf⟩ := List.mem_map.mp hmem
  have hread := (hreads e he).1
  rw [hbuf] at hread
  have hbytes : e.2 = some (spread 32 5) := hread.symm.trans (by rfl)
  obtain ⟨buf, v⟩ := e
  cases hbuf
  cases hbytes
  exact ⟨he, by rfl⟩

end BbsFfi.ByteStore
