import BbsFfi.Library.Runs
import BbsFfi.Producing
import BbsFfi.Verifying

/-!
# Ownership of the heap over whole runs

A client calls the C functions in any order, writes into the regions it has
allocated, and frees what it received, each buffer and each region at most once
(`system`).  In the model a deallocation faults unless it names a live block with
the layout it was allocated with, so a run without faults frees nothing twice and
nothing under a wrong layout.  `Exact` is the invariant: the live blocks are those
behind what the client still holds.
-/

namespace BbsFfi.Ownership

open Ledgers Runs BbsFfi.Rust BbsFfi.Backend BbsFfi.Memory BbsFfi.CFfi BbsFfi.Marshal
  BbsFfi.Exits BbsFfi.Calls BbsFfi.Producing BbsFfi.Transparent

/-! ## The client -/

/-- What `bbs_ffi_alloc` returned, with the request. -/
structure Region where
  id : Nat
  len : Nat
  align : Nat
  deriving DecidableEq, Repr

def Region.block (r : Region) : Nat × Layout := (r.id, ⟨r.len, r.align⟩)

/-- The memory, the buffers received and not yet freed, and the regions
allocated and not yet released. -/
structure Client where
  world : World
  held : List BbsBuffer
  regions : List Region

def Client.initial : Client := ⟨World.initial, [], []⟩

inductive Op (Z : Zkryptium) where
  | call (c : Call Z)
  | freeBuffer (buf : BbsBuffer)
  | alloc (granted : Bool) (len align : Nat)
  | fill (id : Nat) (bytes : Bytes)
  | dealloc (p : DataPtr) (len align : Nat)

variable {Z : Zkryptium}

/-- The outputs through which a call hands out buffers. -/
def bufferOuts : Call Z → List MutPtr
  | .producing c => c.outs
  | .verifying _ => []

/-- The discipline of the header comments: distinct outputs, and everything
received goes back once, as it was received.  Null buffers and null pointers may
be freed at any time. -/
def Allowed : Op Z → Client → Prop
  | .call c, _ => (∀ out ∈ c.outs, out ≠ none) ∧ c.outs.Nodup
  | .freeBuffer buf, s => buf ∈ s.held ∨ buf = BbsBuffer.null
  | .alloc .., _ => True
  | .fill id bytes, s => ∃ r ∈ s.regions, r.id = id ∧ bytes.length ≤ r.len
  | .dealloc p len align, s => p = .null ∨ ∃ id, p = .block id ∧ ⟨id, len, align⟩ ∈ s.regions

/-- `bytes` at the start of a block. -/
def filled (id : Nat) (bytes : Bytes) (w : World) : World :=
  let rest := (w.contents id).drop bytes.length
  { w with contents := Function.update w.contents id (bytes ++ rest) }

/-- The client writes to a block. -/
def fillBlock (id : Nat) (bytes : Bytes) : FfiM Unit := do
  let w ← get
  match w.heap.live.lookup id with
  | some layout =>
    if bytes.length ≤ layout.size then set (filled id bytes w) else throw .outOfBounds
  | none => throw .outOfBounds

/-- The C function, and what the client notes of it. -/
def step (t : Target) : Op Z → Client → Except Fault Client
  | .call c, s => (c.run t s.world).map fun r =>
    { s with world := r.2, held := s.held ++ received r.2 (bufferOuts c) }
  | .freeBuffer buf, s => (bbsFfiFreeBuffer buf s.world).map fun r =>
    { s with world := r.2, held := s.held.erase buf }
  | .alloc granted len align, s => (bbsFfiAlloc t granted len align s.world).map fun r =>
    match r.1 with
    | .block id => { s with world := r.2, regions := s.regions ++ [⟨id, len, align⟩] }
    | _ => { s with world := r.2 }
  | .fill id bytes, s => (fillBlock id bytes s.world).map fun r => { s with world := r.2 }
  | .dealloc p len align, s => (bbsFfiDealloc t p len align s.world).map fun r =>
    match p with
    | .block id => { s with world := r.2, regions := s.regions.erase ⟨id, len, align⟩ }
    | _ => { s with world := r.2 }

theorem fillBlock_ok {id : Nat} {bytes : Bytes} {w : World} {layout : Layout}
    (hlive : w.heap.live.lookup id = some layout) (hlen : bytes.length ≤ layout.size) :
    fillBlock id bytes w = .ok ((), filled id bytes w) := by
  rw [fillBlock, bind_ok (show (get : FfiM World) w = .ok (w, w) from rfl)]
  simp only [hlive, if_pos hlen]
  rfl

def system (t : Target) (Z : Zkryptium) : System Client Fault (Op Z) where
  Allowed := Allowed
  step := step t

/-! ## The invariant -/

/-- The blocks the client must give back. -/
def Client.owed (s : Client) : Multiset (Nat × Layout) :=
  ↑(s.held.flatMap owned) + ↑(s.regions.map Region.block)

/-- **The ledger is exact.** -/
structure Exact (t : Target) (s : Client) : Prop where
  holdings : s.world.heap.holdings = s.owed
  sound : ∀ buf ∈ s.held, Sound s.world buf
  granted : ∀ r ∈ s.regions, r.len ≠ 0 ∧
    Layout.fromSizeAlign t r.len r.align = some ⟨r.len, r.align⟩

theorem exact_initial (t : Target) : Exact t Client.initial where
  holdings := rfl
  sound := nofun
  granted := nofun

/-- The block of a held buffer is live. -/
theorem Exact.live {t : Target} {s : Client} (hs : Exact t s) {buf : BbsBuffer}
    (hbuf : buf ∈ s.held) {id : Nat} (hdata : buf.data = .block id) :
    (id, bytesLayout buf.cap) ∈ s.world.heap.holdings := by
  rw [hs.holdings]
  refine Multiset.mem_add.mpr (Or.inl (List.mem_flatMap.mpr ⟨buf, hbuf, ?_⟩))
  rw [(hs.sound buf hbuf).owned_eq hdata]
  exact List.mem_singleton.mpr rfl

/-- Every operation hands its blocks to the client, and nothing else changes hands. -/
theorem call_holdings (t : Target) (c : Call Z) (w : World) (hnull : ∀ out ∈ c.outs, out ≠ none)
    (hdistinct : c.outs.Nodup) :
    ∃ code w', c.run t w = .ok (code, w') ∧
      w'.heap.holdings = ↑((received w' (bufferOuts c)).flatMap owned) + w.heap.holdings ∧
      (∀ buf ∈ received w' (bufferOuts c), Sound w' buf) ∧
      (∀ id layout, (id, layout) ∈ w.heap.holdings → w'.contents id = w.contents id) ∧
      (code ≠ .Ok → (received w' (bufferOuts c)).flatMap owned = []) := by
  rcases c with c | c
  · obtain ⟨code, w', hrun, hhand, hends⟩ := c.spec t hnull hdistinct w
    refine ⟨code, w', hrun, hhand.holdings, fun buf hbuf => ?_, hhand.contents, fun hcode => ?_⟩
    · obtain ⟨slot, hslot, rfl⟩ := mem_received.mp hbuf
      exact hhand.sound slot hslot
    · obtain ⟨w₁, hrun', hclear, _⟩ := run_ends t c w hnull
      cases hrun.symm.trans hrun'
      exact received_of_allNull (hclear hcode)
  · obtain ⟨slot, hslot⟩ := Option.ne_none_iff_exists'.mp (hnull _ (List.mem_singleton.mpr rfl))
    obtain ⟨code, n, heap, hrun, hheap, _⟩ := c.spec t hslot w
    refine ⟨code, _, hrun, ?_, nofun, fun _ _ _ => rfl, fun _ => rfl⟩
    show heap.holdings = ↑(([] : List BbsBuffer).flatMap owned) + w.heap.holdings
    simp [hheap]

theorem exact_call {t : Target} {s : Client} (hs : Exact t s) {c : Call Z}
    (ha : Allowed (.call c) s) : ∃ s', step t (.call c) s = .ok s' ∧ Exact t s' := by
  obtain ⟨code, w', hrun, hheld, hsound, hcontents, _⟩ := call_holdings t c s.world ha.1 ha.2
  refine ⟨{ s with world := w', held := s.held ++ received w' (bufferOuts c) },
    by rw [step, hrun]; rfl, ?_, fun buf hbuf => ?_, hs.granted⟩
  · rw [hheld, hs.holdings]
    simp only [Client.owed, List.flatMap_append, ← Multiset.coe_add]
    rw [← add_assoc]
    congr 1
    exact add_comm _ _
  · rcases List.mem_append.mp hbuf with hbuf | hbuf
    · exact (hs.sound buf hbuf).kept fun id hdata => hcontents id _ (hs.live hbuf hdata)
    · exact hsound buf hbuf

/-! ## Freeing a buffer -/

/-- A buffer whose pointer is null or whose capacity is 0 is not freed at all. -/
theorem freeBuffer_skipped {buf : BbsBuffer} (h : buf.data = .null ∨ buf.cap = 0) (w : World) :
    bbsFfiFreeBuffer buf w = .ok ((), w) := by
  have hskip : ¬ (buf.data ≠ .null ∧ buf.cap > 0) := by
    rintro ⟨hdata, hcap⟩
    rcases h with h | h
    · exact hdata h
    · omega
  rw [bbsFfiFreeBuffer, if_neg hskip]
  rfl

/-- A block is freed with its layout, as a `Vec` of initialised bytes. -/
theorem freeBuffer_block {id len cap : Nat} (hcap : 0 < cap) (w : World) :
    bbsFfiFreeBuffer ⟨.block id, len, cap⟩ w =
      if w.heap.live.lookup id ≠ some (bytesLayout cap) then .error .badDealloc
      else if len ≤ cap ∧ len ≤ (w.contents id).length then
        dealloc (.block id) (bytesLayout cap) w
      else .error .outOfBounds := by
  have hdrop : dropVec ⟨.block id, len, cap⟩ = dealloc (.block id) (bytesLayout cap) := by
    rw [dropVec, if_neg (Nat.ne_of_gt hcap)]
  have hvec := vecFromRawParts_block id len cap w
  rw [bbsFfiFreeBuffer, if_pos ⟨nofun, hcap⟩, ← hdrop]
  split at hvec
  · rw [bind_error hvec, if_pos ‹_›]
  · rw [if_neg ‹_›]
    split at hvec
    · rw [bind_ok hvec, if_pos ‹_›]
    · rw [bind_error hvec, if_neg ‹_›]

/-- **What a free that does not fault has done.** -/
theorem freeBuffer_ok {buf : BbsBuffer} {w : World} {r : Unit × World}
    (h : bbsFfiFreeBuffer buf w = .ok r) :
    ((buf.data = .null ∨ buf.cap = 0) ∧ r = ((), w)) ∨
      ∃ id heap, buf.data = .block id ∧ (buf.len ≤ buf.cap ∧ buf.len ≤ (w.contents id).length) ∧
        w.heap.release id (bytesLayout buf.cap) = some heap ∧
        r = ((), { w with heap := heap }) := by
  by_cases hskip : buf.data = .null ∨ buf.cap = 0
  · rw [freeBuffer_skipped hskip] at h
    exact Or.inl ⟨hskip, (Except.ok.inj h).symm⟩
  · obtain ⟨data, len, cap⟩ := buf
    obtain ⟨hdata, hcap⟩ := not_or.mp hskip
    cases data with
    | null => exact absurd rfl hdata
    | dangling =>
      have hpos : DataPtr.dangling ≠ .null ∧ cap > 0 := ⟨nofun, Nat.pos_of_ne_zero hcap⟩
      have hnone : ¬ (len = 0 ∧ cap = 0) := fun h => hcap h.2
      rw [bbsFfiFreeBuffer, if_pos hpos, vecFromRawParts] at h
      simp only [hnone, if_false] at h
      cases h
    | block id =>
      rw [freeBuffer_block (Nat.pos_of_ne_zero hcap)] at h
      split at h
      · cases h
      case isFalse hlive =>
        split at h
        case isTrue hlen =>
          obtain ⟨heap, hrel⟩ := Option.isSome_iff_exists.mp
            (Ledger.release_isSome_iff.mpr (not_not.mp hlive))
          rw [dealloc_block hrel] at h
          exact Or.inr ⟨id, heap, rfl, hlen, hrel, (Except.ok.inj h).symm⟩
        · cases h

/-- A sound buffer either owns nothing, and freeing it does nothing, or a block. -/
theorem freeBuffer_cases {w : World} {buf : BbsBuffer} (h : Sound w buf) :
    (owned buf = [] ∧ bbsFfiFreeBuffer buf w = .ok ((), w)) ∨
      ∃ id, buf.data = .block id ∧ owned buf = [(id, bytesLayout buf.cap)] ∧
        ((id, bytesLayout buf.cap) ∈ w.heap.holdings →
          bbsFfiFreeBuffer buf w = dealloc (.block id) (bytesLayout buf.cap) w) := by
  obtain ⟨data, len, cap⟩ := buf
  cases data with
  | null => exact Or.inl ⟨rfl, freeBuffer_skipped (Or.inl rfl) w⟩
  | dangling => exact Or.inl ⟨rfl, freeBuffer_skipped (Or.inr (h.dangling rfl).2) w⟩
  | block id =>
    obtain ⟨hcap, hlen⟩ := h.block id rfl
    refine Or.inr ⟨id, rfl, h.owned_eq rfl, fun hlive => ?_⟩
    rw [freeBuffer_block hcap, if_neg (not_not.mpr (Ledger.mem_holdings.mp hlive)), if_pos hlen]

theorem exact_freeBuffer {t : Target} {s : Client} (hs : Exact t s) {buf : BbsBuffer}
    (ha : Allowed (Z := Z) (.freeBuffer buf) s) :
    ∃ s', step (Z := Z) t (.freeBuffer buf) s = .ok s' ∧ Exact t s' := by
  have hsound : Sound s.world buf := by
    rcases ha with hmem | rfl
    · exact hs.sound buf hmem
    · exact sound_null _
  have hkept : ∀ b ∈ s.held.erase buf, Sound s.world b :=
    fun b hb => hs.sound b (List.mem_of_mem_erase hb)
  have hsplit : buf ∈ s.held → (↑(s.held.flatMap owned) : Multiset (Nat × Layout))
      = ↑(owned buf) + ↑((s.held.erase buf).flatMap owned) := by
    intro hmem
    rw [Multiset.coe_add, ← List.flatMap_cons]
    exact Multiset.coe_eq_coe.mpr ((List.perm_cons_erase hmem).flatMap_right owned)
  rcases freeBuffer_cases hsound with ⟨hown, hfree⟩ | ⟨id, hdata, hown, hfree⟩
  · refine ⟨{ s with held := s.held.erase buf }, by rw [step, hfree]; rfl, ?_, hkept, hs.granted⟩
    rw [hs.holdings, Client.owed, Client.owed]
    by_cases hmem : buf ∈ s.held
    · rw [hsplit hmem, hown]
      simp
    · rw [List.erase_of_not_mem hmem]
  · have hmem : buf ∈ s.held := by
      rcases ha with hmem | rfl
      · exact hmem
      · cases hown
    have hheld := hs.holdings
    rw [Client.owed, hsplit hmem, hown, Multiset.coe_singleton, Multiset.singleton_add,
      Multiset.cons_add] at hheld
    obtain ⟨heap, hrel, hrest⟩ := Ledger.release_of_holdings hheld
    exact ⟨{ s with world := { s.world with heap := heap }, held := s.held.erase buf },
      by rw [step, hfree (hs.live hmem hdata), dealloc_block hrel]; rfl, hrest,
      fun b hb => (hkept b hb).kept fun _ _ => rfl, hs.granted⟩

/-! ## Regions -/

theorem fromSizeAlign_shape {t : Target} {size align : Nat} {layout : Layout}
    (h : Layout.fromSizeAlign t size align = some layout) : layout = ⟨size, align⟩ := by
  rw [Layout.fromSizeAlign] at h
  split at h
  · exact (Option.some.inj h).symm
  · cases h

theorem exact_alloc {t : Target} {s : Client} (hs : Exact t s) (granted : Bool) (len align : Nat) :
    ∃ s', step (Z := Z) t (.alloc granted len align) s = .ok s' ∧ Exact t s' := by
  have hnull : bbsFfiAlloc t granted len align s.world = .ok (.null, s.world) →
      ∃ s', step (Z := Z) t (.alloc granted len align) s = .ok s' ∧ Exact t s' :=
    fun h => ⟨_, by rw [step, h]; rfl, hs⟩
  by_cases hlen : len = 0
  · exact hnull (by rw [bbsFfiAlloc, if_pos hlen]; rfl)
  · cases hlayout : Layout.fromSizeAlign t len align with
    | none => exact hnull (by rw [bbsFfiAlloc, if_neg hlen, hlayout]; rfl)
    | some layout =>
      cases granted with
      | false => exact hnull (by rw [bbsFfiAlloc, if_neg hlen, hlayout]; rfl)
      | true =>
        obtain rfl := fromSizeAlign_shape hlayout
        have hrun : bbsFfiAlloc t true len align s.world = .ok (.block s.world.heap.next,
            { s.world with heap := s.world.heap.acquire ⟨len, align⟩ }) := by
          rw [bbsFfiAlloc, if_neg hlen, hlayout]
          rfl
        refine ⟨{ s with
            world := { s.world with heap := s.world.heap.acquire ⟨len, align⟩ }
            regions := s.regions ++ [⟨s.world.heap.next, len, align⟩] },
          by rw [step, hrun]; rfl, ?_,
          fun buf hbuf => (hs.sound buf hbuf).kept fun _ _ => rfl, fun r hr => ?_⟩
        · rw [Ledger.holdings_acquire, hs.holdings, ← Multiset.singleton_add, add_comm]
          simp only [Client.owed, List.map_append, ← Multiset.coe_add, add_assoc]
          rfl
        · rcases List.mem_append.mp hr with hr | hr
          · exact hs.granted r hr
          · obtain rfl := List.mem_singleton.mp hr
            exact ⟨hlen, hlayout⟩

theorem exact_dealloc {t : Target} {s : Client} (hs : Exact t s) {p : DataPtr} {len align : Nat}
    (ha : Allowed (Z := Z) (.dealloc p len align) s) :
    ∃ s', step (Z := Z) t (.dealloc p len align) s = .ok s' ∧ Exact t s' := by
  rcases ha with rfl | ⟨id, rfl, hmem⟩
  · exact ⟨_, rfl, hs⟩
  · obtain ⟨hlen, hlayout⟩ := hs.granted _ hmem
    have hsplit : (↑(s.regions.map Region.block) : Multiset (Nat × Layout))
        = (id, ⟨len, align⟩) ::ₘ ↑((s.regions.erase ⟨id, len, align⟩).map Region.block) :=
      Multiset.coe_eq_coe.mpr ((List.perm_cons_erase hmem).map Region.block)
    have hheld := hs.holdings
    rw [Client.owed, hsplit, Multiset.add_cons] at hheld
    obtain ⟨heap, hrel, hrest⟩ := Ledger.release_of_holdings hheld
    have hrun : bbsFfiDealloc t (.block id) len align s.world
        = .ok ((), { s.world with heap := heap }) := by
      rw [bbsFfiDealloc, if_neg (by simpa using hlen), hlayout]
      exact dealloc_block hrel
    exact ⟨{ s with
        world := { s.world with heap := heap }
        regions := s.regions.erase ⟨id, len, align⟩ },
      by rw [step, hrun]; rfl, hrest, fun buf hbuf => (hs.sound buf hbuf).kept fun _ _ => rfl,
      fun r hr => hs.granted r (List.mem_of_mem_erase hr)⟩

/-- The block of a region is live. -/
theorem Exact.live_region {t : Target} {s : Client} (hs : Exact t s) {r : Region}
    (hr : r ∈ s.regions) : (r.id, ⟨r.len, r.align⟩) ∈ s.world.heap.holdings := by
  rw [hs.holdings]
  exact Multiset.mem_add.mpr (Or.inr (List.mem_map.mpr ⟨r, hr, rfl⟩))

/-- No buffer shares its block with a region. -/
theorem Exact.region_ne {t : Target} {s : Client} (hs : Exact t s) {buf : BbsBuffer}
    (hbuf : buf ∈ s.held) {r : Region} (hr : r ∈ s.regions) : buf.data ≠ .block r.id := by
  intro hdata
  have hids := s.world.heap.nodup_ids
  rw [hs.holdings, Client.owed, Multiset.map_add, Multiset.nodup_add] at hids
  have hheld : (r.id, bytesLayout buf.cap) ∈ s.held.flatMap owned := by
    refine List.mem_flatMap.mpr ⟨buf, hbuf, ?_⟩
    rw [(hs.sound buf hbuf).owned_eq hdata]
    exact List.mem_singleton.mpr rfl
  have hregion : r.block ∈ s.regions.map Region.block := List.mem_map.mpr ⟨r, hr, rfl⟩
  exact Multiset.disjoint_left.mp hids.2.2 (Multiset.mem_map_of_mem Prod.fst hheld)
    (Multiset.mem_map.mpr ⟨r.block, hregion, rfl⟩)

theorem exact_fill {t : Target} {s : Client} (hs : Exact t s) {id : Nat} {bytes : Bytes}
    (ha : Allowed (Z := Z) (.fill id bytes) s) :
    ∃ s', step (Z := Z) t (.fill id bytes) s = .ok s' ∧ Exact t s' := by
  obtain ⟨r, hr, rfl, hlen⟩ := ha
  have hlive := Ledger.mem_holdings.mp (hs.live_region hr)
  have hfill := fillBlock_ok hlive hlen
  refine ⟨{ s with world := filled r.id bytes s.world }, by rw [step, hfill]; rfl, hs.holdings,
    fun buf hbuf => ?_, hs.granted⟩
  refine (hs.sound buf hbuf).kept fun id hdata => Function.update_of_ne ?_ ..
  rintro rfl
  exact hs.region_ne hbuf hr hdata

/-- One allowed operation does not fault and keeps the ledger exact. -/
theorem exact_step {t : Target} (op : Op Z) (s : Client) (hs : Exact t s) (ha : Allowed op s) :
    ∃ s', step t op s = .ok s' ∧ Exact t s' := by
  cases op with
  | call c => exact exact_call hs ha
  | freeBuffer buf => exact exact_freeBuffer hs ha
  | alloc granted len align => exact exact_alloc hs granted len align
  | fill id bytes => exact exact_fill hs ha
  | dealloc p len align => exact exact_dealloc hs ha

/-! ## Whole runs -/

/-- The live blocks of an exact ledger, one by one. -/
theorem Exact.lookup_iff {t : Target} {s : Client} (hs : Exact t s) {id : Nat} {layout : Layout} :
    s.world.heap.live.lookup id = some layout ↔
      (∃ buf ∈ s.held, buf.data = .block id ∧ 0 < buf.cap ∧ layout = bytesLayout buf.cap) ∨
        ∃ r ∈ s.regions, r.id = id ∧ layout = ⟨r.len, r.align⟩ := by
  rw [← Ledger.mem_holdings, hs.holdings, Client.owed, Multiset.mem_add, Multiset.mem_coe,
    Multiset.mem_coe, List.mem_flatMap, List.mem_map]
  refine or_congr (exists_congr fun buf => and_congr_right fun _ => ?_)
    (exists_congr fun r => and_congr_right fun _ => ?_)
  · obtain ⟨data, len, cap⟩ := buf
    cases data with
    | null => simp [owned]
    | dangling => simp [owned]
    | block id' =>
      by_cases hcap : cap = 0
      · simp [owned, hcap]
      · simp [owned, hcap, Nat.pos_of_ne_zero hcap, eq_comm]
  · simp [Region.block, eq_comm]

/-- **The ownership ledger.**  No disciplined run faults, so every deallocation
names a live block with the layout it was allocated with.  After every step the
live blocks are exactly those behind the buffers with capacity and the regions
the client still holds; a failing call leaves nothing behind, and where the
client has given everything back the heap is empty. -/
theorem ledger_exact (t : Target) (ops : List (Op Z))
    (h : (system t Z).Disciplined ops Client.initial) :
    ∀ before after, ops = before ++ after →
      ∃ s, (system t Z).run before Client.initial = .ok s ∧
        s.world.heap.holdings = s.owed ∧
        (∀ id layout, s.world.heap.live.lookup id = some layout ↔
          (∃ buf ∈ s.held, buf.data = .block id ∧ 0 < buf.cap ∧ layout = bytesLayout buf.cap) ∨
            ∃ r ∈ s.regions, r.id = id ∧ layout = ⟨r.len, r.align⟩) ∧
        (∀ c : Call Z, Allowed (.call c) s → ∃ code w', c.run t s.world = .ok (code, w') ∧
          (code ≠ .Ok → w'.heap.holdings = s.world.heap.holdings)) ∧
        ((∀ buf ∈ s.held, owned buf = []) → s.regions = [] → s.world.heap.live = ∅) := by
  rintro before after rfl
  obtain ⟨s, hrun, hs⟩ := System.run_of_invariant (Exact t) (fun op s => exact_step op s) before
    Client.initial (exact_initial t) h.left
  refine ⟨s, hrun, hs.holdings, fun id layout => hs.lookup_iff, fun c ha => ?_,
    fun hheld hregions => Ledger.live_eq_empty ?_⟩
  · obtain ⟨code, w', hcall, hheap, _, _, hfail⟩ := call_holdings t c s.world ha.1 ha.2
    refine ⟨code, w', hcall, fun hcode => ?_⟩
    rw [hheap, hfail hcode]
    simp
  · rw [hs.holdings, Client.owed, List.flatMap_eq_nil_iff.mpr hheld, hregions]
    simp

/-- A region, a secret with spare capacity, a failing call and a null buffer,
all given back. -/
def sampleRun : List (Op transparent) :=
  [.alloc true 16 8,
    .call (.producing (.generateNymSecret (5 : UInt8) (fun _ => 3) (some 0))),
    .call (.producing (.sign (0 : UInt8) (fun _ => 0) (CSlice.null 0) (CSlice.null 0)
      (CSlice.null 0) (CSlice.null 0) (some 0))),
    .freeBuffer BbsBuffer.null,
    .freeBuffer ⟨.block 1, 32, 35⟩,
    .alloc true 0 8,
    .alloc true 16 6,
    .dealloc (.block 0) 16 8]

theorem sampleRun_disciplined :
    (system (.bits64 false) transparent).Disciplined sampleRun Client.initial := by
  refine .cons trivial ?_
  rintro _ ⟨⟩
  refine .cons ⟨by decide, by decide⟩ ?_
  rintro _ ⟨⟩
  refine .cons ⟨by decide, by decide⟩ ?_
  rintro _ ⟨⟩
  refine .cons (Or.inr rfl) ?_
  rintro _ ⟨⟩
  refine .cons (Or.inl (by decide)) ?_
  rintro _ ⟨⟩
  refine .cons trivial ?_
  rintro _ ⟨⟩
  refine .cons trivial ?_
  rintro _ ⟨⟩
  refine .cons (Or.inr ⟨0, rfl, by decide⟩) ?_
  rintro _ ⟨⟩
  exact .nil _

theorem ledger_exact_sample :
    ∃ s, (system (.bits64 false) transparent).run sampleRun Client.initial = .ok s ∧
      s.world.heap.live = ∅ := by
  obtain ⟨s, hrun, _, _, _, hempty⟩ := ledger_exact (.bits64 false) sampleRun
    sampleRun_disciplined sampleRun [] (List.append_nil _).symm
  refine ⟨s, hrun, ?_⟩
  cases hrun
  exact hempty (by decide) rfl

end BbsFfi.Ownership
