import BbsFfi.ByteStore

/-!
# Outside the discipline

What the C functions do where their client does not keep to the discipline of
`Ownership`.  In a reachable state exactly the blocks the client holds can be
freed, and each of them once (`deallocations_defined`).  A call with one slot for
both of its outputs loses the first result: its block is never freed again, and
its bytes stay in memory (`aliased_outputs_leak`).
-/

namespace BbsFfi.Misuse

open Results Ledgers Runs BbsFfi.Rust BbsFfi.Backend BbsFfi.Memory BbsFfi.CFfi BbsFfi.Marshal
  BbsFfi.Exits BbsFfi.Calls BbsFfi.Transparent BbsFfi.Ownership BbsFfi.ByteStore

variable {Z : Zkryptium} {t : Target} {s : Client}

/-! ## What can be freed -/

/-- The client holds the block `id`, as a buffer or as a region of this layout. -/
def Owns (s : Client) (id : Nat) (layout : Layout) : Prop :=
  (∃ buf ∈ s.held, buf.data = .block id ∧ 0 < buf.cap ∧ layout = bytesLayout buf.cap) ∨
    ∃ r ∈ s.regions, r.id = id ∧ layout = ⟨r.len, r.align⟩

theorem release_iff_owns (hs : Exact t s) {id : Nat} {layout : Layout} :
    (∃ heap, s.world.heap.release id layout = some heap) ↔ Owns s id layout := by
  rw [← Option.isSome_iff_exists, Ledger.release_isSome_iff]
  exact hs.lookup_iff

theorem dealloc_ok_iff (hs : Exact t s) {p : DataPtr} {layout : Layout} :
    (∃ r, dealloc p layout s.world = .ok r) ↔ ∃ id, p = .block id ∧ Owns s id layout := by
  cases p with
  | null => exact ⟨fun ⟨_, h⟩ => (by cases h), fun ⟨_, h, _⟩ => (by cases h)⟩
  | dangling => exact ⟨fun ⟨_, h⟩ => (by cases h), fun ⟨_, h, _⟩ => (by cases h)⟩
  | block id =>
    constructor
    · rintro ⟨r, h⟩
      refine ⟨id, rfl, (release_iff_owns hs).mp ?_⟩
      cases hrel : s.world.heap.release id layout with
      | none =>
        rw [dealloc_refused hrel] at h
        cases h
      | some heap => exact ⟨heap, rfl⟩
    · rintro ⟨_, ⟨⟩, howns⟩
      obtain ⟨heap, hrel⟩ := (release_iff_owns hs).mpr howns
      exact ⟨_, dealloc_block hrel⟩

theorem freeBuffer_ok_iff (hs : Exact t s) {buf : BbsBuffer} :
    (∃ r, bbsFfiFreeBuffer buf s.world = .ok r) ↔
      (buf.data = .null ∨ buf.cap = 0) ∨
        ∃ id, buf.data = .block id ∧ Owns s id (bytesLayout buf.cap) ∧
          buf.len ≤ buf.cap ∧ buf.len ≤ (s.world.contents id).length := by
  constructor
  · rintro ⟨r, h⟩
    rcases freeBuffer_ok h with ⟨hskip, _⟩ | ⟨id, heap, hdata, hlen, hrel, _⟩
    · exact Or.inl hskip
    · exact Or.inr ⟨id, hdata, (release_iff_owns hs).mp ⟨heap, hrel⟩, hlen⟩
  · rintro (hskip | ⟨id, hdata, howns, hlen⟩)
    · exact ⟨_, freeBuffer_skipped hskip _⟩
    · by_cases hcap : buf.cap = 0
      · exact ⟨_, freeBuffer_skipped (Or.inr hcap) _⟩
      · obtain ⟨data, len, cap⟩ := buf
        obtain rfl : data = .block id := hdata
        obtain ⟨heap, hrel⟩ := (release_iff_owns hs).mpr howns
        refine ⟨((), { s.world with heap := heap }), ?_⟩
        have hlive := hs.lookup_iff.mpr howns
        rw [freeBuffer_block (Nat.pos_of_ne_zero hcap), if_neg (not_not.mpr hlive), if_pos hlen,
          dealloc_block hrel]

theorem bbsFfiDealloc_ok_iff (hs : Exact t s) {p : DataPtr} {len align : Nat} :
    (∃ r, bbsFfiDealloc t p len align s.world = .ok r) ↔
      (p = .null ∨ len = 0) ∨ Layout.fromSizeAlign t len align = none ∨
        ∃ id, p = .block id ∧ Owns s id ⟨len, align⟩ := by
  by_cases h : p = .null ∨ len = 0
  · exact ⟨fun _ => Or.inl h, fun _ => ⟨_, by rw [bbsFfiDealloc, if_pos h]; rfl⟩⟩
  · rw [bbsFfiDealloc, if_neg h]
    cases hlayout : Layout.fromSizeAlign t len align with
    | none => exact ⟨fun _ => Or.inr (Or.inl rfl), fun _ => ⟨_, rfl⟩⟩
    | some layout =>
      obtain rfl := fromSizeAlign_shape hlayout
      simp only [dealloc_ok_iff hs, h, false_or, reduceCtorEq]

/-- Once a buffer has been freed, freeing its block again faults, whatever the
length and the capacity that are stated. -/
theorem freeBuffer_twice {buf other : BbsBuffer} {w : World} {r : Unit × World}
    (h : ¬ (buf.data = .null ∨ buf.cap = 0)) (hfree : bbsFfiFreeBuffer buf w = .ok r)
    (hdata : other.data = buf.data) (hcap : 0 < other.cap) :
    bbsFfiFreeBuffer other r.2 = .error .badDealloc := by
  rcases freeBuffer_ok hfree with ⟨hskip, _⟩ | ⟨id, heap, hid, _, hrel, rfl⟩
  · exact absurd hskip h
  · obtain ⟨data, len, cap⟩ := other
    obtain rfl : data = .block id := hdata.trans hid
    have hgone : heap.live.lookup id ≠ some (bytesLayout cap) := fun hlive =>
      Option.not_isSome_iff_eq_none.mpr (Ledger.release_release hrel (bytesLayout cap))
        (Ledger.release_isSome_iff.mpr hlive)
    rw [freeBuffer_block hcap, if_pos hgone]

theorem owed_nodup (hs : Exact t s) : (s.owed.map Prod.fst).Nodup := by
  rw [← hs.holdings]
  exact Ledger.nodup_ids _

/-- **Which deallocations are defined.**  In every reachable state no two of the
buffers and regions the client holds share a block.  Freeing a buffer is defined
exactly when it is null, has no capacity, or states a block the client holds
with the layout it was allocated with, be it as a buffer or as a region, and a
length within its capacity and the bytes that have been written there.  Giving
back a region asks for the layout alone, and passes over one that could never have
been allocated.  A buffer that has been freed cannot be freed again. -/
theorem deallocations_defined (t : Target) (ops : List (Op Z))
    (h : (system t Z).Disciplined ops Client.initial) :
    ∃ s, (system t Z).run ops Client.initial = .ok s ∧ (s.owed.map Prod.fst).Nodup ∧
      (∀ buf, (∃ r, bbsFfiFreeBuffer buf s.world = .ok r) ↔
        (buf.data = .null ∨ buf.cap = 0) ∨
          ∃ id, buf.data = .block id ∧ Owns s id (bytesLayout buf.cap) ∧
            buf.len ≤ buf.cap ∧ buf.len ≤ (s.world.contents id).length) ∧
      (∀ p len align, (∃ r, bbsFfiDealloc t p len align s.world = .ok r) ↔
        (p = .null ∨ len = 0) ∨ Layout.fromSizeAlign t len align = none ∨
          ∃ id, p = .block id ∧ Owns s id ⟨len, align⟩) ∧
      (∀ buf other r, bbsFfiFreeBuffer buf s.world = .ok r → buf.data ≠ .null → 0 < buf.cap →
        other.data = buf.data → 0 < other.cap →
          bbsFfiFreeBuffer other r.2 = .error .badDealloc) := by
  obtain ⟨s, hrun, hs⟩ := System.run_of_invariant (Exact t) (fun op s => exact_step op s) ops
    Client.initial (exact_initial t) h
  refine ⟨s, hrun, owed_nodup hs, fun buf => freeBuffer_ok_iff hs,
    fun p len align => bbsFfiDealloc_ok_iff hs, fun buf other r hfree hdata hcap => ?_⟩
  refine freeBuffer_twice ?_ hfree
  rintro (hnull | hzero)
  · exact hdata hnull
  · omega

/-- A nym secret is freed, and then freed again. -/
theorem deallocations_defined_sample :
    ∃ s, (system (.bits64 false) transparent).run (sampleRun.take 4) Client.initial = .ok s ∧
      ∃ r, bbsFfiFreeBuffer ⟨.block 1, 32, 35⟩ s.world = .ok r ∧
        bbsFfiFreeBuffer ⟨.block 1, 32, 35⟩ r.2 = .error .badDealloc := by
  have hdisciplined : (system (.bits64 false) transparent).Disciplined
      (sampleRun.take 4 ++ sampleRun.drop 4) Client.initial := sampleRun_disciplined
  obtain ⟨s, hrun, _, hfree, _, htwice⟩ := deallocations_defined (.bits64 false)
    (sampleRun.take 4) hdisciplined.left
  have hheld : (⟨.block 1, 32, 35⟩ : BbsBuffer) ∈ s.held ∧ 32 ≤ (s.world.contents 1).length := by
    cases hrun
    exact ⟨by decide, by decide⟩
  obtain ⟨r, hr⟩ := (hfree ⟨.block 1, 32, 35⟩).mpr
    (Or.inr ⟨1, rfl, Or.inl ⟨_, hheld.1, rfl, by decide, rfl⟩, by decide, hheld.2⟩)
  exact ⟨s, hrun, r, hr, htwice _ _ _ hr nofun (by decide) rfl (by decide)⟩

/-! ## One slot for two outputs -/

theorem writeVecs_aliased (slot : Nat) (first second : Bytes) (spare : Nat → Nat) (w : World) :
    ∃ w₁ w₂, writeVecs spare [(some slot, first), (some slot, second)] w = .ok ((), w₂) ∧
      Handed [some slot] w w₁ ∧ Handed [some slot] w₁ w₂ ∧
      read w₂ (w₁.buffers slot) = some first ∧ read w₂ (w₂.buffers slot) = some second := by
  obtain ⟨v₁, w', w₁, hvec₁, hwrite₁, hhand₁, hout₁⟩ := writeVec_spec slot first (spare 0) w
  obtain ⟨v₂, w'', w₂, hvec₂, hwrite₂, hhand₂, hout₂⟩ := writeVec_spec slot second (spare 1) w₁
  refine ⟨w₁, w₂, ?_, hhand₁, hhand₂, hhand₂.read hout₁, hout₂⟩
  exact (bind_ok hvec₁).trans ((bind_ok hwrite₁).trans ((bind_ok hvec₂).trans (bind_ok hwrite₂)))

/-- A client that also holds `lost`. -/
def withLost (lost : BbsBuffer) (s : Client) : Client := { s with held := lost :: s.held }

theorem not_mem_of_withLost {lost : BbsBuffer} (hs : Exact t (withLost lost s)) {id : Nat}
    {layout : Layout} (hlost : owned lost = [(id, layout)]) (layout' : Layout) :
    (id, layout') ∉ s.owed := by
  have hnodup := owed_nodup hs
  have howed : (withLost lost s).owed = (id, layout) ::ₘ s.owed := by
    rw [Client.owed, Client.owed, withLost, List.flatMap_cons, hlost, ← Multiset.coe_add,
      add_assoc]
    rfl
  rw [howed, Multiset.map_cons, Multiset.nodup_cons] at hnodup
  intro hmem
  exact hnodup.1 (Multiset.mem_map.mpr ⟨_, hmem, rfl⟩)

theorem allowed_withLost {lost : BbsBuffer} {op : Op Z} (ha : Allowed op s) :
    Allowed op (withLost lost s) := by
  cases op with
  | call c => exact ha
  | freeBuffer buf =>
    rcases ha with hmem | hnull
    · exact Or.inl (List.mem_cons_of_mem _ hmem)
    · exact Or.inr hnull
  | alloc granted len align => trivial
  | fill id bytes => exact ha
  | dealloc p len align => exact ha

/-- Who does not free the lost buffer does not notice it. -/
theorem step_withLost {lost : BbsBuffer} {op : Op Z} (hne : op ≠ .freeBuffer lost) :
    step t op (withLost lost s) = (step t op s).map (withLost lost) := by
  cases op with
  | call c =>
    simp only [step, withLost]
    cases c.run t s.world <;> rfl
  | freeBuffer buf =>
    have hbuf : ¬ (lost == buf) = true := by
      rw [beq_iff_eq]
      rintro rfl
      exact hne rfl
    simp only [step, withLost, List.erase_cons_tail hbuf]
    cases bbsFfiFreeBuffer buf s.world <;> rfl
  | alloc granted len align =>
    simp only [step, withLost]
    cases bbsFfiAlloc t granted len align s.world with
    | error e => rfl
    | ok r =>
      obtain ⟨p, w⟩ := r
      cases p <;> rfl
  | fill id bytes =>
    simp only [step, withLost]
    cases fillBlock id bytes s.world <;> rfl
  | dealloc p len align =>
    simp only [step, withLost]
    cases bbsFfiDealloc t p len align s.world with
    | error e => rfl
    | ok r => cases p <;> rfl

theorem owned_of_read (hs : Exact t s) {buf : BbsBuffer} {v : Bytes}
    (hread : read s.world buf = some v) (hv : v ≠ []) :
    ∃ id, buf.data = .block id ∧ owned buf = [(id, bytesLayout buf.cap)] := by
  obtain ⟨data, len, cap⟩ := buf
  cases data with
  | null => cases hread
  | dangling =>
    cases hread
    exact absurd rfl hv
  | block id =>
    have hcap := cap_pos_of_lookup hs (read_block_iff.mp hread).1
    exact ⟨id, rfl, if_neg (Nat.ne_of_gt hcap)⟩

/-- **A lost buffer stays lost.**  It is kept by every operation the client may
still do. -/
theorem lost_step {lost : BbsBuffer} {v : Bytes} (hv : v ≠ []) (op : Op Z) (s : Client)
    (hs : Exact t (withLost lost s) ∧ read s.world lost = some v) (ha : Allowed op s) :
    ∃ s', step t op s = .ok s' ∧ Exact t (withLost lost s') ∧ read s'.world lost = some v := by
  obtain ⟨hexact, hread⟩ := hs
  obtain ⟨id, _, howned⟩ := owned_of_read (s := withLost lost s) hexact hread hv
  have hne : op ≠ .freeBuffer lost := by
    rintro rfl
    rcases ha with hmem | rfl
    · refine not_mem_of_withLost hexact howned (bytesLayout lost.cap) ?_
      refine Multiset.mem_add.mpr (Or.inl (Multiset.mem_coe.mpr ?_))
      exact List.mem_flatMap.mpr ⟨lost, hmem, by rw [howned]; exact List.mem_singleton.mpr rfl⟩
    · cases hread
  obtain ⟨g, hstep, hg⟩ := exact_step op _ hexact (allowed_withLost ha)
  have hkept : read g.world lost = some v := by
    refine read_kept hexact (allowed_withLost ha) hstep hg ?_ hread
    rw [step_withLost hne] at hstep
    obtain ⟨s', _, rfl⟩ := map_eq_ok.mp hstep
    exact List.mem_cons_self
  rw [step_withLost hne] at hstep
  obtain ⟨s', hs', rfl⟩ := map_eq_ok.mp hstep
  exact ⟨s', hs', hg, hkept⟩

theorem aliased_call (hs : Exact t s) {c : ProducingCall Z} {slot : Nat}
    (houts : c.outs = [some slot, some slot]) {first second : Bytes} (hcode : c.code = .Ok)
    (hrust : c.rust = .ok [first, second]) :
    ∃ w' lost, c.run t s.world = .ok (.Ok, w') ∧ read w' (w'.buffers slot) = some second ∧
      read w' lost = some first ∧
      Exact t (withLost lost ⟨w', s.held ++ [w'.buffers slot], s.regions⟩) := by
  obtain ⟨spare, call, writes, r, values, hrun, hcall, hr, hwrites, _⟩ := c.shape t
  have hmissing : c.missing = false := ((exitCode_eq_ok c.failed_ne.1).mp hcode).1
  obtain ⟨heap, hcallee, hheap⟩ := callee_of_marshals (hcall hmissing) s.world
  obtain ⟨v, rfl, hvalues⟩ := map_eq_ok.mp (hr.symm.trans hrust)
  obtain ⟨w₁, w₂, hwrite, hhand₁, hhand₂, hfirst, hsecond⟩ :=
    writeVecs_aliased slot first second spare { s.world with heap := heap }
  have hproduce : c.run t s.world = .ok (.Ok, w₂) := by
    have hany : ¬ c.outs.any Option.isNone = true := by simp [houts]
    rw [hrun, produce, if_neg hany, hmissing]
    refine (bind_ok hcallee).trans ?_
    have hzip : writes v = [(some slot, first), (some slot, second)] := by
      rw [hwrites, hvalues, houts]
      rfl
    rw [← hzip] at hwrite
    exact bind_ok hwrite
  refine ⟨w₂, w₁.buffers slot, hproduce, hsecond, hfirst, ?_, ?_, hs.granted⟩
  · show w₂.heap.holdings = _
    rw [hhand₂.holdings, hhand₁.holdings, hheap, hs.holdings]
    simp only [withLost, Client.owed, received, List.filterMap_cons, Option.map_some,
      List.filterMap_nil, List.flatMap_cons, List.flatMap_nil, List.append_nil,
      List.flatMap_append, ← Multiset.coe_add]
    ac_rfl
  · intro buf hbuf
    have hslot : some slot ∈ [some slot] := List.mem_singleton.mpr rfl
    rcases List.mem_cons.mp hbuf with rfl | hbuf
    · exact (hhand₁.sound slot hslot).kept fun id hdata =>
        hhand₂.contents id _ (hhand₁.live hslot hdata)
    · rcases List.mem_append.mp hbuf with hbuf | hbuf
      · refine (hs.sound buf hbuf).kept fun id hdata => ?_
        have hlive : (id, bytesLayout buf.cap) ∈ heap.holdings := hheap ▸ hs.live hbuf hdata
        have hlive₁ : (id, bytesLayout buf.cap) ∈ w₁.heap.holdings := by
          rw [hhand₁.holdings]
          exact Multiset.mem_add.mpr (Or.inr hlive)
        exact (hhand₂.contents id _ hlive₁).trans (hhand₁.contents id _ hlive)
      · obtain rfl := List.mem_singleton.mp hbuf
        exact hhand₂.sound slot hslot

/-- **Aliased outputs leak.**  A call that succeeds with one slot for its two
outputs leaves the second result in it.  The first one, a secret key where the
call generates keys, stays in memory whatever the client does from there on: its
bytes can be read in every later state, and its block is never the client's to
free. -/
theorem aliased_outputs_leak (t : Target) (ops : List (Op Z))
    (h : (system t Z).Disciplined ops Client.initial) (c : ProducingCall Z) (slot : Nat)
    (houts : c.outs = [some slot, some slot]) (first second : Bytes) (hcode : c.code = .Ok)
    (hrust : c.rust = .ok [first, second]) (hne : first ≠ []) :
    ∃ s w' lost id, (system t Z).run ops Client.initial = .ok s ∧
      c.run t s.world = .ok (.Ok, w') ∧ read w' (w'.buffers slot) = some second ∧
      lost.data = .block id ∧
      ∀ later, (system t Z).Disciplined later ⟨w', s.held ++ [w'.buffers slot], s.regions⟩ →
        ∃ s', (system t Z).run later ⟨w', s.held ++ [w'.buffers slot], s.regions⟩ = .ok s' ∧
          read s'.world lost = some first ∧ ∀ layout, (id, layout) ∉ s'.owed := by
  obtain ⟨s, hrun, hs⟩ := System.run_of_invariant (Exact t) (fun op s => exact_step op s) ops
    Client.initial (exact_initial t) h
  obtain ⟨w', lost, hcall, hsecond, hfirst, hexact⟩ := aliased_call hs houts hcode hrust
  obtain ⟨id, hid, howned⟩ := owned_of_read hexact hfirst hne
  refine ⟨s, w', lost, id, hrun, hcall, hsecond, hid, fun later hlater => ?_⟩
  obtain ⟨s', hlate, hexact', hread⟩ := System.run_of_invariant (S := system t Z)
    (fun s => Exact t (withLost lost s) ∧ read s.world lost = some first)
    (fun op s => lost_step hne op s) later _ ⟨hexact, hfirst⟩ hlater
  exact ⟨s', hlate, hread, not_mem_of_withLost hexact' howned⟩

/-- Keys generated with one slot for both: the secret key is still in memory
after everything the client got has been freed. -/
theorem aliased_outputs_leak_sample :
    ∃ w' lost s', (ProducingCall.generateKeypair (Z := transparent) (7 : UInt8) (fun _ => 0)
        (some 0) (some 0)).run (.bits64 false) World.initial = .ok (.Ok, w') ∧
      (system (.bits64 false) transparent).run [.freeBuffer ⟨.block 1, 96, 96⟩]
        ⟨w', [⟨.block 1, 96, 96⟩], []⟩ = .ok s' ∧
      s'.held = [] ∧ s'.regions = [] ∧ read s'.world lost = some (spread 32 7) := by
  obtain ⟨s, w', lost, id, hrun, hcall, _, _, hlater⟩ := aliased_outputs_leak (Z := transparent)
    (.bits64 false) [] (.nil _) (.generateKeypair (7 : UInt8) (fun _ => 0) (some 0) (some 0)) 0
    rfl (spread 32 7) (spread 96 7) (by rfl) (by rfl) (spread_ne_nil 31 7)
  cases hrun
  cases hcall
  obtain ⟨s', hs', hread, _⟩ := hlater [.freeBuffer ⟨.block 1, 96, 96⟩]
    (.cons (Or.inl (List.mem_singleton.mpr rfl)) fun s' _ => .nil s')
  refine ⟨_, lost, s', rfl, hs', ?_, ?_, hread⟩
  · cases hs'
    rfl
  · cases hs'
    rfl

end BbsFfi.Misuse
