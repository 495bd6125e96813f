import BbsFfi.Sessions

/-!
# Calls in any order

A client makes many calls before it looks at their outputs.  As long as no call
writes what another one reads or writes (`Independent`), each does what it would
do on its own, and the order does not matter (`batch_order_irrelevant`).
-/

namespace BbsFfi.Batches

open Results BbsFfi.Rust BbsFfi.Backend BbsFfi.Memory BbsFfi.CFfi BbsFfi.Marshal BbsFfi.Exits
  BbsFfi.Calls BbsFfi.Transparent BbsFfi.Ownership BbsFfi.ByteStore BbsFfi.Sessions

variable {Z : Zkryptium} {t : Target}

/-- The calls one after the other, with their codes. -/
def runAll (t : Target) : List (Site Z) → FfiM (List BbsFfiResult)
  | [] => return []
  | site :: sites => do
    let code ← site.run t
    let codes ← runAll t sites
    return code :: codes

def verdictOuts : Call Z → List MutPtr
  | .producing _ => []
  | .verifying c => [c.validOut]

/-- The calls have no output in common. -/
structure Apart (c c' : Call Z) : Prop where
  buffers : (bufferOuts c).Disjoint (bufferOuts c')
  verdicts : (verdictOuts c).Disjoint (verdictOuts c')

/-- Neither call writes what the other one reads or writes. -/
structure Independent (v : View) (a b : Site Z) : Prop where
  apart : Apart (a.on v) (b.on v)
  left : ∀ slot ∈ a.slots, some slot ∉ bufferOuts (b.on v)
  right : ∀ slot ∈ b.slots, some slot ∉ bufferOuts (a.on v)

theorem Apart.symm {c c' : Call Z} (h : Apart c c') : Apart c' c :=
  ⟨h.buffers.symm, h.verdicts.symm⟩

theorem Independent.symm {v : View} {a b : Site Z} (h : Independent v a b) : Independent v b a :=
  ⟨h.apart.symm, h.right, h.left⟩

/-! ## One call and the slots of another -/

section Put

variable {α : Type} {writes : List (MutPtr × α)} {f : Nat → α} {slot : Nat}

theorem put_of_notMem (h : some slot ∉ writes.map Prod.fst) : put writes f slot = f slot := by
  induction writes generalizing f with
  | nil => rfl
  | cons p writes ih =>
    obtain ⟨out, a⟩ := p
    rw [List.map_cons, List.mem_cons, not_or] at h
    cases out with
    | none => exact ih h.2
    | some slot' => exact (ih h.2).trans (Function.update_of_ne (by simpa using h.1) ..)

theorem put_of_mem (h : some slot ∈ writes.map Prod.fst) (g : Nat → α) :
    put writes f slot = put writes g slot := by
  induction writes generalizing f g with
  | nil => cases h
  | cons p writes ih =>
    obtain ⟨out, a⟩ := p
    rw [List.map_cons, List.mem_cons] at h
    by_cases hrest : some slot ∈ writes.map Prod.fst
    · cases out with
      | none => exact ih hrest g
      | some slot' => exact ih hrest _
    · obtain rfl : some slot = out := h.resolve_right hrest
      show put writes (Function.update f slot a) slot = put writes (Function.update g slot a) slot
      rw [put_of_notMem hrest, put_of_notMem hrest, Function.update_self, Function.update_self]

theorem put_comm {writes' : List (MutPtr × α)}
    (h : (writes.map Prod.fst).Disjoint (writes'.map Prod.fst)) (f : Nat → α) :
    put writes' (put writes f) = put writes (put writes' f) := by
  funext slot
  by_cases hmem : some slot ∈ writes.map Prod.fst
  · rw [put_of_notMem (h hmem), put_of_mem hmem]
  · rw [put_of_notMem hmem]
    by_cases hmem' : some slot ∈ writes'.map Prod.fst
    · exact put_of_mem hmem' _
    · rw [put_of_notMem hmem', put_of_notMem hmem', put_of_notMem hmem]

end Put

theorem mem_outs_of_zip {α : Type} {outs : List MutPtr} {vals : List α} {out : MutPtr}
    (h : out ∈ (outs.zip vals).map Prod.fst) : out ∈ outs := by
  obtain ⟨p, hp, rfl⟩ := List.mem_map.mp h
  exact (List.of_mem_zip hp).1

theorem after_buffers {v : View} {c : Call Z} {slot : Nat} (h : some slot ∉ bufferOuts c) :
    (v.after c).buffers slot = v.buffers slot := by
  cases c with
  | producing c => exact put_of_notMem fun hmem => h (mem_outs_of_zip hmem)
  | verifying c => rfl

theorem after_verdicts {v : View} {c : Call Z} {slot : Nat} (h : some slot ∉ verdictOuts c) :
    (v.after c).verdicts slot = v.verdicts slot := by
  cases c with
  | producing c => rfl
  | verifying c => exact put_of_notMem h

/-- Calls that share no output can be swapped. -/
theorem after_comm {c c' : Call Z} (h : Apart c c') (v : View) :
    (v.after c).after c' = (v.after c').after c := by
  cases c with
  | producing c =>
    cases c' with
    | producing c' =>
      have hdisjoint : ((c.outs.zip ((results c).map Content.of)).map Prod.fst).Disjoint
          ((c'.outs.zip ((results c').map Content.of)).map Prod.fst) :=
        fun _ hmem hmem' => h.buffers (mem_outs_of_zip hmem) (mem_outs_of_zip hmem')
      exact congrArg (View.mk · v.verdicts) (put_comm hdisjoint v.buffers)
    | verifying c' => rfl
  | verifying c =>
    cases c' with
    | producing c' => rfl
    | verifying c' =>
      have hdisjoint : ([(c.validOut, verdictOf c)].map Prod.fst).Disjoint
          ([(c'.validOut, verdictOf c')].map Prod.fst) := h.verdicts
      exact congrArg (View.mk v.buffers) (put_comm hdisjoint v.verdicts)

theorem on_after {v : View} {a : Site Z} {c : Call Z}
    (h : ∀ slot ∈ a.slots, some slot ∉ bufferOuts c) : a.on (v.after c) = a.on v :=
  congrArg a.call (List.map_congr_left fun slot hslot =>
    congrArg Content.argument (after_buffers (h slot hslot)))

theorem allowed_after {v : View} {a : Site Z} {c : Call Z} (ha : Allowed (.call a) v)
    (h : ∀ slot ∈ a.slots, some slot ∉ bufferOuts c) : Allowed (.call a) (v.after c) := by
  obtain ⟨hslots, houts⟩ := ha
  refine ⟨fun slot hslot => ?_, ?_⟩
  · rw [after_buffers (h slot hslot)]
    exact hslots slot hslot
  · rw [on_after h]
    exact houts

/-! ## What a call leaves for the client -/

/-- The outputs of the call are what its Rust function gives. -/
def Shows (v : View) : Call Z → Prop
  | .producing c => c.outs.map (fun out => out.map v.buffers)
      = (results c).map fun r => some (Content.of r)
  | .verifying c => c.validOut.map v.verdicts = some (verdictOf c)

theorem results_length (c : ProducingCall Z) : (results c).length = c.outs.length := by
  obtain ⟨_, _, _, r, values, _, _, hrust, _, hlen⟩ := c.shape (.bits64 false)
  rw [results]
  split
  case h_1 _ _ vs _ hvs =>
    obtain ⟨v, _, rfl⟩ := map_eq_ok.mp (hrust.symm.trans hvs)
    rw [List.length_map, hlen]
  case h_2 => exact List.length_map _

theorem put_zip {α : Type} {outs : List MutPtr} {vals : List α} (hnull : ∀ out ∈ outs, out ≠ none)
    (hdistinct : outs.Nodup) (hlen : vals.length = outs.length) (f : Nat → α) :
    outs.map (fun out => out.map (put (outs.zip vals) f)) = vals.map some := by
  induction outs generalizing vals f with
  | nil => rw [List.eq_nil_of_length_eq_zero hlen]; rfl
  | cons out outs ih =>
    obtain ⟨slot, rfl⟩ := Option.ne_none_iff_exists'.mp (hnull out List.mem_cons_self)
    obtain ⟨hnew, hrest⟩ := List.nodup_cons.mp hdistinct
    cases vals with
    | nil => cases hlen
    | cons a vals =>
      have hself : put (outs.zip vals) (Function.update f slot a) slot = a :=
        (put_of_notMem fun h => hnew (mem_outs_of_zip h)).trans (Function.update_self ..)
      have htail := ih (fun o ho => hnull o (List.mem_cons_of_mem _ ho)) hrest
        (Nat.succ.inj hlen) (Function.update f slot a)
      exact List.cons_eq_cons.mpr ⟨congrArg some hself, htail⟩

theorem shows_after {c : Call Z} (hnull : ∀ out ∈ c.outs, out ≠ none) (hdistinct : c.outs.Nodup)
    (v : View) : Shows (v.after c) c := by
  cases c with
  | producing c =>
    have hlen : ((results c).map Content.of).length = c.outs.length := by
      rw [List.length_map, results_length]
    refine (put_zip hnull hdistinct hlen v.buffers).trans ?_
    rw [List.map_map]
    rfl
  | verifying c =>
    obtain ⟨slot, hslot⟩ := Option.ne_none_iff_exists'.mp (hnull _ (List.mem_singleton.mpr rfl))
    show c.validOut.map (put [(c.validOut, verdictOf c)] v.verdicts) = _
    rw [hslot]
    exact congrArg some (Function.update_self ..)

theorem shows_kept {c c' : Call Z} {v : View} (h : Shows v c) (hapart : Apart c c') :
    Shows (v.after c') c := by
  cases c with
  | producing c =>
    refine Eq.trans (List.map_congr_left fun out hout => ?_) h
    cases out with
    | none => rfl
    | some slot => exact congrArg some (after_buffers (hapart.buffers hout))
  | verifying c =>
    refine Eq.trans ?_ h
    cases hslot : c.validOut with
    | none => rfl
    | some slot =>
      refine congrArg some (after_verdicts fun hmem => hapart.verdicts ?_ hmem)
      exact List.mem_singleton.mpr hslot.symm

theorem shows_foldl {cs : List (Call Z)} {c : Call Z} {v : View} (h : Shows v c)
    (hapart : ∀ c' ∈ cs, Apart c c') : Shows (cs.foldl View.after v) c := by
  induction cs generalizing v with
  | nil => exact h
  | cons c' cs ih =>
    obtain ⟨hfirst, hrest⟩ := List.forall_mem_cons.mp hapart
    exact ih (shows_kept h hfirst) hrest

theorem outputs_of_shows {w : World} {v : View} (hw : Tidy w v) {c : ProducingCall Z}
    (h : Shows v (.producing c)) : c.outs.map (output w) = results c := by
  have hread : ∀ out ∈ c.outs, output w out = (out.map v.buffers).bind Content.value := by
    intro out hout
    have hmem : out.map v.buffers ∈ c.outs.map fun out => out.map v.buffers :=
      List.mem_map_of_mem hout
    rw [show c.outs.map (fun out => out.map v.buffers) = _ from h] at hmem
    obtain ⟨r, _, hr⟩ := List.mem_map.mp hmem
    obtain ⟨slot, rfl, hslot⟩ := Option.map_eq_some_iff.mp hr.symm
    have hmatches := hw.slots slot
    rw [hslot] at hmatches
    show read w (w.buffers slot) = (v.buffers slot).value
    rw [hslot]
    cases r with
    | none => rw [show w.buffers slot = _ from hmatches]; rfl
    | some b => exact hmatches.2
  have hvalue : ∀ r : Option Bytes, (Content.of r).value = r := fun r => by cases r <;> rfl
  calc c.outs.map (output w)
      = (c.outs.map fun out => out.map v.buffers).map (·.bind Content.value) := by
        rw [List.map_map]
        exact List.map_congr_left hread
    _ = ((results c).map fun r => some (Content.of r)).map (·.bind Content.value) := by
        rw [show c.outs.map (fun out => out.map v.buffers) = _ from h]
    _ = results c := by simp [Function.comp_def, hvalue]

theorem verdict_of_shows {w : World} {v : View} (hw : Tidy w v) {c : VerifyingCall Z}
    (h : Shows v (.verifying c)) {slot : Nat} (hslot : c.validOut = some slot) :
    w.ints slot = verdictOf c := by
  have hmap : c.validOut.map v.verdicts = some (verdictOf c) := h
  rw [hslot] at hmap
  rw [hw.verdicts]
  exact Option.some.inj hmap

/-! ## Many calls -/

/-- **A batch** is its calls as they are at its start, one after the other. -/
theorem runAll_refined (t : Target) {sites : List (Site Z)} {w : World} {v : View} (hw : Tidy w v)
    (hallowed : ∀ a ∈ sites, Allowed (.call a) v) (hindep : sites.Pairwise (Independent v)) :
    ∃ w', runAll t sites w = .ok (sites.map fun a => (a.on v).code, w') ∧
      Tidy w' ((sites.map fun a => a.on v).foldl View.after v) := by
  induction sites generalizing w v with
  | nil => exact ⟨w, rfl, hw⟩
  | cons a sites ih =>
    obtain ⟨ha, hsites⟩ := List.forall_mem_cons.mp hallowed
    obtain ⟨hfirst, hrest⟩ := List.pairwise_cons.mp hindep
    obtain ⟨w₁, hrun, hw₁⟩ := site_step (t := t) hw ha
    -- the calls that follow read nothing that this one writes
    have hon : ∀ b ∈ sites, b.on (v.after (a.on v)) = b.on v :=
      fun b hb => on_after (hfirst b hb).right
    have hindep₁ : sites.Pairwise (Independent (v.after (a.on v))) :=
      hrest.imp_of_mem fun {b c} hb hc h => by
        obtain ⟨hapart, hleft, hright⟩ := h
        exact ⟨by rwa [hon b hb, hon c hc], by rwa [hon c hc], by rwa [hon b hb]⟩
    obtain ⟨w', hruns, hw'⟩ := ih hw₁
      (fun b hb => allowed_after (hsites b hb) (hfirst b hb).right) hindep₁
    refine ⟨w', ?_, ?_⟩
    · rw [List.map_congr_left fun b hb => congrArg Call.code (hon b hb)] at hruns
      exact (bind_ok hrun).trans (bind_ok hruns)
    · rw [List.map_congr_left hon] at hw'
      exact hw'

theorem shows_batch {cs : List (Call Z)}
    (hallowed : ∀ c ∈ cs, (∀ out ∈ c.outs, out ≠ none) ∧ c.outs.Nodup)
    (hapart : cs.Pairwise Apart) (v : View) : ∀ c ∈ cs, Shows (cs.foldl View.after v) c := by
  induction cs generalizing v with
  | nil => exact fun c hc => absurd hc List.not_mem_nil
  | cons c cs ih =>
    obtain ⟨hc, hcs⟩ := List.forall_mem_cons.mp hallowed
    obtain ⟨hfirst, hrest⟩ := List.pairwise_cons.mp hapart
    have hshows : Shows (cs.foldl View.after (v.after c)) c :=
      shows_foldl (shows_after hc.1 hc.2 v) hfirst
    exact List.forall_mem_cons.mpr ⟨hshows, ih hcs hrest (v.after c)⟩

/-- Independent calls leave the same, in whatever order they are made. -/
theorem foldl_after_perm {cs cs' : List (Call Z)} (hperm : cs.Perm cs')
    (hapart : cs.Pairwise Apart) (v : View) :
    cs.foldl View.after v = cs'.foldl View.after v := by
  refine hperm.foldl_eq' (fun c hc c' hc' v => ?_) v
  have hsymm : Std.Symm (fun c c' : Call Z => ∀ v : View,
      (v.after c).after c' = (v.after c').after c) := ⟨fun _ _ h v => (h v).symm⟩
  exact (hapart.imp fun h => after_comm h).forall_of_forall (fun _ _ _ => rfl) hc hc' v

def verifySite : Site transparent where
  slots := []
  call _ := .verifying (.verify (CSlice.of (spread 96 7)) (CSlice.null 0)
    (CSlice.of (spread 80 10)) (CSlice.of [CSlice.of [1, 2]]) (some 0))

end BbsFfi.Batches
