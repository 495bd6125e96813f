import Mathlib.Data.Finmap

/-!
# Ledgers

A ledger maps the live blocks of a store, by id, to the terms each was acquired
on (`Ledger`); ids are never used twice.  A block is released on the terms it
was acquired on and not otherwise.  `holdings` is the ledger as a multiset, in
which the shares of several owners are added up: no id occurs in two shares
(`nodup_ids`), and releasing a block of one share leaves the others as they are
(`release_of_holdings`).
-/

namespace Ledgers

/-- The live blocks, with a bound on the ids handed out. -/
structure Ledger (β : Type) where
  live : Finmap (fun _ : Nat => β)
  next : Nat
  fresh : ∀ id ∈ live, id < next

namespace Ledger

variable {β : Type}

def empty : Ledger β := ⟨∅, 0, fun _ h => absurd h Finmap.notMem_empty⟩

/-- Acquire the block `l.next`. -/
def acquire (l : Ledger β) (terms : β) : Ledger β where
  live := l.live.insert l.next terms
  next := l.next + 1
  fresh id h := by
    rcases Finmap.mem_insert.mp h with rfl | h
    · exact Nat.lt_succ_self _
    · exact Nat.lt_succ_of_lt (l.fresh id h)

/-- Release a live block, on its own terms. -/
def release [DecidableEq β] (l : Ledger β) (id : Nat) (terms : β) : Option (Ledger β) :=
  if l.live.lookup id = some terms then
    some { live := l.live.erase id
           next := l.next
           fresh := fun i h => l.fresh i (Finmap.mem_erase.mp h).2 }
  else none

/-- The live blocks with their terms. -/
def holdings (l : Ledger β) : Multiset (Nat × β) := l.live.entries.map fun e => (e.1, e.2)

/-- No holdings, no live block. -/
theorem live_eq_empty {l : Ledger β} (h : l.holdings = 0) : l.live = ∅ :=
  Finmap.ext (Multiset.map_eq_zero.mp h)

theorem mem_holdings {l : Ledger β} {id : Nat} {terms : β} :
    (id, terms) ∈ l.holdings ↔ l.live.lookup id = some terms := by
  rw [Finmap.lookup_eq_some_iff, holdings, Multiset.mem_map]
  constructor
  · rintro ⟨⟨i, b⟩, hmem, hpair⟩
    cases hpair
    exact hmem
  · intro hmem
    exact ⟨⟨id, terms⟩, hmem, rfl⟩

theorem holdings_acquire (l : Ledger β) (terms : β) :
    (l.acquire terms).holdings = (l.next, terms) ::ₘ l.holdings := by
  have hnew : l.next ∉ l.live := fun h => Nat.lt_irrefl _ (l.fresh _ h)
  rw [holdings, acquire, Finmap.entries_insert_of_notMem hnew, Multiset.map_cons]
  rfl

/-- An id below the bound differs from the next one: old blocks stay apart. -/
theorem lt_next_of_mem {l : Ledger β} {id : Nat} {terms : β} (h : (id, terms) ∈ l.holdings) :
    id < l.next :=
  l.fresh id (Finmap.mem_of_lookup_eq_some (mem_holdings.mp h))

/-- No id is live twice. -/
theorem nodup_ids (l : Ledger β) : (l.holdings.map Prod.fst).Nodup := by
  rw [holdings, Multiset.map_map]
  exact Multiset.nodup_keys.mpr l.live.nodupKeys

variable [DecidableEq β]

theorem release_isSome_iff {l : Ledger β} {id : Nat} {terms : β} :
    (l.release id terms).isSome ↔ l.live.lookup id = some terms := by
  by_cases h : l.live.lookup id = some terms
  · simp [release, h]
  · simp [release, h]

/-- A block is released once. -/
theorem release_release {l l' : Ledger β} {id : Nat} {terms : β}
    (h : l.release id terms = some l') (terms' : β) : l'.release id terms' = none := by
  rw [release] at h
  split at h
  · cases h
    have hgone : ¬ (l.live.erase id).lookup id = some terms' := by
      rw [Finmap.lookup_erase]
      exact nofun
    exact if_neg hgone
  · cases h

/-- A held block is released, and everything else stays. -/
theorem release_of_holdings {l : Ledger β} {id : Nat} {terms : β} {rest : Multiset (Nat × β)}
    (h : l.holdings = (id, terms) ::ₘ rest) :
    ∃ l', l.release id terms = some l' ∧ l'.holdings = rest := by
  have hlive : l.live.lookup id = some terms := by
    rw [← mem_holdings, h]
    exact Multiset.mem_cons_self _ _
  have hback : (l.live.erase id).insert id terms = l.live := by
    apply Finmap.ext_lookup
    intro x
    by_cases hx : x = id
    · subst hx
      rw [Finmap.lookup_insert, hlive]
    · rw [Finmap.lookup_insert_of_ne _ hx, Finmap.lookup_erase_ne hx]
  refine ⟨_, if_pos hlive, ?_⟩
  have hcons := congrArg (fun m : Finmap (fun _ : Nat => β) =>
    m.entries.map fun e => (e.1, e.2)) hback
  simp only [Finmap.entries_insert_of_notMem Finmap.notMem_erase_self, Multiset.map_cons] at hcons
  exact (Multiset.cons_inj_right _).mp (hcons.trans h)

end Ledger

end Ledgers
