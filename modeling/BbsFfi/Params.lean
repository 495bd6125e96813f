import BbsFfi.Marshal

/-!
# The parameters of a C function

A C function reads its parameters one after another, each with the helper for
its kind, and goes on with the results (`withArgs`).  When the mandatory ones
are there, every result is the value of its parameter (`marshals_withArgs`).
-/

namespace BbsFfi.Params

open BbsFfi.Rust BbsFfi.Memory BbsFfi.CFfi BbsFfi.Marshal

/-- A pointer with its length, and how it is read: behind a guard, with
`read_optional_bytes`, `collect_messages` or `collect_u32_array`. -/
inductive Param where
  | required (s : CSlice UInt8)
  | optional (s : CSlice UInt8)
  | messages (msgs : CSlice BbsMessage)
  | indices (arr : CSlice UInt32)

namespace Param

def Value : Param → Type
  | .required _ => Bytes
  | .optional _ => Bytes
  | .messages _ => List Bytes
  | .indices _ => List UInt32

def read (t : Target) : (p : Param) → MarshalM p.Value
  | .required s => sliceToVec s.data s.len
  | .optional s => readOptionalBytes s.data s.len
  | .messages msgs => collectMessages t msgs.data msgs.len
  | .indices arr => collectU32Array arr.data arr.len

def value : (p : Param) → p.Value
  | .required s => s.toList
  | .optional s => s.toList
  | .messages msgs => messagesOf msgs
  | .indices arr => arr.toList

def guard : Param → Option (CSlice UInt8)
  | .required s => some s
  | _ => none

def Present : Param → Prop
  | .required s => isMissing s.data s.len = false
  | _ => True

theorem marshals_read (p : Param) (t : Target) (h : p.Present) :
    Marshals (p.read t) p.value := by
  cases p with
  | required s => exact marshals_sliceToVec h
  | optional s => exact marshals_readOptionalBytes s
  | messages msgs => exact marshals_collectMessages t msgs
  | indices arr => exact marshals_collectU32Array arr

/-- A call that passes its guards reads no missing parameter. -/
theorem present_of_guards {ps : List Param}
    (h : (ps.filterMap guard).any (fun s => isMissing s.data s.len) = false) :
    ∀ p ∈ ps, p.Present := by
  intro p hp
  cases p with
  | required s =>
    have hs : s ∈ ps.filterMap guard := List.mem_filterMap.mpr ⟨.required s, hp, rfl⟩
    exact Bool.eq_false_iff.mpr (List.any_eq_false.mp h s hs)
  | optional s => trivial
  | messages msgs => trivial
  | indices arr => trivial

end Param

def Args : List Param → Type
  | [] => Unit
  | p :: ps => p.Value × Args ps

def values : (ps : List Param) → Args ps
  | [] => ()
  | p :: ps => (p.value, values ps)

/-- Reads the parameters and goes on with the arguments. -/
def withArgs {α : Type} (t : Target) : (ps : List Param) → (Args ps → MarshalM α) → MarshalM α
  | [], next => next ()
  | p :: ps, next => do
    let v ← p.read t
    withArgs t ps fun vs => next (v, vs)

/-- **Every parameter is read as what it stands for.** -/
theorem marshals_withArgs {α : Type} (t : Target) {ps : List Param} {next : Args ps → MarshalM α}
    {a : α} (h : ∀ p ∈ ps, p.Present) (hnext : Marshals (next (values ps)) a) :
    Marshals (withArgs t ps next) a := by
  induction ps with
  | nil => exact hnext
  | cons p ps ih =>
    have hp : p.Present := h p List.mem_cons_self
    have hps : ∀ q ∈ ps, q.Present := fun q hq => h q (List.mem_cons_of_mem _ hq)
    exact (p.marshals_read t hp).bind (ih hps hnext)

end BbsFfi.Params
