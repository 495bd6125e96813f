import BbsFfi.Rust
import BbsFfi.Library.Ledgers

/-!
# The memory the C layer works on

What a caller passes in is read-only memory behind a pointer and a declared
length (`CSlice`); what Rust hands out is a block of its heap in a `BbsBuffer`.
`FfiM` is a computation on this memory that faults where the Rust code would be
undefined: on a null or too long read, a null write, a deallocation of a block
that is not live with that layout, and a `Vec` over bytes that are not there.

`MarshalM` adds the `Vec`s copied out of the arguments: Rust drops them when the
wrapped function, which takes them by value, returns (`callee`).
-/

namespace BbsFfi.Memory

open BbsFfi.Rust Ledgers

/-! ## Inputs -/

/-- `*const T`: null, or the memory from there on. -/
inductive ConstPtr (α : Type) where
  | null
  | addr (mem : List α)

def ConstPtr.isNull {α : Type} : ConstPtr α → Bool
  | .null => true
  | .addr _ => false

/-- A pointer and its declared length.  A non-null pointer is valid for it; a
null pointer may be declared with any length. -/
structure CSlice (α : Type) where
  data : ConstPtr α
  len : Nat
  valid : ∀ mem, data = .addr mem → len ≤ mem.length

/-- `BbsMessage` -/
abbrev BbsMessage := CSlice UInt8

/-- A slice that declares all of its memory. -/
def CSlice.of {α : Type} (mem : List α) : CSlice α :=
  ⟨.addr mem, mem.length, fun _ h => by cases h; exact Nat.le_refl _⟩

/-- A null pointer with a declared length. -/
def CSlice.null {α : Type} (len : Nat) : CSlice α := ⟨.null, len, nofun⟩

/-- The elements an argument stands for: none, where the pointer is null. -/
def CSlice.toList {α : Type} (s : CSlice α) : List α :=
  match s.data with
  | .null => []
  | .addr mem => mem.take s.len

/-- The messages an array of `BbsMessage` stands for. -/
def messagesOf (msgs : CSlice BbsMessage) : List Bytes := msgs.toList.map CSlice.toList

@[simp] theorem CSlice.toList_of {α : Type} (mem : List α) : (CSlice.of mem).toList = mem :=
  List.take_length

@[simp] theorem CSlice.toList_null {α : Type} (len : Nat) :
    (CSlice.null len : CSlice α).toList = [] := rfl

/-! ## Outputs and the heap -/

/-- `Layout` -/
structure Layout where
  size : Nat
  align : Nat
  deriving DecidableEq, Repr

/-- `Layout::from_size_align`: the size, rounded up to the alignment, must not
exceed `isize::MAX`. -/
def Layout.fromSizeAlign (t : Target) (size align : Nat) : Option Layout :=
  if 2 ^ align.log2 = align ∧ size + align ≤ t.isizeMax + 1 then some ⟨size, align⟩ else none

/-- `*mut u8` into the Rust heap: null, the dangling pointer of an unallocated
`Vec`, or the start of a block. -/
inductive DataPtr where
  | null
  | dangling
  | block (id : Nat)
  deriving DecidableEq, Repr

structure BbsBuffer where
  data : DataPtr
  len : Nat
  cap : Nat
  deriving DecidableEq, Repr

/-- `Vec<u8>`, as its raw parts. -/
structure RustVec where
  data : DataPtr
  len : Nat
  cap : Nat
  deriving DecidableEq, Repr

def BbsBuffer.null : BbsBuffer := { data := .null, len := 0, cap := 0 }

def BbsBuffer.fromVec (v : RustVec) : BbsBuffer := { data := v.data, len := v.len, cap := v.cap }

/-- The layout of the allocation of a `Vec<u8>`. -/
def bytesLayout (cap : Nat) : Layout := ⟨cap, 1⟩

/-- `*mut BbsBuffer` and `*mut i32`: null, or the address of a slot. -/
abbrev MutPtr := Option Nat

/-- The Rust heap, the bytes that its blocks have been initialised with, and the
caller's output slots. -/
structure World where
  heap : Ledger Layout
  contents : Nat → Bytes
  buffers : Nat → BbsBuffer
  ints : Nat → Int32

/-- Nothing allocated and every slot cleared. -/
def World.initial : World :=
  { heap := Ledger.empty, contents := fun _ => [], buffers := fun _ => BbsBuffer.null
    ints := fun _ => 0 }

/-- What would be undefined behaviour. -/
inductive Fault where
  | nullPointer
  | outOfBounds
  | badDealloc
  deriving DecidableEq, Repr

abbrev FfiM := StateT World (Except Fault)

/-- `slice::from_raw_parts(p, len)` -/
def fromRawParts {α : Type} (p : ConstPtr α) (len : Nat) : FfiM (List α) :=
  match p with
  | .null => throw .nullPointer
  | .addr mem => if len ≤ mem.length then return mem.take len else throw .outOfBounds

/-- `*out = buf` -/
def writeBuffer (out : MutPtr) (buf : BbsBuffer) : FfiM Unit :=
  match out with
  | none => throw .nullPointer
  | some slot => modify fun w => { w with buffers := Function.update w.buffers slot buf }

/-- `*out = n` -/
def writeInt (out : MutPtr) (n : Int32) : FfiM Unit :=
  match out with
  | none => throw .nullPointer
  | some slot => modify fun w => { w with ints := Function.update w.ints slot n }

/-- `alloc(layout)`, where the allocator grants it. -/
def alloc (layout : Layout) : FfiM Nat := do
  let w ← get
  set { w with heap := w.heap.acquire layout }
  return w.heap.next

/-- `dealloc(ptr, layout)` -/
def dealloc (p : DataPtr) (layout : Layout) : FfiM Unit := do
  let w ← get
  match p with
  | .block id =>
    match w.heap.release id layout with
    | some heap => set { w with heap := heap }
    | none => throw .badDealloc
  | _ => throw .badDealloc

/-- A `Vec` that holds `bytes`, with `spare` more capacity. -/
def newVec (bytes : Bytes) (spare : Nat) : FfiM RustVec :=
  let cap := bytes.length + spare
  if cap = 0 then return { data := .dangling, len := 0, cap := 0 }
  else do
    let id ← alloc (bytesLayout cap)
    modify fun w => { w with contents := Function.update w.contents id bytes }
    return { data := .block id, len := bytes.length, cap := cap }

/-- `Vec::from_raw_parts(p, len, cap)`: undefined unless `cap` bytes were allocated
at `p` and the first `len` of them are initialised. -/
def vecFromRawParts (p : DataPtr) (len cap : Nat) : FfiM RustVec := do
  let w ← get
  match p with
  | .null => throw .nullPointer
  | .dangling => if len = 0 ∧ cap = 0 then return { data := p, len, cap } else throw .badDealloc
  | .block id =>
    if w.heap.live.lookup id ≠ some (bytesLayout cap) then throw .badDealloc
    else if len ≤ cap ∧ len ≤ (w.contents id).length then return { data := p, len, cap }
    else throw .outOfBounds

/-- `drop` of a `Vec<u8>` -/
def dropVec (v : RustVec) : FfiM Unit :=
  if v.cap = 0 then return () else dealloc v.data (bytesLayout v.cap)

/-! ## Temporaries -/

/-- The allocations of the `Vec`s made so far from the arguments. -/
abbrev MarshalM := StateT (List (Nat × Layout)) FfiM

/-- The allocation of a temporary; an empty `Vec` has none. -/
def temporary (layout : Layout) : MarshalM Unit :=
  if layout.size = 0 then return ()
  else do
    let id ← alloc layout
    modify fun temps => temps ++ [(id, layout)]

def dropAll : List (Nat × Layout) → FfiM Unit
  | [] => return ()
  | (id, layout) :: temps => do
    dealloc (.block id) layout
    dropAll temps

/-- A call of a Rust function on marshalled arguments, which it drops. -/
def callee {α : Type} (m : MarshalM α) : FfiM α := do
  let (a, temps) ← m.run []
  dropAll temps
  return a

end BbsFfi.Memory
