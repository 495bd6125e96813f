import Mathlib.Algebra.Group.Nat.Defs
import Mathlib.Data.List.Basic
import BbsFfi.Library.Loops

/-!
# The Rust primitives the crate uses

`usize` arithmetic on a compilation target, slicing, array conversion and
big-endian `u32`s.  A `usize` is a `Nat` below `2 ^ bits`; `+` and `-` panic
where overflow checks are on and wrap where they are off (the release profile).
-/

namespace BbsFfi.Rust

open Loops

abbrev Bytes := List UInt8

/-- A Rust array `[u8; n]`. -/
abbrev U8Array (n : Nat) := { bytes : Bytes // bytes.length = n }

/-- The panics this crate's code can raise. -/
inductive Panic where
  | arithmeticOverflow
  | sliceIndex
  | unwrapOnErr
  | capacityOverflow
  deriving DecidableEq, Repr

/-- Width of `usize` and whether arithmetic is overflow-checked. -/
structure Target where
  bits : Nat
  overflowChecks : Bool
  deriving DecidableEq, Repr

namespace Target

/-- x86-64, aarch64: either build profile. -/
def bits64 (overflowChecks : Bool) : Target := ⟨64, overflowChecks⟩

/-- `wasm32-unknown-unknown` and `armv7-linux-androideabi` in the release
profile, which leaves overflow checks off. -/
def release32 : Target := ⟨32, false⟩

/-- `isize::MAX`, the largest length of an allocation. -/
def isizeMax (t : Target) : Nat := 2 ^ (t.bits - 1) - 1

def add (t : Target) (a b : Nat) : Outcome Panic Nat :=
  if a + b < 2 ^ t.bits then .returned (a + b)
  else if t.overflowChecks then .panicked .arithmeticOverflow
  else .returned ((a + b) % 2 ^ t.bits)

def sub (t : Target) (a b : Nat) : Outcome Panic Nat :=
  if b ≤ a then .returned (a - b)
  else if t.overflowChecks then .panicked .arithmeticOverflow
  else .returned ((a + 2 ^ t.bits - b) % 2 ^ t.bits)

/-- `n as usize` for a `u32`. -/
def ofU32 (t : Target) (n : Nat) : Nat := n % 2 ^ t.bits

theorem add_of_lt {t : Target} {a b : Nat} (h : a + b < 2 ^ t.bits) :
    t.add a b = .returned (a + b) := by
  simp [add, h]

theorem sub_of_le {t : Target} {a b : Nat} (h : b ≤ a) : t.sub a b = .returned (a - b) := by
  simp [sub, h]

theorem ofU32_of_lt {t : Target} {n : Nat} (h : n < 2 ^ t.bits) : t.ofU32 n = n :=
  Nat.mod_eq_of_lt h

end Target

/-- `&xs[start..stop]`. -/
def slice {α : Type} (xs : List α) (start stop : Nat) : Outcome Panic (List α) :=
  if start ≤ stop ∧ stop ≤ xs.length then .returned ((xs.drop start).take (stop - start))
  else .panicked .sliceIndex

theorem slice_of_le {α : Type} {xs : List α} {start stop : Nat} (h : start ≤ stop)
    (h' : stop ≤ xs.length) :
    slice xs start stop = .returned ((xs.drop start).take (stop - start)) := by
  simp [slice, h, h']

/-- `Vec::with_capacity` for elements of this size. -/
def withCapacity (t : Target) (elemSize capacity : Nat) : Outcome Panic Unit :=
  if elemSize * capacity ≤ t.isizeMax then .returned () else .panicked .capacityOverflow

/-- `Result::unwrap`. -/
def unwrap {ε α : Type} : Except ε α → Outcome Panic α
  | .ok a => .returned a
  | .error _ => .panicked .unwrapOnErr

/-- `Vec<u8>::try_into::<[u8; n]>`; the vector comes back on a wrong length. -/
def tryInto (n : Nat) (v : Bytes) : Except Bytes (U8Array n) :=
  if h : v.length = n then .ok ⟨v, h⟩ else .error v

@[simp] theorem tryInto_of_length {n : Nat} {v : Bytes} (h : v.length = n) :
    tryInto n v = .ok ⟨v, h⟩ := by
  simp [tryInto, h]

/-- `u32::from_be_bytes`. -/
def u32FromBeBytes (b : U8Array 4) : Nat :=
  b.val.foldl (fun acc x => acc * 256 + x.toNat) 0

/-- `u32::to_be_bytes`. -/
def u32ToBeBytes (n : Nat) : Bytes :=
  [UInt8.ofNat (n / 2 ^ 24), UInt8.ofNat (n / 2 ^ 16), UInt8.ofNat (n / 2 ^ 8), UInt8.ofNat n]

@[simp] theorem u32ToBeBytes_length (n : Nat) : (u32ToBeBytes n).length = 4 := rfl

theorem u32FromBeBytes_lt (b : U8Array 4) : u32FromBeBytes b < 2 ^ 32 := by
  obtain ⟨bytes, hlen⟩ := b
  match bytes, hlen with
  | [b₀, b₁, b₂, b₃], _ =>
    have h₀ := b₀.toNat_lt
    have h₁ := b₁.toNat_lt
    have h₂ := b₂.toNat_lt
    have h₃ := b₃.toNat_lt
    simp only [u32FromBeBytes, List.foldl]
    omega

/-- Reading back the bytes of a `u32` gives the number. -/
theorem u32FromBeBytes_toBeBytes {n : Nat} (h : n < 2 ^ 32) :
    u32FromBeBytes ⟨u32ToBeBytes n, rfl⟩ = n := by
  simp only [u32FromBeBytes, u32ToBeBytes, List.foldl, UInt8.toNat_ofNat']
  omega

/-- Four bytes are the bytes of the number they read as. -/
theorem u32ToBeBytes_fromBeBytes (b : U8Array 4) : u32ToBeBytes (u32FromBeBytes b) = b.val := by
  obtain ⟨bytes, hlen⟩ := b
  match bytes, hlen with
  | [b₀, b₁, b₂, b₃], _ =>
    have h₀ := b₀.toNat_lt
    have h₁ := b₁.toNat_lt
    have h₂ := b₂.toNat_lt
    have h₃ := b₃.toNat_lt
    simp only [u32FromBeBytes, u32ToBeBytes, List.foldl, List.cons.injEq, and_true,
      ← UInt8.toNat_inj, UInt8.toNat_ofNat']
    omega

theorem u32ToBeBytes_inj {n m : Nat} (hn : n < 2 ^ 32) (hm : m < 2 ^ 32)
    (h : u32ToBeBytes n = u32ToBeBytes m) : n = m := by
  rw [← u32FromBeBytes_toBeBytes hn, ← u32FromBeBytes_toBeBytes hm]
  simp only [h]

end BbsFfi.Rust
