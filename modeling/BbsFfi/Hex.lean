import BbsFfi.Rust

/-!
# Hexadecimal digits (`to_hex`)

The sample programs print byte strings as hexadecimal digits, two for a byte,
with `hex::encode` or with a loop of their own (`toHex_encodesHex`).  Reading the
digits gives the bytes (`EncodesHex.read`).
-/

namespace BbsFfi.Hex

open BbsFfi.Rust

/-- `const HEX: &[u8; 16]` -/
def hex : List Char := "0123456789abcdef".toList

theorem hex_length : hex.length = 16 := by decide

theorem shiftRight_toNat (b : UInt8) : (b >>> 4).toNat = b.toNat / 16 := by
  simp [Nat.shiftRight_eq_div_pow]

theorem and_toNat (b : UInt8) : (b &&& 0x0f).toNat = b.toNat % 16 := by
  simpa using Nat.and_two_pow_sub_one_eq_mod b.toNat 4

theorem shiftRight_lt (b : UInt8) : (b >>> 4).toNat < hex.length := by
  have hb := b.toNat_lt
  rw [hex_length, shiftRight_toNat]
  omega

theorem and_lt (b : UInt8) : (b &&& 0x0f).toNat < hex.length := by
  rw [hex_length, and_toNat]
  omega

/-- `HEX[(b >> 4) as usize] as char` -/
def high (b : UInt8) : Char := hex.get ⟨(b >>> 4).toNat, shiftRight_lt b⟩

/-- `HEX[(b & 0x0f) as usize] as char` -/
def low (b : UInt8) : Char := hex.get ⟨(b &&& 0x0f).toNat, and_lt b⟩

/-- The loop of `to_hex`. -/
def pushHex (out : String) : Bytes → String
  | [] => out
  | b :: bytes => pushHex ((out.push (high b)).push (low b)) bytes

def toHex (bytes : Bytes) : String := pushHex "" bytes

/-- Each byte as two lower-case digits, the high half first. -/
def digits (bytes : Bytes) : List Char := bytes.flatMap fun b => [high b, low b]

theorem digits_cons (b : UInt8) (bytes : Bytes) :
    digits (b :: bytes) = high b :: low b :: digits bytes := rfl

theorem digits_length (bytes : Bytes) : (digits bytes).length = 2 * bytes.length := by
  induction bytes with
  | nil => rfl
  | cons b bytes ih =>
    rw [digits_cons, List.length_cons, List.length_cons, ih, List.length_cons]
    omega

theorem mem_hex (bytes : Bytes) : ∀ c ∈ digits bytes, c ∈ hex := by
  induction bytes with
  | nil => exact fun c hc => absurd hc List.not_mem_nil
  | cons b bytes ih =>
    exact List.forall_mem_cons.mpr ⟨List.get_mem .., List.forall_mem_cons.mpr ⟨List.get_mem .., ih⟩⟩

theorem pushHex_toList (out : String) (bytes : Bytes) :
    (pushHex out bytes).toList = out.toList ++ digits bytes := by
  induction bytes generalizing out with
  | nil => simp [pushHex, digits]
  | cons b bytes ih => simp [pushHex, ih, digits_cons]

/-- A function that prints the digits, as `hex::encode` does. -/
def EncodesHex (encode : Bytes → String) : Prop := ∀ bytes, (encode bytes).toList = digits bytes

/-- **The loop prints the digits.** -/
theorem toHex_encodesHex : EncodesHex toHex := by
  intro bytes
  simp [toHex, pushHex_toList]

example : toHex [0x00, 0x7f, 0xff] = "007fff" := by decide

/-! ## Reading digits -/

def nibble (c : Char) : Option Nat :=
  if '0' ≤ c ∧ c ≤ '9' then some (c.toNat - '0'.toNat)
  else if 'a' ≤ c ∧ c ≤ 'f' then some (c.toNat - 'a'.toNat + 10)
  else none

def bytesOfDigits : List Char → Option Bytes
  | [] => some []
  | [_] => none
  | c :: c' :: cs => do
    let high ← nibble c
    let low ← nibble c'
    let bytes ← bytesOfDigits cs
    return UInt8.ofNat (16 * high + low) :: bytes

theorem nibble_get : ∀ i : Fin hex.length, nibble (hex.get i) = some i.val := by decide

theorem bytesOfDigits_digits (bytes : Bytes) : bytesOfDigits (digits bytes) = some bytes := by
  induction bytes with
  | nil => rfl
  | cons b bytes ih =>
    have hhigh : nibble (high b) = some (b.toNat / 16) := by
      rw [high, nibble_get, ← shiftRight_toNat]
    have hlow : nibble (low b) = some (b.toNat % 16) := by
      rw [low, nibble_get, ← and_toNat]
    have hbyte : UInt8.ofNat (16 * (b.toNat / 16) + b.toNat % 16) = b := by
      rw [Nat.div_add_mod]
      exact UInt8.ofNat_toNat
    simp only [digits_cons, bytesOfDigits, hhigh, hlow, ih, Option.bind_eq_bind, Option.bind_some,
      hbyte]
    rfl

/-- **What is printed is read as the bytes.** -/
theorem EncodesHex.read {encode : Bytes → String} (h : EncodesHex encode) (bytes : Bytes) :
    bytesOfDigits (encode bytes).toList = some bytes := by
  rw [h, bytesOfDigits_digits]

end BbsFfi.Hex
