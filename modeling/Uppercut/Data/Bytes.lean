import Mathlib

/-!
# Numbers and text as bytes

`BigEndian.ofNat width n` writes the lowest bytes of `n`, the most significant one
first, and `BigEndian.toNat` reads bytes back. Each undoes the other within the width.
`Utf8.encode` and `Utf8.decode?` do the same for strings.
-/

namespace BigEndian

/-- The `width` lowest bytes of a number. -/
def ofNat : Nat → Nat → List UInt8
  | 0, _ => []
  | width + 1, n => UInt8.ofNat (n / 256 ^ width) :: ofNat width n

/-- The number that the bytes spell. -/
def toNat : List UInt8 → Nat
  | [] => 0
  | byte :: bytes => byte.toNat * 256 ^ bytes.length + toNat bytes

@[simp] theorem length_ofNat (width n : Nat) : (ofNat width n).length = width := by
  induction width with
  | zero => rfl
  | succ width ih => simp [ofNat, ih]

theorem toNat_lt (bytes : List UInt8) : toNat bytes < 256 ^ bytes.length := by
  induction bytes with
  | nil => exact Nat.one_pos
  | cons byte bytes ih =>
      have digit : byte.toNat + 1 ≤ 256 := byte.toNat_lt
      calc toNat (byte :: bytes)
          < byte.toNat * 256 ^ bytes.length + 256 ^ bytes.length := by
            rw [toNat]
            omega
        _ = (byte.toNat + 1) * 256 ^ bytes.length := by ring
        _ ≤ 256 * 256 ^ bytes.length := Nat.mul_le_mul_right _ digit
        _ = 256 ^ (byte :: bytes).length := by rw [List.length_cons, Nat.pow_succ']

/-- What was written is read back, up to the width. -/
theorem toNat_ofNat (width n : Nat) : toNat (ofNat width n) = n % 256 ^ width := by
  induction width with
  | zero => simp [ofNat, toNat, Nat.mod_one]
  | succ width ih =>
      have digit : (UInt8.ofNat (n / 256 ^ width)).toNat = n / 256 ^ width % 256 := by simp
      rw [ofNat, toNat, length_ofNat, ih, digit, Nat.pow_succ, Nat.mod_mul, Nat.mul_comm]
      omega

/-- What was read is written back. -/
theorem ofNat_toNat (bytes : List UInt8) : ofNat bytes.length (toNat bytes) = bytes := by
  have shift (width n k : Nat) : ofNat width (k * 256 ^ width + n) = ofNat width n := by
    induction width generalizing k with
    | zero => rfl
    | succ width ih =>
        have pos : 0 < 256 ^ width := Nat.pow_pos (by decide)
        have high : (k * 256 ^ (width + 1) + n) / 256 ^ width = k * 256 + n / 256 ^ width := by
          rw [Nat.pow_succ', ← Nat.mul_assoc, Nat.add_comm, Nat.add_mul_div_right _ _ pos]
          omega
        have low : ofNat width (k * 256 ^ (width + 1) + n) = ofNat width n := by
          rw [Nat.pow_succ', ← Nat.mul_assoc]
          exact ih (k * 256)
        rw [ofNat, ofNat, high, low]
        congr 1
        apply UInt8.toNat_inj.mp
        simp
  induction bytes with
  | nil => rfl
  | cons byte bytes ih =>
      have small := toNat_lt bytes
      have pos : 0 < 256 ^ bytes.length := Nat.pow_pos (by decide)
      rw [toNat, List.length_cons, ofNat, shift, ih]
      congr 1
      rw [Nat.add_comm, Nat.add_mul_div_right _ _ pos, Nat.div_eq_of_lt small, Nat.zero_add]
      exact UInt8.ofNat_toNat

end BigEndian

namespace Utf8

def encode (s : String) : List UInt8 := s.toByteArray.data.toList

/-- Fails on bytes that encode no string. -/
def decode? (bytes : List UInt8) : Option String := String.fromUTF8? ⟨⟨bytes⟩⟩

@[simp] theorem decode?_encode (s : String) : decode? (encode s) = some s := by
  have whole : (⟨⟨s.toByteArray.data.toList⟩⟩ : ByteArray) = s.toByteArray := rfl
  rw [decode?, encode, whole, String.fromUTF8?, dif_pos s.isValidUTF8]
  rfl

theorem encode_of_decode? {bytes : List UInt8} {s : String} (decoded : decode? bytes = some s) :
    encode s = bytes := by
  simp only [decode?, String.fromUTF8?, Option.dite_none_right_eq_some, Option.some.injEq]
    at decoded
  obtain ⟨_, rfl⟩ := decoded
  rfl

end Utf8
