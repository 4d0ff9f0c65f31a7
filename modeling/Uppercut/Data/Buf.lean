import Uppercut.Data.Bytes

/-!
# Reading from a buffer

A buffer is read from its front, one number or slice after the other. A read that finds too few
bytes fails. Each read undoes the write of what it reads.
-/

namespace Buf

def putU64 (n : UInt64) : List UInt8 := BigEndian.ofNat 8 n.toNat

def getU8 : List UInt8 → Option (UInt8 × List UInt8)
  | [] => none
  | byte :: rest => some (byte, rest)

def copyToBytes (n : Nat) (bytes : List UInt8) : Option (List UInt8 × List UInt8) :=
  if n ≤ bytes.length then some (bytes.take n, bytes.drop n) else none

def getU64 (bytes : List UInt8) : Option (UInt64 × List UInt8) :=
  (copyToBytes 8 bytes).map fun (number, rest) => (UInt64.ofNat (BigEndian.toNat number), rest)

@[simp] theorem length_putU64 (n : UInt64) : (putU64 n).length = 8 := BigEndian.length_ofNat _ _

@[simp] theorem getU8_cons (byte : UInt8) (rest : List UInt8) :
    getU8 (byte :: rest) = some (byte, rest) := rfl

theorem getU8_eq_some {bytes rest : List UInt8} {byte : UInt8} :
    getU8 bytes = some (byte, rest) ↔ bytes = byte :: rest := by
  cases bytes with
  | nil => simp [getU8]
  | cons => simp [getU8]

theorem copyToBytes_eq_some {n : Nat} {bytes front rest : List UInt8} :
    copyToBytes n bytes = some (front, rest) ↔ bytes = front ++ rest ∧ front.length = n := by
  rw [copyToBytes]
  split
  case isTrue enough =>
    rw [Option.some.injEq, Prod.mk.injEq]
    constructor
    · rintro ⟨rfl, rfl⟩
      exact ⟨(List.take_append_drop n bytes).symm, List.length_take_of_le enough⟩
    · rintro ⟨rfl, rfl⟩
      exact ⟨List.take_left, List.drop_left⟩
  case isFalse few =>
    refine iff_of_false nofun ?_
    rintro ⟨rfl, rfl⟩
    rw [List.length_append] at few
    omega

theorem putU64_ofNat_toNat {bytes : List UInt8} (eight : bytes.length = 8) :
    putU64 (UInt64.ofNat (BigEndian.toNat bytes)) = bytes := by
  have small := BigEndian.toNat_lt bytes
  rw [eight] at small
  rw [putU64, UInt64.toNat_ofNat_of_lt' (by simpa using small), ← eight]
  exact BigEndian.ofNat_toNat bytes

theorem ofNat_toNat_putU64 (n : UInt64) : UInt64.ofNat (BigEndian.toNat (putU64 n)) = n := by
  rw [putU64, BigEndian.toNat_ofNat, Nat.mod_eq_of_lt (by simpa using n.toNat_lt)]
  exact UInt64.ofNat_toNat

theorem getU64_eq_some {bytes rest : List UInt8} {n : UInt64} :
    getU64 bytes = some (n, rest) ↔ bytes = putU64 n ++ rest := by
  simp only [getU64, Option.map_eq_some_iff, Prod.exists, Prod.mk.injEq]
  constructor
  · rintro ⟨number, rest, read, rfl, rfl⟩
    obtain ⟨rfl, eight⟩ := copyToBytes_eq_some.mp read
    rw [putU64_ofNat_toNat eight]
  · rintro rfl
    exact ⟨_, _, copyToBytes_eq_some.mpr ⟨rfl, length_putU64 n⟩, ofNat_toNat_putU64 n, rfl⟩

@[simp] theorem getU64_putU64 (n : UInt64) (rest : List UInt8) :
    getU64 (putU64 n ++ rest) = some (n, rest) :=
  getU64_eq_some.mpr rfl

end Buf
