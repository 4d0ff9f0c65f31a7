import Uppercut.Data.Bytes

/-!
# Byte streams with a read cursor

A byte stream is a buffer that is filled at its end and read at a cursor. Bytes stay
in the buffer after they were read, until they are pulled. `LawfulByteStream` says what
a reader can rely on, in terms of a view: the bytes before the cursor and those ahead of it.
`BoundedByteStream` says what a writer finds: bytes are stored when there is room for all of
them, and otherwise none of them are.
-/

universe u

/-- The operations of a byte stream. A read that finds too few bytes fails. -/
class ByteStream (σ : Type u) where
  withCapacity : Nat → σ
  /-- The first result is the number of bytes that were stored. -/
  put : σ → List UInt8 → Nat × σ
  getU32 : σ → Option (UInt32 × σ)
  getU16 : σ → Option (UInt16 × σ)
  get : σ → Nat → Option (List UInt8 × σ)
  len : σ → Nat
  /-- How much room there is. -/
  cap : σ → Nat
  pull : σ → σ
  /-- The buffered bytes, and the buffer without them. -/
  asRef : σ → List UInt8
  clear : σ → σ

/-- What a buffer holds before its cursor and ahead of it. -/
structure Cursor where
  passed : List UInt8
  ahead : List UInt8
  deriving DecidableEq

namespace Cursor

/-- Read `n` bytes. -/
def advance (c : Cursor) (n : Nat) : Cursor := ⟨c.passed ++ c.ahead.take n, c.ahead.drop n⟩

@[simp] theorem advance_ahead (c : Cursor) (n : Nat) : (c.advance n).ahead = c.ahead.drop n := rfl

@[simp] theorem advance_advance (c : Cursor) (m n : Nat) :
    (c.advance m).advance n = c.advance (m + n) := by
  simp [advance, List.take_add]

theorem length_advance (c : Cursor) (n : Nat) :
    (c.advance n).passed.length + (c.advance n).ahead.length =
      c.passed.length + c.ahead.length := by
  simp only [advance, List.length_append, List.length_take, List.length_drop]
  omega

/-- Bytes are appended. -/
def append (c : Cursor) (bytes : List UInt8) : Cursor := ⟨c.passed, c.ahead ++ bytes⟩

@[simp] theorem append_nil (c : Cursor) : c.append [] = c := by simp [append]

end Cursor

open ByteStream in
/-- The reads act on a view. -/
class LawfulByteStream (σ : Type u) [ByteStream σ] where
  view : σ → Cursor
  view_withCapacity : ∀ capacity, view (withCapacity capacity) = ⟨[], []⟩
  getU32_enough : ∀ s, 4 ≤ (view s).ahead.length →
    ∃ t, getU32 s = some (UInt32.ofNat (BigEndian.toNat ((view s).ahead.take 4)), t) ∧
      view t = (view s).advance 4
  getU32_short : ∀ s, (view s).ahead.length < 4 → getU32 s = none
  getU16_enough : ∀ s, 2 ≤ (view s).ahead.length →
    ∃ t, getU16 s = some (UInt16.ofNat (BigEndian.toNat ((view s).ahead.take 2)), t) ∧
      view t = (view s).advance 2
  getU16_short : ∀ s, (view s).ahead.length < 2 → getU16 s = none
  get_enough : ∀ s n, n ≤ (view s).ahead.length →
    ∃ t, get s n = some ((view s).ahead.take n, t) ∧ view t = (view s).advance n
  get_short : ∀ s n, (view s).ahead.length < n → get s n = none
  len_eq : ∀ s, len s = (view s).passed.length + (view s).ahead.length
  view_pull : ∀ s, view (pull s) = ⟨[], (view s).ahead⟩
  asRef_eq : ∀ s, (view s).passed = [] → asRef s = (view s).ahead
  view_clear : ∀ s, view (clear s) = ⟨[], []⟩

open ByteStream LawfulByteStream in
/-- What `put` stores: all of the bytes, or none of them when there is too little room. -/
class BoundedByteStream (σ : Type u) [ByteStream σ] [LawfulByteStream σ] : Prop where
  put_fits : ∀ (s : σ) bytes, bytes.length ≤ cap s →
    (put s bytes).1 = bytes.length ∧ view (put s bytes).2 = (view s).append bytes
  put_full : ∀ (s : σ) bytes, cap s < bytes.length →
    (put s bytes).1 = 0 ∧ view (put s bytes).2 = view s

namespace ByteStream

open LawfulByteStream BoundedByteStream

variable {σ : Type u} [ByteStream σ] [LawfulByteStream σ] [BoundedByteStream σ]

/-- The bytes that were stored are behind those that were there. -/
theorem view_put (s : σ) (bytes : List UInt8) :
    view (put s bytes).2 = (view s).append (bytes.take (put s bytes).1) := by
  by_cases room : bytes.length ≤ cap s
  · obtain ⟨stored, same⟩ := put_fits s bytes room
    rw [stored, List.take_length, same]
  · obtain ⟨stored, same⟩ := put_full s bytes (Nat.lt_of_not_le room)
    rw [stored, List.take_zero, Cursor.append_nil, same]

end ByteStream

/-! ## A buffer of a fixed size -/

structure Buffer where
  capacity : Nat
  cursor : Cursor
  fits : cursor.passed.length + cursor.ahead.length ≤ capacity
  deriving DecidableEq

namespace Buffer

/-- The bytes, with no room behind them. -/
def full (bytes : List UInt8) : Buffer := ⟨bytes.length, ⟨[], bytes⟩, by simp⟩

def empty (capacity : Nat) : Buffer := ⟨capacity, ⟨[], []⟩, Nat.zero_le _⟩

def room (b : Buffer) : Nat := b.capacity - (b.cursor.passed.length + b.cursor.ahead.length)

def put (b : Buffer) (bytes : List UInt8) : Nat × Buffer :=
  if fits : bytes.length ≤ b.room then
    (bytes.length, ⟨b.capacity, b.cursor.append bytes, by
      have := b.fits
      simp only [room, Cursor.append, List.length_append] at fits ⊢
      omega⟩)
  else (0, b)

def advance (b : Buffer) (n : Nat) : Buffer :=
  ⟨b.capacity, b.cursor.advance n, (b.cursor.length_advance n).trans_le b.fits⟩

/-- The next `n` bytes. -/
def take? (b : Buffer) (n : Nat) : Option (List UInt8 × Buffer) :=
  if n ≤ b.cursor.ahead.length then some (b.cursor.ahead.take n, b.advance n) else none

def pull (b : Buffer) : Buffer :=
  ⟨b.capacity, ⟨[], b.cursor.ahead⟩, by
    have := b.fits
    simp only [List.length_nil]
    omega⟩

instance : ByteStream Buffer where
  withCapacity := empty
  put := put
  getU32 b := (b.take? 4).map fun (bytes, b) => (UInt32.ofNat (BigEndian.toNat bytes), b)
  getU16 b := (b.take? 2).map fun (bytes, b) => (UInt16.ofNat (BigEndian.toNat bytes), b)
  get := take?
  len b := b.cursor.passed.length + b.cursor.ahead.length
  cap := room
  pull := pull
  asRef b := b.cursor.passed ++ b.cursor.ahead
  clear b := empty b.capacity

theorem take?_enough {b : Buffer} {n : Nat} (enough : n ≤ b.cursor.ahead.length) :
    b.take? n = some (b.cursor.ahead.take n, b.advance n) := if_pos enough

theorem take?_short {b : Buffer} {n : Nat} (short : b.cursor.ahead.length < n) :
    b.take? n = none := if_neg (Nat.not_le.mpr short)

instance : LawfulByteStream Buffer where
  view := cursor
  view_withCapacity _ := rfl
  getU32_enough b enough := ⟨b.advance 4, by simp [ByteStream.getU32, take?_enough enough], rfl⟩
  getU32_short b short := by simp [ByteStream.getU32, take?_short short]
  getU16_enough b enough := ⟨b.advance 2, by simp [ByteStream.getU16, take?_enough enough], rfl⟩
  getU16_short b short := by simp [ByteStream.getU16, take?_short short]
  get_enough b n enough := ⟨b.advance n, take?_enough enough, rfl⟩
  get_short _ _ short := take?_short short
  len_eq _ := rfl
  view_pull _ := rfl
  asRef_eq b clean := by simp only [ByteStream.asRef] at clean ⊢; rw [clean, List.nil_append]
  view_clear _ := rfl

instance : BoundedByteStream Buffer where
  put_fits b bytes fits := by
    rw [show ByteStream.put b bytes = _ from dif_pos fits]
    exact ⟨rfl, rfl⟩
  put_full b bytes full := by
    rw [show ByteStream.put b bytes = _ from dif_neg (Nat.not_le.mpr full)]
    exact ⟨rfl, rfl⟩

end Buffer
