import Uppercut.Data.Buf

/-!
# The messages of the Paxos example

A message is a byte that says what it is, and one or two numbers of eight bytes.
-/

namespace Uppercut.Paxos

open Buf

inductive Message where
  | request (val : UInt64)
  | prepare (seq : UInt64)
  | promise (seq : UInt64)
  | ignored (seq : UInt64)
  | accept (seq val : UInt64)
  | accepted (seq val : UInt64)
  | rejected (seq : UInt64)
  | selected (seq val : UInt64)
  | empty
  deriving DecidableEq

namespace Message

/-- `From<Message> for Vec<u8>`. -/
def toBytes : Message → List UInt8
  | request val => 1 :: putU64 val
  | prepare seq => 2 :: putU64 seq
  | promise seq => 3 :: putU64 seq
  | ignored seq => 4 :: putU64 seq
  | accept seq val => 5 :: (putU64 seq ++ putU64 val)
  | accepted seq val => 6 :: (putU64 seq ++ putU64 val)
  | rejected seq => 7 :: putU64 seq
  | selected seq val => 8 :: (putU64 seq ++ putU64 val)
  | empty => [0]

/-- One number. -/
def one (message : UInt64 → Message) (buf : List UInt8) : Option Message := do
  let (n, _) ← getU64 buf
  return message n

/-- Two numbers. -/
def two (message : UInt64 → UInt64 → Message) (buf : List UInt8) : Option Message := do
  let (n, buf) ← getU64 buf
  let (k, _) ← getU64 buf
  return message n k

/-- `From<Vec<u8>> for Message`. It panics when bytes are missing, and does not look at bytes
behind the message. -/
def fromBytes (buf : List UInt8) : Option Message := do
  let (op, buf) ← getU8 buf
  match op.toNat with
  | 1 => one request buf
  | 2 => one prepare buf
  | 3 => one promise buf
  | 4 => one ignored buf
  | 5 => two accept buf
  | 6 => two accepted buf
  | 7 => one rejected buf
  | 8 => two selected buf
  | _ => some empty

theorem one_eq_some {message : UInt64 → Message} {buf : List UInt8} {m : Message} :
    one message buf = some m ↔ ∃ n rest, buf = putU64 n ++ rest ∧ m = message n := by
  simp only [one, Option.bind_eq_bind, Option.bind_eq_some_iff, Prod.exists, getU64_eq_some,
    Option.pure_def, Option.some.injEq, eq_comm (a := m)]

theorem two_eq_some {message : UInt64 → UInt64 → Message} {buf : List UInt8} {m : Message} :
    two message buf = some m ↔
      ∃ n k rest, buf = putU64 n ++ putU64 k ++ rest ∧ m = message n k := by
  simp only [two, Option.bind_eq_bind, Option.bind_eq_some_iff, Prod.exists, getU64_eq_some,
    Option.pure_def, Option.some.injEq, eq_comm (a := m)]
  constructor
  · rintro ⟨n, _, rfl, k, rest, rfl, same⟩
    exact ⟨n, k, rest, (List.append_assoc ..).symm, same⟩
  · rintro ⟨n, k, rest, rfl, same⟩
    exact ⟨n, _, List.append_assoc .., k, rest, rfl, same⟩

/-- What was written is read back, whatever follows it. -/
theorem fromBytes_toBytes (m : Message) (rest : List UInt8) :
    fromBytes (m.toBytes ++ rest) = some m := by
  cases m <;> simp [fromBytes, toBytes, one, two]

/-- **The bytes of a message.** A buffer is read as a message exactly when it starts with the bytes
of that message, or, for the empty message, with a byte that stands for none of the others. -/
theorem reads_iff {buf : List UInt8} {m : Message} :
    fromBytes buf = some m ↔ (∃ rest, buf = m.toBytes ++ rest) ∨
      m = .empty ∧ ∃ op rest, buf = op :: rest ∧ 8 < op.toNat := by
  constructor
  · intro result
    cases buf with
    | nil => cases result
    | cons op buf =>
        simp only [fromBytes, getU8_cons, Option.bind_eq_bind, Option.bind_some] at result
        have byte {k : Nat} (here : op.toNat = k) (small : k < 256) : op = UInt8.ofNat k := by
          rw [← here, UInt8.ofNat_toNat]
        split at result
        case h_1 here | h_2 here | h_3 here | h_4 here | h_7 here =>
          obtain ⟨n, rest, rfl, rfl⟩ := one_eq_some.mp result
          obtain rfl := byte here (by decide)
          exact .inl ⟨rest, rfl⟩
        case h_5 here | h_6 here | h_8 here =>
          obtain ⟨n, k, rest, rfl, rfl⟩ := two_eq_some.mp result
          obtain rfl := byte here (by decide)
          exact .inl ⟨rest, rfl⟩
        case h_9 =>
          cases result
          by_cases zero : op.toNat = 0
          · obtain rfl := byte zero (by decide)
            exact .inl ⟨buf, rfl⟩
          · exact .inr ⟨rfl, op, buf, rfl, by grind⟩
  · rintro (⟨rest, rfl⟩ | ⟨rfl, op, rest, rfl, large⟩)
    · exact m.fromBytes_toBytes rest
    · simp only [fromBytes, getU8_cons, Option.bind_eq_bind, Option.bind_some]
      split <;> first
        | rfl
        | omega

end Message
end Uppercut.Paxos
