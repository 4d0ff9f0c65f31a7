import Uppercut.Data.Buf

/-!
# The messages of the gossip example

A tag is written behind its length, and gossip behind the number of its entries. Both numbers are
cast to one byte, so only short tags and short lists are read back as they were written.
-/

namespace Uppercut.Gossip

open Buf

inductive Message where
  | ping (target : String) (beat : UInt64)
  | pong (target : String) (beat : UInt64)
  | gossip (pairs : List (String × UInt64))
  | stop
  | tick
  | init (horizon tick period : UInt64) (pings : List String)
  deriving DecidableEq

namespace Message

/-- A tag and a beat. -/
def putPair (pair : String × UInt64) : List UInt8 :=
  UInt8.ofNat (Utf8.encode pair.1).length :: (Utf8.encode pair.1 ++ putU64 pair.2)

/-- `From<Message> for Vec<u8>`. -/
def toBytes : Message → List UInt8
  | ping target beat => 1 :: putPair (target, beat)
  | pong target beat => 2 :: putPair (target, beat)
  | gossip pairs => 3 :: UInt8.ofNat pairs.length :: pairs.flatMap putPair
  | stop => [4]
  | tick | init .. => [0]

def getPair (buf : List UInt8) : Option ((String × UInt64) × List UInt8) := do
  let (n, buf) ← getU8 buf
  let (v, buf) ← copyToBytes n.toNat buf
  let (beat, buf) ← getU64 buf
  let tag ← Utf8.decode? v
  return ((tag, beat), buf)

def getPairs : Nat → List UInt8 → Option (List (String × UInt64) × List UInt8)
  | 0, buf => some ([], buf)
  | k + 1, buf => do
      let (pair, buf) ← getPair buf
      let (pairs, buf) ← getPairs k buf
      return (pair :: pairs, buf)

/-- `From<Vec<u8>> for Message`. It panics when bytes are missing and when a tag is not a string. -/
def fromBytes (buf : List UInt8) : Option Message := do
  let (op, buf) ← getU8 buf
  match op.toNat with
  | 1 =>
      let ((target, beat), _) ← getPair buf
      return ping target beat
  | 2 =>
      let ((target, beat), _) ← getPair buf
      return pong target beat
  | 3 =>
      let (k, buf) ← getU8 buf
      let (pairs, _) ← getPairs k.toNat buf
      return gossip pairs
  | 4 => some stop
  | _ => some tick

/-- The length of the tag fits in a byte. -/
def Short (tag : String) : Prop := (Utf8.encode tag).length < 256

instance (tag : String) : Decidable (Short tag) := inferInstanceAs (Decidable (_ < _))

/-- The message is sent as bytes, and its numbers fit. An `Init` never is: agents get it as a
value. -/
def Fits : Message → Prop
  | ping target _ | pong target _ => Short target
  | gossip pairs => pairs.length < 256 ∧ ∀ pair ∈ pairs, Short pair.1
  | stop | tick => True
  | init .. => False

theorem getPair_eq_some {buf rest : List UInt8} {pair : String × UInt64} :
    getPair buf = some (pair, rest) ↔ buf = putPair pair ++ rest ∧ Short pair.1 := by
  obtain ⟨tag, beat⟩ := pair
  simp only [getPair, Option.bind_eq_bind, Option.bind_eq_some_iff, Prod.exists, getU8_eq_some,
    copyToBytes_eq_some, getU64_eq_some, Option.pure_def, Option.some.injEq, Prod.mk.injEq]
  constructor
  · rintro ⟨n, _, rfl, v, _, ⟨rfl, length⟩, beat', rest', rfl, tag', decoded, ⟨rfl, rfl⟩, rfl⟩
    obtain rfl := Utf8.encode_of_decode? decoded
    refine ⟨?_, length.trans_lt n.toNat_lt⟩
    rw [putPair, length, UInt8.ofNat_toNat, List.cons_append, List.append_assoc]
  · rintro ⟨rfl, short⟩
    refine ⟨_, _, rfl, Utf8.encode tag, putU64 beat ++ rest, ⟨List.append_assoc .., ?_⟩, beat, rest,
      rfl, tag, Utf8.decode?_encode tag, ⟨rfl, rfl⟩, rfl⟩
    exact (Nat.mod_eq_of_lt short).symm

theorem getPairs_eq_some {k : Nat} {buf rest : List UInt8} {pairs : List (String × UInt64)} :
    getPairs k buf = some (pairs, rest) ↔
      buf = pairs.flatMap putPair ++ rest ∧ pairs.length = k ∧ ∀ pair ∈ pairs, Short pair.1 := by
  induction k generalizing buf pairs rest with
  | zero =>
      simp only [getPairs, Option.some.injEq, Prod.mk.injEq, List.length_eq_zero_iff]
      constructor
      · rintro ⟨rfl, rfl⟩
        exact ⟨rfl, rfl, nofun⟩
      · rintro ⟨rfl, rfl, _⟩
        exact ⟨rfl, rfl⟩
  | succ k ih =>
      simp only [getPairs, Option.bind_eq_bind, Option.bind_eq_some_iff, Prod.exists,
        getPair_eq_some, ih, Option.pure_def, Option.some.injEq, Prod.mk.injEq]
      constructor
      · rintro ⟨tag, beat, _, ⟨rfl, short⟩, more, _, ⟨rfl, rfl, shorts⟩, rfl, rfl⟩
        refine ⟨by simp, rfl, ?_⟩
        simpa using ⟨short, fun tag beat mem => shorts (tag, beat) mem⟩
      · rintro ⟨rfl, length, shorts⟩
        obtain ⟨⟨tag, beat⟩, more, rfl⟩ := List.exists_cons_of_length_eq_add_one length
        refine ⟨tag, beat, more.flatMap putPair ++ rest, ⟨by simp, shorts _ List.mem_cons_self⟩,
          more, rest, ⟨rfl, by simpa using length, ?_⟩, rfl, rfl⟩
        exact fun pair mem => shorts pair (List.mem_cons_of_mem _ mem)

/-- What fits is read back, whatever follows it. -/
theorem fromBytes_toBytes {m : Message} (fits : m.Fits) (rest : List UInt8) :
    fromBytes (m.toBytes ++ rest) = some m := by
  cases m with
  | ping target beat | pong target beat =>
      have read : getPair (putPair (target, beat) ++ rest) = some ((target, beat), rest) :=
        getPair_eq_some.mpr ⟨rfl, fits⟩
      simp [fromBytes, toBytes, read]
  | gossip pairs =>
      have read : getPairs pairs.length (pairs.flatMap putPair ++ rest) = some (pairs, rest) :=
        getPairs_eq_some.mpr ⟨rfl, rfl, fits.2⟩
      simp [fromBytes, toBytes, read, Nat.mod_eq_of_lt fits.1]
  | stop | tick => simp [fromBytes, toBytes]
  | init => exact fits.elim

/-- **The bytes of a message.** A buffer is read as a message exactly when the message is not an
`Init`, its numbers fit and the buffer starts with its bytes, or, for a tick, with a byte that
stands for none of the others. An `Init` is never sent as bytes. -/
theorem reads_iff_fits {buf : List UInt8} {m : Message} :
    fromBytes buf = some m ↔ (m.Fits ∧ ∃ rest, buf = m.toBytes ++ rest) ∨
      m = .tick ∧ ∃ op rest, buf = op :: rest ∧ 4 < op.toNat := by
  constructor
  · intro result
    cases buf with
    | nil => cases result
    | cons op buf =>
        simp only [fromBytes, getU8_cons, Option.bind_eq_bind, Option.bind_some] at result
        have byte {k : Nat} (here : op.toNat = k) : op = UInt8.ofNat k := by
          rw [← here, UInt8.ofNat_toNat]
        split at result
        case h_1 here | h_2 here =>
          simp only [Option.bind_eq_some_iff, Prod.exists, Option.pure_def, Option.some.injEq,
            getPair_eq_some] at result
          obtain ⟨target, beat, rest, ⟨rfl, short⟩, rfl⟩ := result
          obtain rfl := byte here
          exact .inl ⟨short, rest, rfl⟩
        case h_3 here =>
          simp only [Option.bind_eq_some_iff, Prod.exists, Option.pure_def, Option.some.injEq,
            getU8_eq_some, getPairs_eq_some] at result
          obtain ⟨k, _, rfl, pairs, rest, ⟨rfl, length, shorts⟩, rfl⟩ := result
          obtain rfl := byte here
          refine .inl ⟨⟨length.trans_lt k.toNat_lt, shorts⟩, rest, ?_⟩
          simp [toBytes, length]
        case h_4 here =>
          cases result
          obtain rfl := byte here
          exact .inl ⟨trivial, buf, rfl⟩
        case h_5 =>
          cases result
          by_cases zero : op.toNat = 0
          · obtain rfl := byte zero
            exact .inl ⟨trivial, buf, rfl⟩
          · exact .inr ⟨rfl, op, buf, rfl, by grind⟩
  · rintro (⟨fits, rest, rfl⟩ | ⟨rfl, op, rest, rfl, large⟩)
    · exact fromBytes_toBytes fits rest
    · simp only [fromBytes, getU8_cons, Option.bind_eq_bind, Option.bind_some]
      split <;> first
        | rfl
        | omega

end Message
end Uppercut.Gossip
