import Uppercut.Data.ByteStream

/-!
# Packets on the wire

A packet is encoded as three 32-bit lengths and the port, then the two names and the
payload. `Packet.fromBytes` reads the fields one after the other and moves the cursor
as it goes: when it finds the packet incomplete only after it has read the header, the
header stays read. `none` stands for a panic of an `unwrap`.
-/

namespace Uppercut

open ByteStream LawfulByteStream

structure Packet where
  «to» : String
  «from» : String
  payload : List UInt8
  port : UInt16
  deriving DecidableEq

def putU32 (n : UInt32) : List UInt8 := BigEndian.ofNat 4 n.toNat
def putU16 (n : UInt16) : List UInt8 := BigEndian.ofNat 2 n.toNat

@[simp] theorem length_putU32 (n : UInt32) : (putU32 n).length = 4 := BigEndian.length_ofNat _ _
@[simp] theorem length_putU16 (n : UInt16) : (putU16 n).length = 2 := BigEndian.length_ofNat _ _

namespace Packet

variable {σ : Type} [ByteStream σ]

/-- The three lengths and the port. -/
structure Header where
  toLen : UInt32
  fromLen : UInt32
  payloadLen : UInt32
  port : UInt16
  deriving DecidableEq

/-- `3 * size_of::<u32>() + size_of::<u16>()`. -/
def min : Nat := 3 * 4 + 2

namespace Header

/-- The sum is taken in `usize`, which is wide enough for it. -/
def total (h : Header) : Nat :=
  min + h.toLen.toNat + h.fromLen.toNat + h.payloadLen.toNat

/-- What the first bytes of `bytes` say. -/
def ofBytes (bytes : List UInt8) : Header where
  toLen := UInt32.ofNat (BigEndian.toNat (bytes.take 4))
  fromLen := UInt32.ofNat (BigEndian.toNat ((bytes.drop 4).take 4))
  payloadLen := UInt32.ofNat (BigEndian.toNat ((bytes.drop 8).take 4))
  port := UInt16.ofNat (BigEndian.toNat ((bytes.drop 12).take 2))

def toBytes (h : Header) : List UInt8 :=
  putU32 h.toLen ++ putU32 h.fromLen ++ putU32 h.payloadLen ++ putU16 h.port

end Header

/-- The lengths are cast to `u32`. -/
def header (p : Packet) : Header where
  toLen := UInt32.ofNat (Utf8.encode p.to).length
  fromLen := UInt32.ofNat (Utf8.encode p.from).length
  payloadLen := UInt32.ofNat p.payload.length
  port := p.port

def toBytes (p : Packet) : List UInt8 :=
  p.header.toBytes ++ (Utf8.encode p.to ++ Utf8.encode p.from ++ p.payload)

/-- The four reads that make up the header. -/
def getHeader (stream : σ) : Option (Header × σ) := do
  let (toLen, stream) ← getU32 stream
  let (fromLen, stream) ← getU32 stream
  let (payloadLen, stream) ← getU32 stream
  let (port, stream) ← getU16 stream
  return (⟨toLen, fromLen, payloadLen, port⟩, stream)

/-- The three reads that follow a header. -/
def getBody (h : Header) (stream : σ) : Option (Packet × σ) := do
  let (bytes, stream) ← get stream h.toLen.toNat
  let «to» ← Utf8.decode? bytes
  let (bytes, stream) ← get stream h.fromLen.toNat
  let «from» ← Utf8.decode? bytes
  let (payload, stream) ← get stream h.payloadLen.toNat
  return (⟨«to», «from», payload, h.port⟩, stream)

def fromBytes (stream : σ) (limit : Nat) : Option (Except Unit (Option Packet) × σ) := do
  if len stream ≤ min then
    return (.ok none, stream)
  let (h, stream) ← getHeader stream
  if h.total > limit then
    -- Naive check if such stream will ever match into a Packet
    return (.error (), stream)
  if len stream < h.total then
    return (.ok none, stream)
  let (packet, stream) ← getBody h stream
  return (.ok (some packet), pull stream)

/-! ## Headers -/

@[simp] theorem Header.length_toBytes (h : Header) : h.toBytes.length = min := by
  simp [toBytes, min]

theorem ofNat_toNat_putU32 (n : UInt32) : UInt32.ofNat (BigEndian.toNat (putU32 n)) = n := by
  rw [putU32, BigEndian.toNat_ofNat, Nat.mod_eq_of_lt (by simpa using n.toNat_lt)]
  exact UInt32.ofNat_toNat

theorem ofNat_toNat_putU16 (n : UInt16) : UInt16.ofNat (BigEndian.toNat (putU16 n)) = n := by
  rw [putU16, BigEndian.toNat_ofNat, Nat.mod_eq_of_lt (by simpa using n.toNat_lt)]
  exact UInt16.ofNat_toNat

theorem putU32_ofNat_toNat {bytes : List UInt8} (four : bytes.length = 4) :
    putU32 (UInt32.ofNat (BigEndian.toNat bytes)) = bytes := by
  have small := BigEndian.toNat_lt bytes
  rw [four] at small
  rw [putU32, UInt32.toNat_ofNat_of_lt' (by simpa using small), ← four]
  exact BigEndian.ofNat_toNat bytes

theorem putU16_ofNat_toNat {bytes : List UInt8} (two : bytes.length = 2) :
    putU16 (UInt16.ofNat (BigEndian.toNat bytes)) = bytes := by
  have small := BigEndian.toNat_lt bytes
  rw [two] at small
  rw [putU16, UInt16.toNat_ofNat_of_lt' (by simpa using small), ← two]
  exact BigEndian.ofNat_toNat bytes

/-- A header that was written is read back. -/
theorem Header.ofBytes_toBytes (h : Header) (rest : List UInt8) :
    Header.ofBytes (h.toBytes ++ rest) = h := by
  have first (n : UInt32) (tail : List UInt8) : (putU32 n ++ tail).take 4 = putU32 n :=
    List.take_left' (length_putU32 n)
  have last (n : UInt16) (tail : List UInt8) : (putU16 n ++ tail).take 2 = putU16 n :=
    List.take_left' (length_putU16 n)
  have second (a : UInt32) (tail : List UInt8) : (putU32 a ++ tail).drop 4 = tail :=
    List.drop_left' (length_putU32 a)
  have third (a b : UInt32) (tail : List UInt8) :
      (putU32 a ++ (putU32 b ++ tail)).drop 8 = tail := by
    rw [← List.append_assoc]
    exact List.drop_left' (by simp)
  have fourth (a b c : UInt32) (tail : List UInt8) :
      (putU32 a ++ (putU32 b ++ (putU32 c ++ tail))).drop 12 = tail := by
    rw [← List.append_assoc, ← List.append_assoc]
    exact List.drop_left' (by simp)
  simp only [ofBytes, toBytes, List.append_assoc, first, second, third, fourth, last,
    ofNat_toNat_putU32, ofNat_toNat_putU16]

/-- The bytes of a header that was read are those it was read from. -/
theorem Header.toBytes_ofBytes {bytes : List UInt8} (enough : min ≤ bytes.length) :
    (Header.ofBytes bytes).toBytes = bytes.take min := by
  have long : 14 ≤ bytes.length := enough
  have split : bytes.take 14 =
      bytes.take 4 ++ (bytes.drop 4).take 4 ++ (bytes.drop 8).take 4 ++ (bytes.drop 12).take 2 := by
    rw [← List.take_add, ← List.take_add, ← List.take_add]
  simp only [toBytes, ofBytes]
  rw [putU32_ofNat_toNat, putU32_ofNat_toNat, putU32_ofNat_toNat, putU16_ofNat_toNat]
  · exact split.symm
  all_goals
    simp only [List.length_take, List.length_drop]
    omega

/-! ## The reads -/

section Lawful

variable [LawfulByteStream σ]

theorem getHeader_enough {stream : σ} (enough : min ≤ (view stream).ahead.length) :
    ∃ next, getHeader stream = some (Header.ofBytes (view stream).ahead, next) ∧
      view next = (view stream).advance min := by
  have long : 14 ≤ (view stream).ahead.length := enough
  obtain ⟨s₁, read₁, view₁⟩ := getU32_enough stream (by omega)
  obtain ⟨s₂, read₂, view₂⟩ := getU32_enough s₁ (by simp [view₁]; omega)
  obtain ⟨s₃, read₃, view₃⟩ := getU32_enough s₂ (by simp [view₂, view₁]; omega)
  obtain ⟨s₄, read₄, view₄⟩ := getU16_enough s₃ (by simp [view₃, view₂, view₁]; omega)
  refine ⟨s₄, ?_, by simp [view₄, view₃, view₂, view₁, min]⟩
  simp [getHeader, read₁, read₂, read₃, read₄, view₃, view₂, view₁, Header.ofBytes]

theorem getHeader_short {stream : σ} (short : (view stream).ahead.length < min) :
    getHeader stream = none := by
  have cut : (view stream).ahead.length < 14 := short
  by_cases four : (view stream).ahead.length < 4
  · simp [getHeader, getU32_short stream four]
  obtain ⟨s₁, read₁, view₁⟩ := getU32_enough stream (by omega)
  by_cases eight : (view s₁).ahead.length < 4
  · simp [getHeader, read₁, getU32_short s₁ eight]
  obtain ⟨s₂, read₂, view₂⟩ := getU32_enough s₁ (by omega)
  by_cases twelve : (view s₂).ahead.length < 4
  · simp [getHeader, read₁, read₂, getU32_short s₂ twelve]
  obtain ⟨s₃, read₃, view₃⟩ := getU32_enough s₂ (by omega)
  have last : (view s₃).ahead.length < 2 := by
    simp only [view₃, view₂, view₁, Cursor.advance_ahead, List.length_drop]
    omega
  simp [getHeader, read₁, read₂, read₃, getU16_short s₃ last]

/-- The bytes that follow a header. -/
def Header.rest (h : Header) : Nat := h.toLen.toNat + h.fromLen.toNat + h.payloadLen.toNat

theorem Header.total_eq (h : Header) : h.total = min + h.rest := by
  simp only [total, rest]
  omega

/-- The packet that a header and the bytes behind it make. -/
def ofParts? (h : Header) (bytes : List UInt8) : Option Packet := do
  let «to» ← Utf8.decode? (bytes.take h.toLen.toNat)
  let «from» ← Utf8.decode? ((bytes.drop h.toLen.toNat).take h.fromLen.toNat)
  return ⟨«to», «from»,
    (bytes.drop (h.toLen.toNat + h.fromLen.toNat)).take h.payloadLen.toNat, h.port⟩

theorem getBody_enough {h : Header} {stream : σ} (enough : h.rest ≤ (view stream).ahead.length) :
    ∃ next, view next = (view stream).advance h.rest ∧
      getBody h stream = (ofParts? h (view stream).ahead).map fun packet => (packet, next) := by
  have long : h.toLen.toNat + h.fromLen.toNat + h.payloadLen.toNat ≤
    (view stream).ahead.length := enough
  obtain ⟨s₁, read₁, view₁⟩ := get_enough stream h.toLen.toNat (by omega)
  obtain ⟨s₂, read₂, view₂⟩ := get_enough s₁ h.fromLen.toNat (by simp [view₁]; omega)
  obtain ⟨s₃, read₃, view₃⟩ := get_enough s₂ h.payloadLen.toNat (by simp [view₂, view₁]; omega)
  refine ⟨s₃, by simp [view₃, view₂, view₁, Header.rest, Nat.add_assoc], ?_⟩
  simp only [getBody, ofParts?, read₁, read₂, read₃, view₂, view₁, Cursor.advance_advance,
    Cursor.advance_ahead, Option.bind_eq_bind, Option.bind_some, Option.pure_def]
  cases Utf8.decode? ((view stream).ahead.take h.toLen.toNat) with
  | none => rfl
  | some name =>
      cases Utf8.decode? (((view stream).ahead.drop h.toLen.toNat).take h.fromLen.toNat) <;> rfl

theorem getBody_short {h : Header} {stream : σ} (short : (view stream).ahead.length < h.rest) :
    getBody h stream = none := by
  have cut : (view stream).ahead.length <
    h.toLen.toNat + h.fromLen.toNat + h.payloadLen.toNat := short
  by_cases first : (view stream).ahead.length < h.toLen.toNat
  · simp [getBody, get_short stream _ first]
  obtain ⟨s₁, read₁, view₁⟩ := get_enough stream h.toLen.toNat (by omega)
  by_cases second : (view s₁).ahead.length < h.fromLen.toNat
  · cases decoded : Utf8.decode? ((view stream).ahead.take h.toLen.toNat) <;>
      simp [getBody, read₁, decoded, get_short s₁ _ second]
  obtain ⟨s₂, read₂, view₂⟩ := get_enough s₁ h.fromLen.toNat (by omega)
  have third : (view s₂).ahead.length < h.payloadLen.toNat := by
    have left : (view s₁).ahead.length = (view stream).ahead.length - h.toLen.toNat := by
      simp [view₁]
    simp only [view₂, Cursor.advance_ahead, List.length_drop]
    omega
  cases decoded : Utf8.decode? ((view stream).ahead.take h.toLen.toNat) with
  | none => simp [getBody, read₁, decoded]
  | some name =>
      cases decoded₂ : Utf8.decode? ((view s₁).ahead.take h.fromLen.toNat) <;>
        simp [getBody, read₁, decoded, read₂, decoded₂, get_short s₂ _ third]

end Lawful

/-! ## Packets and their bytes -/

theorem length_toBytes (p : Packet) :
    p.toBytes.length =
      min + ((Utf8.encode p.to).length + (Utf8.encode p.from).length + p.payload.length) := by
  simp [toBytes, Nat.add_assoc]

/-- Each of the three lengths fits into its field. -/
def Counted (p : Packet) : Prop :=
  (Utf8.encode p.to).length < 2 ^ 32 ∧ (Utf8.encode p.from).length < 2 ^ 32 ∧
    p.payload.length < 2 ^ 32

theorem counted_of_length {p : Packet} (fits : p.toBytes.length < 2 ^ 32) : p.Counted := by
  rw [length_toBytes] at fits
  refine ⟨?_, ?_, ?_⟩ <;> omega

/-- The lengths in the header are those of the parts, cut to their fields. -/
theorem header_cut (p : Packet) :
    p.header.toLen.toNat = (Utf8.encode p.to).length % 2 ^ 32 ∧
      p.header.fromLen.toNat = (Utf8.encode p.from).length % 2 ^ 32 ∧
      p.header.payloadLen.toNat = p.payload.length % 2 ^ 32 :=
  ⟨UInt32.toNat_ofNat, UInt32.toNat_ofNat, UInt32.toNat_ofNat⟩

theorem header_rest {p : Packet} (counted : p.Counted) :
    p.header.toLen.toNat = (Utf8.encode p.to).length ∧
      p.header.fromLen.toNat = (Utf8.encode p.from).length ∧
      p.header.payloadLen.toNat = p.payload.length := by
  obtain ⟨toFits, fromFits, payloadFits⟩ := counted
  obtain ⟨toLen, fromLen, payloadLen⟩ := p.header_cut
  exact ⟨toLen.trans (Nat.mod_eq_of_lt toFits), fromLen.trans (Nat.mod_eq_of_lt fromFits),
    payloadLen.trans (Nat.mod_eq_of_lt payloadFits)⟩

/-- A packet with names that fit is put together from its own bytes, up to the length of the
payload that is left in its field. -/
theorem ofParts?_cut {p : Packet} (toFits : (Utf8.encode p.to).length < 2 ^ 32)
    (fromFits : (Utf8.encode p.from).length < 2 ^ 32) (rest : List UInt8) :
    ofParts? p.header (Utf8.encode p.to ++ Utf8.encode p.from ++ p.payload ++ rest) =
      some { p with payload := p.payload.take (p.payload.length % 2 ^ 32) } := by
  obtain ⟨toLen, fromLen, payloadLen⟩ := p.header_cut
  rw [Nat.mod_eq_of_lt toFits] at toLen
  rw [Nat.mod_eq_of_lt fromFits] at fromLen
  have first : ((Utf8.encode p.to ++ Utf8.encode p.from ++ p.payload ++ rest).take
      (Utf8.encode p.to).length) = Utf8.encode p.to := by simp [List.append_assoc]
  have second : ((Utf8.encode p.to ++ Utf8.encode p.from ++ p.payload ++ rest).drop
      (Utf8.encode p.to).length).take (Utf8.encode p.from).length = Utf8.encode p.from := by
    simp [List.append_assoc]
  have third : ((Utf8.encode p.to ++ Utf8.encode p.from ++ p.payload ++ rest).drop
      ((Utf8.encode p.to).length + (Utf8.encode p.from).length)).take
        (p.payload.length % 2 ^ 32) = p.payload.take (p.payload.length % 2 ^ 32) := by
    rw [← List.length_append]
    simp only [List.append_assoc]
    rw [← List.append_assoc (Utf8.encode p.to), List.drop_left]
    exact List.take_append_of_le_length (Nat.mod_le _ _)
  simp only [ofParts?, toLen, fromLen, payloadLen, first, second, third, Utf8.decode?_encode]
  rfl

/-- A packet is put together from its own bytes. -/
theorem ofParts?_toBytes {p : Packet} (counted : p.Counted) (rest : List UInt8) :
    ofParts? p.header (Utf8.encode p.to ++ Utf8.encode p.from ++ p.payload ++ rest) = some p := by
  rw [ofParts?_cut counted.1 counted.2.1, Nat.mod_eq_of_lt counted.2.2, List.take_length]

/-- The packet that was put together is encoded as the bytes it came from. -/
theorem toBytes_of_parts {h : Header} {bytes : List UInt8} {p : Packet}
    (enough : h.rest ≤ bytes.length) (parts : ofParts? h bytes = some p) :
    p.header = h ∧ p.toBytes = h.toBytes ++ bytes.take h.rest := by
  have long : h.toLen.toNat + h.fromLen.toNat + h.payloadLen.toNat ≤ bytes.length := enough
  simp only [ofParts?, Option.bind_eq_bind, Option.bind_eq_some_iff, Option.pure_def,
    Option.some.injEq] at parts
  obtain ⟨name, known, sender, known', rfl⟩ := parts
  have first := Utf8.encode_of_decode? known
  have second := Utf8.encode_of_decode? known'
  have same : (⟨name, sender, (bytes.drop (h.toLen.toNat + h.fromLen.toNat)).take
      h.payloadLen.toNat, h.port⟩ : Packet).header = h := by
    have lens : bytes.length - h.toLen.toNat ≥ h.fromLen.toNat := by omega
    simp only [header, first, second, List.length_take, List.length_drop]
    rw [Nat.min_eq_left (by omega), Nat.min_eq_left (by omega), Nat.min_eq_left (by omega)]
    simp
  refine ⟨same, ?_⟩
  rw [toBytes, same, first, second, Header.rest, List.take_add, List.take_add]

/-! ## Decoding -/

theorem fromBytes_short {stream : σ} {limit : Nat} (short : len stream ≤ min) :
    fromBytes stream limit = some (.ok none, stream) := by
  simp [fromBytes, short]

section Lawful

variable [LawfulByteStream σ] {stream : σ} {limit : Nat}

theorem fromBytes_cut (long : min < len stream) (cut : (view stream).ahead.length < min) :
    fromBytes stream limit = none := by
  simp [fromBytes, Nat.not_le.mpr long, getHeader_short cut]

/-- Once the header is read, the cursor stays behind it. -/
theorem fromBytes_header (limit : Nat) (long : min < len stream)
    (enough : min ≤ (view stream).ahead.length) :
    ∃ next, view next = (view stream).advance min ∧ len next = len stream ∧
      fromBytes stream limit =
        if (Header.ofBytes (view stream).ahead).total > limit then some (.error (), next)
        else if len stream < (Header.ofBytes (view stream).ahead).total then some (.ok none, next)
        else (getBody (Header.ofBytes (view stream).ahead) next).map fun (packet, next) =>
          (.ok (some packet), pull next) := by
  obtain ⟨next, read, moved⟩ := getHeader_enough enough
  have same : len next = len stream := by rw [len_eq, len_eq, moved, Cursor.length_advance]
  refine ⟨next, moved, same, ?_⟩
  simp only [fromBytes, Nat.not_le.mpr long, if_false, read, Option.bind_eq_bind,
    Option.bind_some, same]
  split
  · rfl
  split
  · rfl
  cases getBody (Header.ofBytes (view stream).ahead) next <;> rfl

/-- How a call that does not panic ends. -/
theorem fromBytes_cases {result : Except Unit (Option Packet)} {next : σ}
    (parsed : fromBytes stream limit = some (result, next)) :
    (len stream ≤ min ∧ result = .ok none ∧ next = stream) ∨
    (min ≤ (view stream).ahead.length ∧ view next = (view stream).advance min ∧
      (result = .ok none ∨ result = .error ())) ∨
    ∃ packet rest, result = .ok (some packet) ∧ view next = ⟨[], rest⟩ ∧
      (view stream).ahead = packet.toBytes ++ rest ∧ packet.toBytes.length ≤ limit := by
  by_cases short : len stream ≤ min
  · rw [fromBytes_short short] at parsed
    cases parsed
    exact .inl ⟨short, rfl, rfl⟩
  by_cases enough : min ≤ (view stream).ahead.length
  case neg =>
    rw [fromBytes_cut (Nat.not_le.mp short) (Nat.not_le.mp enough)] at parsed
    cases parsed
  apply Or.inr
  obtain ⟨passed, moved, _, known⟩ := fromBytes_header limit (Nat.not_le.mp short) enough
  rw [known] at parsed
  split at parsed
  · cases parsed
    exact .inl ⟨enough, moved, .inr rfl⟩
  case isFalse fits =>
    split at parsed
    · cases parsed
      exact .inl ⟨enough, moved, .inl rfl⟩
    apply Or.inr
    obtain ⟨⟨packet, last⟩, read, same⟩ := Option.map_eq_some_iff.mp parsed
    cases same
    have ahead : (view passed).ahead = (view stream).ahead.drop min := by simp [moved]
    by_cases body : (Header.ofBytes (view stream).ahead).rest ≤ (view passed).ahead.length
    case neg =>
      rw [getBody_short (Nat.not_le.mp body)] at read
      cases read
    obtain ⟨after, gone, parts⟩ := getBody_enough body
    rw [parts] at read
    obtain ⟨_, put, same⟩ := Option.map_eq_some_iff.mp read
    cases same
    obtain ⟨_, bytes⟩ := toBytes_of_parts body put
    refine ⟨packet, (view passed).ahead.drop (Header.ofBytes (view stream).ahead).rest, rfl,
      by rw [view_pull, gone, Cursor.advance_ahead], ?_, ?_⟩
    · rw [bytes, Header.toBytes_ofBytes enough, List.append_assoc, List.take_append_drop, ahead,
        List.take_append_drop]
    · rw [bytes, List.length_append, Header.length_toBytes, List.length_take_of_le body,
        ← Header.total_eq]
      omega

/-- A complete packet at the cursor is decoded. -/
theorem fromBytes_toBytes {p : Packet} {rest : List UInt8} (small : limit < 2 ^ 32)
    (holds : view stream = ⟨[], p.toBytes ++ rest⟩) (more : min < (p.toBytes ++ rest).length)
    (fits : p.toBytes.length ≤ limit) :
    ∃ next, fromBytes stream limit = some (.ok (some p), next) ∧ view next = ⟨[], rest⟩ := by
  have buffered : len stream = (p.toBytes ++ rest).length := by simp [len_eq, holds]
  have size := length_toBytes p
  have whole : p.Counted := counted_of_length (by omega)
  obtain ⟨toLen, fromLen, payloadLen⟩ := header_rest whole
  have known : Header.ofBytes (view stream).ahead = p.header := by
    rw [holds, toBytes, List.append_assoc, Header.ofBytes_toBytes]
  have total : p.header.total = p.toBytes.length := by
    rw [Header.total_eq, Header.rest, toLen, fromLen, payloadLen, size]
  obtain ⟨next, moved, _, parsed⟩ := fromBytes_header limit (buffered ▸ more)
    (by rw [holds]; exact Nat.le_of_lt more)
  rw [known, total, if_neg (by omega),
    if_neg (by rw [buffered, List.length_append]; omega)] at parsed
  have body : (view next).ahead =
      Utf8.encode p.to ++ Utf8.encode p.from ++ p.payload ++ rest := by
    rw [moved, holds, Cursor.advance_ahead, toBytes, List.append_assoc]
    exact List.drop_left' (Header.length_toBytes _)
  obtain ⟨last, gone, read⟩ := @getBody_enough _ _ _ p.header next (by
    rw [body, Header.rest, toLen, fromLen, payloadLen]
    simp only [List.length_append]
    omega)
  rw [body, ofParts?_toBytes whole] at read
  rw [read] at parsed
  refine ⟨pull last, parsed, ?_⟩
  rw [view_pull, gone, Cursor.advance_ahead, body, Header.rest, toLen, fromLen, payloadLen,
    List.drop_left' (by simp only [List.length_append])]

/-- **Codec exactness.** Exactly the packets within the limit are decoded from their bytes,
and what follows is left. -/
theorem fromBytes_exact {b : List UInt8} (small : limit < 2 ^ 32)
    (holds : view stream = ⟨[], b⟩) (long : 14 < b.length) (p : Packet) (r : List UInt8) :
    (∃ next, fromBytes stream limit = some (.ok (some p), next) ∧ view next = ⟨[], r⟩) ↔
      b = p.toBytes ++ r ∧ p.toBytes.length ≤ limit := by
  constructor
  · rintro ⟨next, parsed, left⟩
    obtain ⟨_, none, _⟩ | ⟨_, _, none | none⟩ | ⟨packet, rest, same, after, ahead, fits⟩ :=
      fromBytes_cases parsed
    · cases none
    · cases none
    · cases none
    · cases same
      rw [left] at after
      cases after
      rw [holds] at ahead
      exact ⟨ahead, fits⟩
  · rintro ⟨rfl, fits⟩
    exact fromBytes_toBytes small holds long fits

end Lawful

/-- A small packet. -/
def hello : Packet := ⟨"a", "b", [1, 2, 3], 9⟩

theorem fromBytes_exact_hello :
    ∃ next : Buffer, fromBytes (Buffer.full (hello.toBytes ++ [5])) 64 =
        some (.ok (some hello), next) ∧ view next = ⟨[], [5]⟩ :=
  (fromBytes_exact (by decide) rfl (by decide) hello [5]).mpr ⟨rfl, by decide⟩

end Packet
end Uppercut
