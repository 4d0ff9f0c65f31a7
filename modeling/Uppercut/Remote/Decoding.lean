import Uppercut.Remote.Delivery

/-!
# What decoding answers

A buffer whose cursor is at its start is decoded by its bytes alone: the header says how
long the packet is, and then the names have to be UTF-8. The lengths in a header are cut to 32
bits, and the names and the header count against the limit.
-/

namespace Uppercut

open ByteStream LawfulByteStream SocketAddr

namespace Packet

/-- What decoding a buffer answers. A panic has no answer. -/
def answer (limit : Nat) (b : List UInt8) : Option (Except Unit (Option Packet)) :=
  if b.length ≤ min then some (.ok none)
  else if limit < (Header.ofBytes b).total then some (.error ())
  else if b.length < (Header.ofBytes b).total then some (.ok none)
  else (ofParts? (Header.ofBytes b) (b.drop min)).map fun packet => .ok (some packet)

section Lawful

variable {σ : Type} [ByteStream σ] [LawfulByteStream σ] {stream : σ} {limit : Nat}
variable {b rest : List UInt8} {p : Packet}

theorem fromBytes_answer (holds : view stream = ⟨[], b⟩) :
    (fromBytes stream limit).map Prod.fst = answer limit b := by
  have buffered : len stream = b.length := by simp [len_eq, holds]
  unfold answer
  by_cases short : b.length ≤ min
  · rw [if_pos short, fromBytes_short (buffered ▸ short)]
    rfl
  rw [if_neg short]
  have long : min < b.length := Nat.not_le.mp short
  obtain ⟨next, moved, _, parsed⟩ :=
    fromBytes_header limit (buffered ▸ long) (by rw [holds]; exact long.le)
  rw [parsed, holds, buffered]
  split
  · rfl
  split
  · rfl
  case isFalse whole =>
    have ahead : (view next).ahead = b.drop min := by rw [moved, holds]; rfl
    have enough : (Header.ofBytes b).rest ≤ (view next).ahead.length := by
      have fits : ¬ b.length < (Header.ofBytes b).total := whole
      rw [Header.total_eq] at fits
      rw [ahead, List.length_drop]
      omega
    obtain ⟨last, _, read⟩ := getBody_enough enough
    show (((getBody (Header.ofBytes b) next).map _).map Prod.fst) = _
    rw [read, ahead]
    cases ofParts? (Header.ofBytes b) (b.drop min) <;> rfl

/-! ## Panics -/

/-- The names that a complete packet begins with are UTF-8. -/
def Legible (limit : Nat) (b : List UInt8) : Prop :=
  let h := Header.ofBytes b
  b.length ≤ min ∨ limit < h.total ∨ b.length < h.total ∨
    (Utf8.decode? ((b.drop min).take h.toLen.toNat)).isSome = true ∧
      (Utf8.decode? ((b.drop (min + h.toLen.toNat)).take h.fromLen.toNat)).isSome = true

theorem ofParts?_isSome (h : Header) (bytes : List UInt8) :
    (ofParts? h bytes).isSome = true ↔
      (Utf8.decode? (bytes.take h.toLen.toNat)).isSome = true ∧
        (Utf8.decode? ((bytes.drop h.toLen.toNat).take h.fromLen.toNat)).isSome = true := by
  unfold ofParts?
  cases Utf8.decode? (bytes.take h.toLen.toNat) with
  | none => simp
  | some name =>
      cases Utf8.decode? ((bytes.drop h.toLen.toNat).take h.fromLen.toNat) <;> simp

theorem answer_isSome (limit : Nat) (b : List UInt8) :
    (answer limit b).isSome = true ↔ Legible limit b := by
  unfold answer Legible
  dsimp only
  split
  case isTrue short => simp [short]
  case isFalse long =>
    split
    case isTrue large => simp [large]
    case isFalse fits =>
      split
      case isTrue cut => simp [cut]
      case isFalse whole =>
        rw [Option.isSome_map, ofParts?_isSome, List.drop_drop]
        simp [long, fits, whole]

/-- The sum of the lengths is far from an overflow. -/
theorem Header.total_lt (h : Header) : h.total < 2 ^ 64 := by
  have toLen := h.toLen.toNat_lt
  have fromLen := h.fromLen.toNat_lt
  have payloadLen := h.payloadLen.toNat_lt
  rw [total, min]
  omega

/-- **Decoding and panics.** Whatever bytes have arrived, decoding them answers exactly under
the condition, and the sum of the lengths does not overflow. -/
theorem answers_iff (holds : view stream = ⟨[], b⟩) (limit : Nat) :
    (Header.ofBytes b).total < 2 ^ 64 ∧
      ((fromBytes stream limit).isSome = true ↔ Legible limit b) := by
  refine ⟨Header.total_lt _, ?_⟩
  rw [← answer_isSome, ← fromBytes_answer holds, Option.isSome_map]

theorem answers_iff_hello :
    (fromBytes (Buffer.full hello.toBytes) packetSizeLimit).isSome = true := by
  have holds : view (Buffer.full hello.toBytes) = ⟨[], hello.toBytes⟩ := rfl
  refine (answers_iff holds packetSizeLimit).2.mpr ?_
  have first : (Utf8.decode? (Utf8.encode "a")).isSome = true := by rw [Utf8.decode?_encode]; rfl
  have second : (Utf8.decode? (Utf8.encode "b")).isSome = true := by rw [Utf8.decode?_encode]; rfl
  exact .inr (.inr (.inr ⟨first, second⟩))

/-- The first name is a byte that is no character. -/
def garbled : List UInt8 := [0, 0, 0, 1, 0, 0, 0, 0, 0, 0, 0, 0, 0, 9, 255]

theorem garbled_panics : fromBytes (Buffer.full garbled) packetSizeLimit = none := by
  decide

/-! ## Lengths that do not fit -/

theorem total_header (p : Packet) : p.header.total = min + (Utf8.encode p.to).length % 2 ^ 32 +
    (Utf8.encode p.from).length % 2 ^ 32 + p.payload.length % 2 ^ 32 := by
  obtain ⟨toLen, fromLen, payloadLen⟩ := p.header_cut
  rw [Header.total, toLen, fromLen, payloadLen]

/-- The bytes of a packet are at least as many as its header says. -/
theorem total_header_le (p : Packet) : p.header.total ≤ p.toBytes.length := by
  have first := Nat.mod_le (Utf8.encode p.to).length (2 ^ 32)
  have second := Nat.mod_le (Utf8.encode p.from).length (2 ^ 32)
  have third := Nat.mod_le p.payload.length (2 ^ 32)
  rw [total_header, length_toBytes]
  omega

theorem ofBytes_append (p : Packet) (rest : List UInt8) :
    Header.ofBytes (p.toBytes ++ rest) = p.header := by
  rw [toBytes, List.append_assoc, Header.ofBytes_toBytes]

/-- What decoding the bytes of a packet answers. -/
theorem answer_toBytes (limit : Nat) (p : Packet) (rest : List UInt8)
    (long : min < (p.toBytes ++ rest).length) :
    answer limit (p.toBytes ++ rest) =
      if limit < p.header.total then some (.error ())
      else (ofParts? p.header
        (Utf8.encode p.to ++ Utf8.encode p.from ++ p.payload ++ rest)).map fun packet =>
          .ok (some packet) := by
  have whole : ¬ (p.toBytes ++ rest).length < p.header.total := by
    have le := p.total_header_le
    rw [List.length_append]
    omega
  have body : (p.toBytes ++ rest).drop min =
      Utf8.encode p.to ++ Utf8.encode p.from ++ p.payload ++ rest := by
    rw [toBytes, List.append_assoc]
    exact List.drop_left' (Header.length_toBytes _)
  rw [answer, if_neg (Nat.not_le.mpr long), ofBytes_append, if_neg whole, body]

/-- Only lengths that fit lead back to the packet. -/
theorem counted_of_parts
    (parts : ofParts? p.header
      (Utf8.encode p.to ++ Utf8.encode p.from ++ p.payload ++ rest) = some p) : p.Counted := by
  have enough : p.header.rest ≤
      (Utf8.encode p.to ++ Utf8.encode p.from ++ p.payload ++ rest).length := by
    have le := p.total_header_le
    rw [Header.total_eq, length_toBytes] at le
    simp only [List.length_append]
    omega
  have size := congrArg List.length (toBytes_of_parts enough parts).2
  rw [List.length_append, Header.length_toBytes, List.length_take_of_le enough,
    ← Header.total_eq, total_header, length_toBytes] at size
  have first := Nat.mod_le (Utf8.encode p.to).length (2 ^ 32)
  have second := Nat.mod_le (Utf8.encode p.from).length (2 ^ 32)
  have third := Nat.mod_le p.payload.length (2 ^ 32)
  have pos : 0 < 2 ^ 32 := by decide
  refine ⟨?_, ?_, ?_⟩ <;> rw [← Nat.mod_eq_iff_lt pos.ne'] <;> omega

/-- **Encodings are not taken for other packets.** Decoding the bytes of a packet, whatever
follows them, gives the packet, nothing yet or an error, exactly when its lengths fit or the
limit refuses what they are cut to. -/
theorem decodes_itself_iff (holds : view stream = ⟨[], p.toBytes ++ rest⟩) (limit : Nat) :
    ((fromBytes stream limit).map Prod.fst = some (.ok (some p)) ∨
      (fromBytes stream limit).map Prod.fst = some (.ok none) ∨
      (fromBytes stream limit).map Prod.fst = some (.error ())) ↔
    limit < p.header.total ∨ p.Counted := by
  rw [fromBytes_answer holds]
  by_cases long : min < (p.toBytes ++ rest).length
  · rw [answer_toBytes limit p rest long]
    split
    case isTrue large => simp [large]
    case isFalse fits =>
      constructor
      · intro answers
        obtain ⟨q, parts, same⟩ | none | refused := answers.imp_left Option.map_eq_some_iff.mp
        · cases same
          exact .inr (counted_of_parts parts)
        · obtain ⟨q, _, other⟩ := Option.map_eq_some_iff.mp none
          cases other
        · obtain ⟨q, _, other⟩ := Option.map_eq_some_iff.mp refused
          cases other
      · intro met
        rw [ofParts?_toBytes (met.resolve_left fits)]
        exact .inl rfl
  · have short : (p.toBytes ++ rest).length ≤ min := Nat.not_lt.mp long
    have waits : answer limit (p.toBytes ++ rest) = some (.ok none) := if_pos short
    have counted : p.Counted := by
      apply counted_of_length
      rw [List.length_append] at short
      have small : min < 2 ^ 32 := by decide
      omega
    simp [waits, counted]

end Lawful

theorem decodes_itself_iff_hello :
    (fromBytes (Buffer.full (hello.toBytes ++ [5])) packetSizeLimit).map Prod.fst =
        some (.ok (some hello)) ∨
      (fromBytes (Buffer.full (hello.toBytes ++ [5])) packetSizeLimit).map Prod.fst =
        some (.ok none) ∨
      (fromBytes (Buffer.full (hello.toBytes ++ [5])) packetSizeLimit).map Prod.fst =
        some (.error ()) :=
  (decodes_itself_iff rfl packetSizeLimit).mpr (.inr (counted_of_length (by decide)))

/-- The length of the payload does not fit into its field. -/
def huge : Packet := ⟨"a", "b", List.replicate (2 ^ 32) 0, 9⟩

/-- The payload is taken for what follows an empty one. -/
theorem huge_decodes_empty :
    (fromBytes (Buffer.full huge.toBytes) packetSizeLimit).map Prod.fst =
      some (.ok (some { huge with payload := [] })) := by
  have size : huge.payload.length = 2 ^ 32 := List.length_replicate
  have first : (Utf8.encode huge.to).length = 1 := by decide
  have second : (Utf8.encode huge.from).length = 1 := by decide
  have long : min < (huge.toBytes ++ []).length := by
    rw [List.append_nil, length_toBytes, size]
    omega
  have holds : view (Buffer.full huge.toBytes) = ⟨[], huge.toBytes ++ []⟩ := by
    rw [List.append_nil]
    rfl
  rw [fromBytes_answer holds, answer_toBytes _ _ _ long, total_header, first, second, size,
    if_neg (by decide), ofParts?_cut (by rw [first]; decide) (by rw [second]; decide), size]
  rfl

end Packet

/-! ## The limit -/

namespace Client

variable {σ α : Type} [ByteStream σ] [SocketAddr α] {client : Client σ} {id : Nat}
variable {bytes : List UInt8} {stored : Nat}

variable [LawfulByteStream σ] {stream : σ} {rest : List UInt8}

/-- **The limit and the sender.** A packet that the client puts on a connection with a payload
of at most 4096 bytes is not refused by the server exactly when the header, the names and the
payload together are within the limit. -/
theorem within_limit_iff {me : Tag} {answers : ClientAnswers} {envelope : Envelope}
    {payload : List UInt8} (message : envelope.message = .bytes payload)
    (mem : Traffic.put id bytes stored ∈ (client.receive α me answers envelope).2.1)
    (small : payload.length ≤ 4096) (holds : view stream = ⟨[], bytes ++ rest⟩) :
    ∃ tag host, splitAddress envelope.to = some (tag, host) ∧
      ((Packet.fromBytes stream packetSizeLimit).map Prod.fst ≠ some (.error ()) ↔
        Packet.min + (Utf8.encode tag).length % 2 ^ 32 +
          (Utf8.encode envelope.from).length % 2 ^ 32 + payload.length ≤ packetSizeLimit) := by
  obtain ⟨payload', tag, host, message', split, rfl, _⟩ := receive_put mem
  obtain rfl := Message.bytes.inj (message.symm.trans message')
  refine ⟨tag, host, split, ?_⟩
  let packet : Packet := ⟨tag, envelope.from, payload, client.responsePort⟩
  have total := packet.total_header
  rw [Nat.mod_eq_of_lt (show packet.payload.length < 2 ^ 32 from by
    show payload.length < 2 ^ 32
    omega)] at total
  rw [Packet.fromBytes_answer holds]
  show Packet.answer packetSizeLimit (packet.toBytes ++ rest) ≠ _ ↔
    Packet.min + (Utf8.encode packet.to).length % 2 ^ 32 +
      (Utf8.encode packet.from).length % 2 ^ 32 + packet.payload.length ≤ packetSizeLimit
  rw [← total]
  by_cases long : Packet.min < (packet.toBytes ++ rest).length
  · rw [Packet.answer_toBytes _ packet rest long]
    split
    case isTrue large => simp [large]
    case isFalse fits =>
      cases Packet.ofParts? packet.header _ <;> simp [Nat.not_lt.mp fits]
  · have le := packet.total_header_le
    have within : packet.header.total ≤ packetSizeLimit := by
      rw [List.length_append] at long
      have room : Packet.min ≤ packetSizeLimit := by decide
      omega
    rw [Packet.answer, if_pos (Nat.not_lt.mp long)]
    simp [within]

/-- A payload for `"a"` at the loopback address. -/
def parcel (payload : List UInt8) : Envelope :=
  ((Envelope.of (.bytes payload)).withTo "a@127.0.0.1:80").withFrom "b"

/-- A new client has the packet in the buffer of a new connection, when it fits. -/
theorem parcel_put (payload : List UInt8) (size : Nat)
    (fits : (Packet.toBytes ⟨"a", "b", payload, 9⟩).length ≤ size) :
    ∃ calls id next conn, (new 9 64 size : Client Buffer).receive Loopback clientTag
        ⟨none, some true⟩ (parcel payload) = (calls,
          [.put id (Packet.toBytes ⟨"a", "b", payload, 9⟩)
            (Packet.toBytes ⟨"a", "b", payload, 9⟩).length], some next) ∧
      next.connections id = some conn ∧
      (view conn.sendBuf).ahead = Packet.toBytes ⟨"a", "b", payload, 9⟩ := by
  have routed : (parcel payload).to = "a" ++ "@" ++ text (⟨80⟩ : Loopback) := by
    show "a@127.0.0.1:80" = "a" ++ "@" ++ text (⟨80⟩ : Loopback)
    decide
  obtain ⟨id, stored, next, result, puts⟩ := @Client.puts_packet Buffer Loopback _ _ _ _ _
    (new 9 64 size) (tables_new 9 64 size) "a" ⟨80⟩ (by decide) payload (parcel payload) rfl routed
    ⟨none, some true⟩ (.inr rfl) clientTag
  obtain rfl := puts.stored fits
  obtain ⟨conn, known, behind⟩ := puts.conn
  rw [List.take_length] at behind
  exact ⟨_, id, next, conn, result, known, behind⟩

theorem within_limit_iff_parcel :
    ∃ id bytes stored, Traffic.put id bytes stored ∈
        ((new 9 64 64 : Client Buffer).receive Loopback clientTag ⟨none, some true⟩
          (parcel [1, 2])).2.1 ∧
      (Packet.fromBytes (Buffer.full (bytes ++ [5])) packetSizeLimit).map Prod.fst ≠
        some (.error ()) := by
  obtain ⟨calls, id, next, conn, result, _⟩ := parcel_put [1, 2] 64 (by decide)
  have mem : Traffic.put id (Packet.toBytes ⟨"a", "b", [1, 2], 9⟩) 18 ∈
      ((new 9 64 64 : Client Buffer).receive Loopback clientTag ⟨none, some true⟩
        (parcel [1, 2])).2.1 := by
    rw [result]
    exact List.mem_singleton_self _
  have holds : view (Buffer.full (Packet.toBytes ⟨"a", "b", [1, 2], 9⟩ ++ [5])) =
    ⟨[], Packet.toBytes ⟨"a", "b", [1, 2], 9⟩ ++ [5]⟩ := rfl
  obtain ⟨tag, host, split, iff⟩ :=
    within_limit_iff (show (parcel [1, 2]).message = .bytes [1, 2] from rfl) mem (by decide) holds
  have known : splitAddress (parcel [1, 2]).to = some ("a", "127.0.0.1:80") := by decide
  rw [known] at split
  cases split
  exact ⟨id, _, _, mem, iff.mpr (by decide)⟩

/-- The payload is as long as the limit was meant for. The send buffer has room for the packet, and
the server refuses it. -/
theorem parcel_refused :
    ∃ calls id next conn bytes, (new 9 64 8192 : Client Buffer).receive Loopback clientTag
        ⟨none, some true⟩ (parcel (List.replicate 4096 0)) =
          (calls, [.put id bytes bytes.length], some next) ∧
      next.connections id = some conn ∧ (view conn.sendBuf).ahead = bytes ∧
      (Packet.fromBytes (Buffer.full bytes) packetSizeLimit).map Prod.fst =
        some (.error ()) := by
  let packet : Packet := ⟨"a", "b", List.replicate 4096 0, 9⟩
  have size : packet.payload.length = 4096 := List.length_replicate
  have fits : packet.toBytes.length ≤ 8192 := by
    rw [Packet.length_toBytes, size]
    decide
  obtain ⟨calls, id, next, conn, result, known, behind⟩ := parcel_put _ 8192 fits
  refine ⟨calls, id, next, conn, packet.toBytes, result, known, behind, ?_⟩
  have long : Packet.min < (packet.toBytes ++ []).length := by
    rw [List.append_nil, Packet.length_toBytes, size]
    omega
  have large : packetSizeLimit < packet.header.total := by
    rw [Packet.total_header, size]
    decide
  have holds : view (Buffer.full packet.toBytes) = ⟨[], packet.toBytes ++ []⟩ := by
    rw [List.append_nil]
    rfl
  rw [Packet.fromBytes_answer holds, Packet.answer_toBytes _ _ _ long, if_pos large]

end Client
end Uppercut
