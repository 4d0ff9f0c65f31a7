import Uppercut.Remote.Outbox
import Uppercut.Remote.Reassembly

/-!
# Delivery to another host and back

An envelope to a tag at a host goes to the client, which makes a packet of it. The server at
the host sends the payload on to the tag, with a reply address made of the packet's
sender and port and of the peer's address. A reply to that address takes the same way back.
-/

namespace Uppercut

open ByteStream LawfulByteStream BoundedByteStream SocketAddr

section Client

variable {σ α : Type} [ByteStream σ] [LawfulByteStream σ] [BoundedByteStream σ]

/-- What waits to be sent to a host. -/
def Client.waits (host : String) (client : Client σ) : List UInt8 :=
  match (client.destinations host).bind client.connections with
  | some conn => (view conn.sendBuf).ahead
  | none => []

/-- A packet is put on the connection to its host, behind what waits there. -/
structure Client.Puts (host : String) (packet : Packet) (client next : Client σ) (id stored : Nat) :
    Prop where
  found : next.destinations host = some id
  conn : ∃ conn, next.connections id = some conn ∧
    (view conn.sendBuf).ahead = client.waits host ++ packet.toBytes.take stored
  stored : packet.toBytes.length ≤ client.room host → stored = packet.toBytes.length

theorem Client.sent_puts {client : Client σ} (tables : client.Tables) {host : String}
    (known : client.has host = true) (packet : Packet) : ∃ id stored next,
      client.sent host packet = ([.log (logText "sent:" host packet)],
        [.put id packet.toBytes stored], some next) ∧ client.Puts host packet next id stored := by
  have placed := (@Tables.put _ client client _ tables host packet.toBytes).1.mpr known
  obtain ⟨⟨id, stored, next⟩, placed⟩ := Option.isSome_iff_exists.mp placed
  refine ⟨id, stored, next, by rw [Client.sent, placed], ?_⟩
  obtain ⟨found, conn, here, rfl, rfl⟩ := put_eq_some.mp placed
  refine ⟨found, ⟨_, Table.insert_self .., ?_⟩, ?_⟩
  · rw [view_put, waits, found, Option.bind_some, here]
    rfl
  · intro fits
    rw [room, found, Option.bind_some, here] at fits
    exact (put_fits conn.sendBuf _ fits).1

variable [SocketAddr α] [LawfulSocketAddr α]

/-- The client puts the packet on the connection to the host, once it is connected. -/
theorem Client.puts_packet {client : Client σ} (tables : client.Tables) {tag : String} {host : α}
    (plain : '@' ∉ tag.toList) {payload : List UInt8} {envelope : Envelope}
    (bytes : envelope.message = .bytes payload) (routed : envelope.to = tag ++ "@" ++ text host)
    {answers : ClientAnswers}
    (reaches : client.has (text host) = true ∨ answers.connected = some true) (me : Tag) :
    ∃ id stored next, client.receive α me answers envelope =
        ([.log (logText "sent:" (text host) ⟨tag, envelope.from, payload, client.responsePort⟩)],
          [.put id (Packet.toBytes ⟨tag, envelope.from, payload, client.responsePort⟩) stored],
          some next) ∧
      client.Puts (text host) ⟨tag, envelope.from, payload, client.responsePort⟩ next id
        stored := by
  have split : splitAddress envelope.to = some (tag, text host) := by
    rw [routed]
    exact splitAddress_at plain (LawfulSocketAddr.text_plain host)
  unfold Client.receive
  simp only [bytes, split]
  by_cases known : client.has (text host) = true
  · simp only [known, if_true]
    exact sent_puts tables known _
  · have absent : client.destinations (text host) = none := by simpa [has] using known
    have joins : client.connect α (text host) answers.connected =
        some (.ok (client.counter + 1), client.joined (text host)) := by
      rw [reaches.resolve_left known]
      simp [connect, LawfulSocketAddr.parse_text, joined]
    rw [Bool.not_eq_true] at known
    simp only [known, Bool.false_eq_true, if_false, joins]
    -- The new connection is empty.
    have now : (client.joined (text host)).has (text host) = true := by simp [has, joined]
    obtain ⟨id, stored, next, sent, puts⟩ := sent_puts (tables.joined absent) now
      ⟨tag, envelope.from, payload, client.responsePort⟩
    refine ⟨id, stored, next, sent, puts.found, ?_, ?_⟩
    · have waits : (client.joined (text host)).waits (text host) = client.waits (text host) := by
        simp [Client.waits, joined, absent, Connection.connected, view_withCapacity]
      exact waits ▸ puts.conn
    · exact (room_joined absent now).2 ▸ puts.stored

end Client

section Connection

variable {σ α : Type} [SocketAddr α]

variable [ByteStream σ] {conn : Connection σ} {socket : Socket α} {packet : Packet} {peer : α}

end Connection

section Delivery

variable {σ α : Type} [ByteStream σ] [LawfulByteStream σ] [BoundedByteStream σ]
variable [SocketAddr α] [LawfulSocketAddr α]

end Delivery

end Uppercut
