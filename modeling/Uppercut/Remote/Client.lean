import Uppercut.Data.Table
import Uppercut.Machine.Run
import Uppercut.Remote.Address
import Uppercut.Remote.Packet

/-!
# The client

The client keeps one connection for each host that it sends to: `connections` has them by
id, `destinations` has the ids by address. Bytes are put on a connection when they are sent, where
they are dropped when they do not fit, and go out when the connection is polled. What the sockets
answer is an argument of `receive`; `registry` stands for the sockets that are open and registered
with the poll.
A panic has no next state.
-/

namespace Uppercut

open ByteStream SocketAddr

/-- What one connection takes in and gives out. -/
inductive Traffic where
  /-- The bytes were put on the connection, and its buffer stored some number of them. -/
  | put (id : Nat) (bytes : List UInt8) (stored : Nat)
  /-- The socket accepted the bytes. -/
  | wrote (id : Nat) (bytes : List UInt8)
  deriving DecidableEq

/-- A polled event and what the socket answers then: to each read (an empty list is the end of
the stream, and the reads that are not listed would block), to `write_all`, which may take
some bytes and fail, and to `reregister`. -/
structure ClientEvent where
  token : Nat
  isReadable : Bool
  isWritable : Bool
  isReadClosed : Bool
  isWriteClosed : Bool
  reads : List (Option (List UInt8))
  failsAfter : Option Nat
  reregisters : Bool
  deriving DecidableEq

/-- What a call of `receive` finds: the polled events, unless `poll` fails, and whether a
socket can be connected and then registered. -/
structure ClientAnswers where
  polled : Option (List ClientEvent)
  connected : Option Bool
  deriving DecidableEq

namespace Client

/-- The socket is always there. It is represented by the token it was registered with. -/
structure Connection (σ : Type) where
  target : String
  socket : Nat
  isOpen : Bool
  nodelaySet : Bool
  recvBuf : σ
  sendBuf : σ
  deriving DecidableEq

namespace Connection

variable {σ : Type} [ByteStream σ]

def connected (target : String) (socket recvBufferSize sendBufferSize : Nat) : Connection σ where
  target := target
  socket := socket
  isOpen := true
  nodelaySet := false
  recvBuf := withCapacity recvBufferSize
  sendBuf := withCapacity sendBufferSize

/-- The bytes that the socket accepts, and what is left. -/
def send (failsAfter : Option Nat) (conn : Connection σ) : List UInt8 × Connection σ :=
  let bytes := asRef conn.sendBuf
  match failsAfter with
  | some k =>
      if k < bytes.length then (bytes.take k, { conn with isOpen := false })
      else (bytes, { conn with sendBuf := clear conn.sendBuf })
  | none => (bytes, { conn with sendBuf := clear conn.sendBuf })

/-- Read while there is room, and count the bytes. -/
def recv : List (Option (List UInt8)) → Connection σ → Nat × Connection σ
  | [], conn => (0, conn)
  | answer :: answers, conn =>
      if 1024 ≤ cap conn.recvBuf then
        match answer with
        | some [] | none => (0, { conn with isOpen := false })
        | some bytes =>
            let (received, conn) := recv answers { conn with recvBuf := (put conn.recvBuf bytes).2 }
            (bytes.length + received, conn)
      else (0, conn)

/-- The first `if` of the loop in `poll`. -/
def readable (event : ClientEvent) (conn : Connection σ) : Connection σ :=
  if event.isReadable then { (conn.recv event.reads).2 with isOpen := !event.isReadClosed }
  else conn

/-- The second `if` of the loop in `poll`. -/
def writable (event : ClientEvent) (conn : Connection σ) : List UInt8 × Connection σ :=
  if event.isWritable then
    let (bytes, conn) := ({ conn with nodelaySet := true } : Connection σ).send event.failsAfter
    (bytes, { conn with sendBuf := pull conn.sendBuf, isOpen := !event.isWriteClosed })
  else ([], conn)

end Connection
end Client

/-- `counter` is a `usize`. It is the source's as long as there were fewer than 2^64 connects. -/
structure Client (σ : Type) where
  recvBufferSize : Nat
  sendBufferSize : Nat
  registry : List Nat
  counter : Nat
  connections : Table Nat (Client.Connection σ)
  destinations : Table String Nat
  responsePort : UInt16

namespace Client

variable {σ : Type} [ByteStream σ]

def new (responsePort : UInt16) (recvBufferSize sendBufferSize : Nat) : Client σ where
  recvBufferSize := recvBufferSize
  sendBufferSize := sendBufferSize
  registry := []
  counter := 0
  connections := .empty
  destinations := .empty
  responsePort := responsePort

/-- One turn of the loop in `poll`. The socket of a connection that is not put back is closed. -/
def serve (event : ClientEvent) (client : Client σ) : List Traffic × Option (Client σ) :=
  match client.connections event.token with
  | none => ([], none)
  | some conn =>
      let (bytes, conn) := (conn.readable event).writable event
      let traffic := [.wrote event.token bytes]
      if conn.isOpen then
        if event.reregisters then
          (traffic, some { client with
            connections := (client.connections.remove event.token).insert event.token conn })
        else (traffic, none)
      else
        (traffic, some { client with
          registry := client.registry.erase conn.socket
          connections := client.connections.remove event.token
          destinations := client.destinations.remove conn.target })

def poll : List ClientEvent → Client σ → List Traffic × Option (Client σ)
  | [], client => ([], some client)
  | event :: events, client =>
      match client.serve event with
      | (traffic, none) => (traffic, none)
      | (traffic, some client) =>
          let (more, client) := poll events client
          (traffic ++ more, client)

def has (addr : String) (client : Client σ) : Bool := (client.destinations addr).isSome

/-- The id of the connection that takes the bytes, and how many its buffer stores. Both lookups are
unwrapped. -/
def put (addr : String) (payload : List UInt8) (client : Client σ) :
    Option (Nat × Nat × Client σ) := do
  let id ← client.destinations addr
  let conn ← client.connections id
  let (stored, sendBuf) := ByteStream.put conn.sendBuf payload
  let conn := { conn with sendBuf := sendBuf }
  return (id, stored, { client with connections := client.connections.insert id conn })

section Connect

variable (α : Type) [SocketAddr α]

/-- A registration that fails is a panic. -/
def connect (target : String) (connected : Option Bool) (client : Client σ) :
    Option (Except Unit Nat × Client σ) :=
  let id := client.counter + 1
  let client := { client with counter := id }
  match parse (α := α) target, connected with
  | none, _ | some _, none => some (.error (), client)
  | some _, some false => none
  | some addr, some true =>
      let conn := Connection.connected (text addr) id client.recvBufferSize client.sendBufferSize
      some (.ok id, { client with
        registry := id :: client.registry
        connections := client.connections.insert id conn
        destinations := client.destinations.insert (text addr) id })

/-- The two texts of a log line about a packet differ in their first words. -/
def logText (what host : String) (packet : Packet) : String :=
  what ++ " to=" ++ packet.to ++ "[@" ++ host ++ "] from=" ++ packet.from ++ " bytes=" ++
    toString packet.payload.length

def sent (host : String) (packet : Packet) (client : Client σ) :
    List Call × List Traffic × Option (Client σ) :=
  match client.put host packet.toBytes with
  | none => ([], [], none)
  -- The packet counts as sent, even when nothing of it was stored.
  | some (id, stored, client) =>
      ([.log (logText "sent:" host packet)], [.put id packet.toBytes stored], some client)

def receive (me : Tag) (answers : ClientAnswers) (client : Client σ) (envelope : Envelope) :
    List Call × List Traffic × Option (Client σ) :=
  match envelope.message with
  | .clientLoop =>
      match answers.polled with
      | none => ([], [], none)
      | some events =>
          match client.poll events with
          | (traffic, none) => ([], traffic, none)
          | (traffic, some client) => ([.send me envelope], traffic, some client)
  | .bytes payload =>
      match splitAddress envelope.to with
      | none => ([], [], none)
      | some («to», host) =>
          let packet : Packet := ⟨«to», envelope.from, payload, client.responsePort⟩
          if client.has host then client.sent host packet
          else
            match client.connect α host answers.connected with
            | none => ([], [], none)
            | some (.ok _, client) => client.sent host packet
            | some (.error _, client) =>
                ([.log (logText "Failed to send:" host packet)], [], some client)
  | _ => ([], [], some client)

/-- A call of `receive`. -/
structure Turn where
  envelope : Envelope
  answers : ClientAnswers
  deriving DecidableEq

/-- The client from its creation on. After a panic it is gone. -/
def machine (responsePort : UInt16) (recvBufferSize sendBufferSize : Nat) :
    Machine (Option (Client σ)) Turn Traffic where
  start := some (new responsePort recvBufferSize sendBufferSize)
  step client turn := client.map fun client =>
    let (_, traffic, next) := client.receive α clientTag turn.answers turn.envelope
    (next, traffic)

end Connect

/-- Each open registered socket is reported at most once, and no other socket is. -/
def Reports (client : Client σ) (events : List ClientEvent) : Prop :=
  (events.map (·.token)).Nodup ∧ ∀ event ∈ events, event.token ∈ client.registry

instance (client : Client σ) (events : List ClientEvent) : Decidable (client.Reports events) :=
  inferInstanceAs (Decidable (_ ∧ _))

/-- What the poll promises. -/
def Polls (client : Option (Client σ)) (_ : List Traffic) (turn : Turn) : Prop :=
  match client, turn.answers.polled with
  | some client, some events => turn.envelope.message = .clientLoop → client.Reports events
  | _, _ => True

instance (client : Option (Client σ)) (h : List Traffic) (turn : Turn) :
    Decidable (Polls client h turn) := by
  unfold Polls
  generalize turn.answers.polled = polled
  induction client <;> induction polled <;> infer_instance

end Client
end Uppercut
