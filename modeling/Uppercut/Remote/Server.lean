import Uppercut.Remote.Address
import Uppercut.Remote.Packet

/-!
# The server and its connections

The server polls the sockets and tells the connection actors what is ready. A connection
reads what it was told about into its buffer, where bytes that do not fit are dropped, and takes
the complete packets out. What a socket answers to the calls of one `receive` is an argument. A
panic has no next state.
-/

namespace Uppercut

open ByteStream SocketAddr

/-- 12 bytes header + max 4kb payload. -/
def packetSizeLimit : Nat := 4096 + 12

/-! ## The server -/

/-- A polled event. The listener accepts sockets until it fails; registering one may fail. -/
inductive Polled where
  | listener (registered : List Bool)
  | socket (id : Nat) (isReadable isWritable : Bool)
  deriving DecidableEq

/-- `counter` is a `usize`. It is the source's as long as fewer than 2^64 sockets were accepted. -/
structure Server where
  counter : Nat
  deriving DecidableEq

namespace Server

def new : Server := ⟨0⟩

/-- `format!("{}#{:012}", me, id)`. -/
def tag (me : Tag) (id : Nat) : Tag :=
  me ++ "#" ++ String.ofList ((Nat.toDigits 10 id).leftpad 12 '0')

/-- One turn of the `accept` loop for each socket. `none` is a failed registration. -/
def accept (me : Tag) : List Bool → Server → List Call × Option Server
  | [], server => ([], some server)
  | false :: _, _ => ([], none)
  | true :: rest, server =>
      let server : Server := ⟨server.counter + 1⟩
      let (calls, server') := accept me rest server
      (.spawn (tag me server.counter) :: calls, server')

def handle (me : Tag) : List Polled → Server → List Call × Option Server
  | [], server => ([], some server)
  | .listener registered :: rest, server =>
      match accept me registered server with
      | (calls, none) => (calls, none)
      | (calls, some server) =>
          let (calls', server) := handle me rest server
          (calls ++ calls', server)
  | .socket id isReadable isWritable :: rest, server =>
      let (calls, server) := handle me rest server
      (.send (tag me id) (.of (.work isReadable isWritable)) :: calls, server)

/-- `polled` is the batch of events, or a failed poll. -/
def receive (me : Tag) (polled : Option (List Polled)) (server : Server)
    (envelope : Envelope) : List Call × Option Server :=
  match envelope.message with
  | .serverLoop =>
      match polled with
      | none => ([], none)
      | some events =>
          match handle me events server with
          | (calls, none) => (calls, none)
          | (calls, some server) => (calls ++ [.send me (.of .serverLoop)], some server)
  | _ => ([], some server)

end Server

/-! ## Connections -/

/-- How the loop over `Packet::from_bytes` ends. `unfinished` is not in the source: it says
that the loop had more turns than its bound. -/
inductive Drained where
  | waits
  | failed
  | panicked
  | unfinished
  deriving DecidableEq

section Drain

variable {σ : Type} [ByteStream σ]

/-- The packets that the loop takes out, and what is left of the buffer. -/
def drain : Nat → σ → List Packet × σ × Drained
  | 0, recvBuf => ([], recvBuf, .unfinished)
  | turns + 1, recvBuf =>
      match Packet.fromBytes recvBuf packetSizeLimit with
      | none => ([], recvBuf, .panicked)
      | some (.error (), recvBuf) => ([], recvBuf, .failed)
      | some (.ok none, recvBuf) => ([], recvBuf, .waits)
      | some (.ok (some packet), recvBuf) =>
          let (packets, recvBuf, drained) := drain turns recvBuf
          (packet :: packets, recvBuf, drained)

/-- Each packet takes bytes, so a buffer holds fewer packets than bytes. -/
def drainAll (recvBuf : σ) : List Packet × σ × Drained := drain (len recvBuf + 1) recvBuf

end Drain

/-- What a socket answers during one `receive`: what a read returns (an empty list is the
end of the stream), the successive answers to `peer_addr`, and whether `write_all` succeeds. -/
structure Socket (α : Type) where
  read : Option (List UInt8)
  peerAddr : Nat → Option α
  writeAll : Bool

structure Connection (σ : Type) where
  isOpen : Bool
  keepAlive : Bool
  recvBuf : σ
  sendBuf : σ
  canRead : Bool
  canWrite : Bool
  deriving DecidableEq

namespace Connection

variable {σ α : Type} [ByteStream σ] [SocketAddr α]

/-- As the server spawns it. -/
def accepted (recvBufferSize sendBufferSize : Nat) : Connection σ where
  isOpen := true
  keepAlive := true
  recvBuf := withCapacity recvBufferSize
  sendBuf := withCapacity sendBufferSize
  canRead := false
  canWrite := false

/-- The source returns the new `is_open`. -/
def keepOpen (me : Tag) (conn : Connection σ) : List Call × Connection σ :=
  if !conn.isOpen then
    if !conn.keepAlive then ([], { conn with isOpen := true })
    else ([.stop me], conn)
  else ([], conn)

def read (answer : Option (List UInt8)) (conn : Connection σ) : Connection σ :=
  match answer with
  | some [] | none => { conn with isOpen := false }
  -- How many bytes were stored is not looked at.
  | some bytes => { conn with recvBuf := (put conn.recvBuf bytes).2 }

/-- The buffer behind the read, when there is one. -/
def filled (conn : Connection σ) (isReadable : Bool) (bytes : List UInt8) : σ :=
  if isReadable then (put conn.recvBuf bytes).2 else conn.recvBuf

/-- What a received packet leads to. -/
def delivered (host : α) (packet : Packet) : List Call :=
  let host := setPort host packet.port
  let «from» := packet.from ++ "@" ++ text host
  [.log ("server/rcvd: to=" ++ packet.to ++ " from=" ++ packet.from ++ " bytes=" ++
      toString packet.payload.length),
    .send packet.to (((Envelope.of (.bytes packet.payload)).withTo packet.to).withFrom «from»)]

/-- Deliver packets, the first one with the `i`-th answer to `peer_addr`, and say whether
all answers were there. -/
def deliver (socket : Socket α) : Nat → List Packet → List Call × Bool
  | _, [] => ([], true)
  | i, packet :: packets =>
      match socket.peerAddr i with
      | none => ([], false)
      | some host =>
          let (calls, answered) := deliver socket (i + 1) packets
          (delivered host packet ++ calls, answered)

def flush (writeAll : Bool) (conn : Connection σ) : Connection σ :=
  if conn.canWrite && decide (0 < len conn.sendBuf) then
    if writeAll then { conn with sendBuf := clear conn.sendBuf }
    else { conn with isOpen := false }
  else conn

/-- `receive` behind the first `keep_open`. -/
def process (me : Tag) (socket : Socket α) (conn : Connection σ) :
    List Call × Option (Connection σ) :=
  let (packets, recvBuf, drained) := drainAll conn.recvBuf
  let conn := { conn with recvBuf := recvBuf }
  let (calls, answered) := deliver socket 0 packets
  if !answered then (calls, none)
  else
    match drained with
    | .panicked | .unfinished => (calls, none)
    | .failed =>
        let conn := { conn with isOpen := false }
        let (stops, conn) := (conn.flush socket.writeAll).keepOpen me
        (calls ++ [.log "Packet parser marked connection buffer as failed"] ++ stops, some conn)
    | .waits =>
        let (stops, conn) := (conn.flush socket.writeAll).keepOpen me
        (calls ++ stops, some conn)

def receive (me : Tag) (socket : Socket α) (conn : Connection σ) (envelope : Envelope) :
    List Call × Option (Connection σ) :=
  match envelope.message with
  | .work isReadable isWritable =>
      let conn :=
        { conn with canRead := isReadable, canWrite := conn.canWrite || isWritable }
      let conn := if conn.canRead then conn.read socket.read else conn
      let (stops, conn) := conn.keepOpen me
      if !conn.isOpen then (stops, some conn)
      else
        let (calls, conn) := conn.process me socket
        (stops ++ calls, conn)
  | _ => ([], some conn)

/-! ### A connection that is kept alive -/

variable {conn next : Connection σ} {socket : Socket α} {envelope : Envelope} {me : Tag}

omit [ByteStream σ] in
/-- Only a connection that is not kept alive is opened again. -/
theorem keepOpen_alive (alive : conn.keepAlive = true) :
    conn.keepOpen me = (if conn.isOpen then [] else [.stop me], conn) := by
  unfold keepOpen
  cases conn.isOpen <;> simp [alive]

theorem read_frame (answer : Option (List UInt8)) (conn : Connection σ) :
    (conn.read answer).keepAlive = conn.keepAlive ∧
      ((conn.read answer).isOpen = true → conn.isOpen = true) := by
  unfold read
  split
  · exact ⟨rfl, nofun⟩
  · exact ⟨rfl, nofun⟩
  · exact ⟨rfl, id⟩

theorem flush_frame (writeAll : Bool) (conn : Connection σ) :
    (conn.flush writeAll).keepAlive = conn.keepAlive ∧
      ((conn.flush writeAll).isOpen = true → conn.isOpen = true) := by
  unfold flush
  split
  · split
    · exact ⟨rfl, id⟩
    · exact ⟨rfl, nofun⟩
  · exact ⟨rfl, id⟩

/-- What comes behind the first `keep_open` does not open a connection that is kept alive. -/
theorem process_kept (alive : conn.keepAlive = true)
    (result : (conn.process me socket).2 = some next) :
    next.keepAlive = true ∧ (next.isOpen = true → conn.isOpen = true) := by
  unfold process at result
  dsimp only at result
  split at result
  case isTrue => cases result
  split at result
  case h_1 | h_2 => cases result
  case h_3 =>
    obtain ⟨same, opens⟩ := flush_frame socket.writeAll
      ({ conn with recvBuf := (drainAll conn.recvBuf).2.1, isOpen := false } : Connection σ)
    rw [keepOpen_alive (same.trans alive)] at result
    cases result
    exact ⟨same.trans alive, fun opened => absurd (opens opened) Bool.false_ne_true⟩
  case h_4 =>
    obtain ⟨same, opens⟩ := flush_frame socket.writeAll
      ({ conn with recvBuf := (drainAll conn.recvBuf).2.1 } : Connection σ)
    rw [keepOpen_alive (same.trans alive)] at result
    cases result
    exact ⟨same.trans alive, opens⟩

/-- After a read a connection that is kept alive goes on exactly when it is open. -/
theorem receive_work (alive : conn.keepAlive = true) {isReadable isWritable : Bool}
    (work : envelope.message = .work isReadable isWritable) :
    ∃ heard : Connection σ, heard.keepAlive = true ∧ (heard.isOpen = true → conn.isOpen = true) ∧
      (isReadable = true → socket.read = none ∨ socket.read = some [] → heard.isOpen = false) ∧
      conn.receive me socket envelope =
        if heard.isOpen then heard.process me socket else ([.stop me], some heard) := by
  cases isReadable with
  | false =>
      let heard : Connection σ :=
        { conn with canRead := false, canWrite := conn.canWrite || isWritable }
      have kept := @keepOpen_alive σ heard me alive
      refine ⟨heard, alive, id, nofun, ?_⟩
      simp only [receive, work, Bool.false_eq_true, if_false]
      rw [kept]
      cases heard.isOpen <;> simp
  | true =>
      let told : Connection σ :=
        { conn with canRead := true, canWrite := conn.canWrite || isWritable }
      obtain ⟨same, opens⟩ := read_frame socket.read told
      have kept := @keepOpen_alive σ (told.read socket.read) me (same.trans alive)
      refine ⟨told.read socket.read, same.trans alive, opens, ?_, ?_⟩
      · rintro _ (ended | ended) <;> rw [ended] <;> rfl
      · simp only [receive, work, if_true]
        rw [kept]
        cases (told.read socket.read).isOpen <;> simp

end Connection
end Uppercut
