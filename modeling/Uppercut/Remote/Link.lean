import Uppercut.Machine.Run
import Uppercut.Remote.Reassembly

/-!
# A connection of the server and its socket

Bytes from the peer arrive in the socket and raise a readiness event, once. The server polls
the event and tells the connection actor with a `Work` message, which the actor handles
later. A read takes what is there, up to 1024 bytes, and fails when nothing is there.
-/

namespace Uppercut

open ByteStream LawfulByteStream SocketAddr

/-- The flags of a readiness event. -/
structure Ready where
  isReadable : Bool
  isWritable : Bool
  deriving DecidableEq

/-- What the server tells the connection about an event. -/
def Ready.work (ready : Ready) : Envelope := .of (.work ready.isReadable ready.isWritable)

/-- An event may be merged with one that was not polled yet. -/
def Ready.raise (ready : Ready) (merges : Bool) : List Ready → List Ready
  | [] => [ready]
  | waiting :: rest =>
      if merges then
        ⟨waiting.isReadable || ready.isReadable, waiting.isWritable || ready.isWritable⟩ :: rest
      else waiting :: ready.raise merges rest

/-- Merging events keeps what they announce. -/
theorem Ready.raise_isReadable (ready : Ready) (merges : Bool) (events : List Ready) :
    (∃ event ∈ ready.raise merges events, event.isReadable = true) ↔
      ready.isReadable = true ∨ ∃ event ∈ events, event.isReadable = true := by
  induction events with
  | nil => simp [raise]
  | cons waiting events ih =>
      rw [raise]
      split
      · simp only [List.exists_mem_cons_iff, Bool.or_eq_true]
        tauto
      · simp only [List.exists_mem_cons_iff, ih]
        tauto

inductive Peer where
  | alive
  | closed
  | reset
  deriving DecidableEq

/-- The socket with the bytes that were not read, the events that were not polled, the `Work`
messages in the mailbox or on their way to it, and the connection, unless it panicked. -/
structure Link (σ : Type) where
  peer : Peer
  unread : List UInt8
  pending : List Ready
  mailbox : List Ready
  connection : Option (Connection σ)
  deriving DecidableEq

inductive LinkLabel where
  | arrive (bytes : List UInt8) (merges : Bool)
  | hangUp (reset merges : Bool)
  /-- There is room to write. -/
  | room (merges : Bool)
  | poll
  /-- The connection handles a message. The flags say whether the calls of `peer_addr` and of
  `write_all` succeed. -/
  | handle (answers writeAll : Bool)
  deriving DecidableEq

inductive LinkObs where
  | arrived (bytes : List UInt8)
  /-- The connection read bytes and put them into its buffer. -/
  | took (bytes : List UInt8)
  | called (call : Call)
  deriving DecidableEq

/-- The server sends one message for each event of a socket. -/
theorem Server.handle_socket (me : Tag) (id : Nat) (ready : Ready) (rest : List Polled)
    (server : Server) :
    handle me (.socket id ready.isReadable ready.isWritable :: rest) server =
      (.send (tag me id) ready.work :: (handle me rest server).1, (handle me rest server).2) :=
  rfl

namespace Link

variable {σ α : Type} [ByteStream σ] [SocketAddr α]

def accepted (recvBufferSize sendBufferSize : Nat) : Link σ where
  peer := .alive
  unread := []
  pending := []
  mailbox := []
  connection := some (.accepted recvBufferSize sendBufferSize)

/-- What a read returns. -/
def read (link : Link σ) : Option (List UInt8) :=
  if link.unread = [] then
    match link.peer with
    | .closed => some []
    | .alive | .reset => none
  else some (link.unread.take 1024)

def socket (link : Link σ) (host : α) (answers writeAll : Bool) : Socket α where
  read := link.read
  peerAddr _ := if answers then some host else none
  writeAll := writeAll

def step (me : Tag) (host : α) (link : Link σ) : LinkLabel → Option (Link σ × List LinkObs)
  | .arrive bytes merges =>
      if bytes ≠ [] ∧ link.peer = .alive then
        some ({ link with
          unread := link.unread ++ bytes
          pending := Ready.raise ⟨true, false⟩ merges link.pending }, [.arrived bytes])
      else none
  | .hangUp reset merges =>
      if link.peer = .alive then
        some ({ link with
          peer := if reset then .reset else .closed
          unread := if reset then [] else link.unread
          pending := Ready.raise ⟨true, true⟩ merges link.pending }, [])
      else none
  | .room merges =>
      some ({ link with pending := Ready.raise ⟨false, true⟩ merges link.pending }, [])
  | .poll =>
      match link.pending with
      | [] => none
      | ready :: rest =>
          some ({ link with pending := rest, mailbox := link.mailbox ++ [ready] }, [])
  | .handle answers writeAll =>
      match link.mailbox, link.connection with
      | ready :: rest, some connection =>
          let (calls, connection) :=
            connection.receive me (link.socket host answers writeAll) ready.work
          let unread := if ready.isReadable then link.unread.drop 1024 else link.unread
          let took := if ready.isReadable then link.unread.take 1024 else []
          some ({ link with unread := unread, mailbox := rest, connection := connection },
            .took took :: calls.map .called)
      | _, _ => none

def machine (me : Tag) (host : α) (recvBufferSize sendBufferSize : Nat) :
    Machine (Link σ) LinkLabel LinkObs where
  start := accepted recvBufferSize sendBufferSize
  step := step me host

end Link

/-- The bytes that arrived. -/
def LinkObs.arrives : LinkObs → List UInt8
  | .arrived bytes => bytes
  | _ => []

/-- The bytes that were read. -/
def LinkObs.takes : LinkObs → List UInt8
  | .took bytes => bytes
  | _ => []

theorem LinkObs.takes_handled (bytes : List UInt8) (calls : List Call) :
    (LinkObs.took bytes :: calls.map .called).flatMap takes = bytes := by
  simp [takes, List.flatMap_map]

theorem LinkObs.arrives_handled (bytes : List UInt8) (calls : List Call) :
    (LinkObs.took bytes :: calls.map .called).flatMap arrives = [] := by
  simp [arrives, List.flatMap_map]

/-- The connection has handled a message. -/
def LinkObs.handles : LinkObs → Bool
  | .took _ => true
  | _ => false

theorem LinkObs.handles_handled (bytes : List UInt8) (calls : List Call) :
    (LinkObs.took bytes :: calls.map .called).countP handles = 1 := by
  rw [List.countP_cons_of_pos rfl, List.countP_map]
  exact congrArg (· + 1) (List.countP_eq_zero.mpr fun _ _ => Bool.false_ne_true)

def LinkObs.calls : LinkObs → List Call
  | .called call => [call]
  | _ => []

/-- The envelopes that a connection sends on. -/
def sentOn (h : List LinkObs) : List Call := (h.flatMap LinkObs.calls).filter Call.sends

@[simp] theorem sentOn_append (h k : List LinkObs) : sentOn (h ++ k) = sentOn h ++ sentOn k := by
  rw [sentOn, List.flatMap_append, List.filter_append, ← sentOn, ← sentOn]

theorem sentOn_handled (bytes : List UInt8) (calls : List Call) :
    sentOn (.took bytes :: calls.map .called) = calls.filter Call.sends := by
  simp [sentOn, LinkObs.calls, List.flatMap_map]

end Uppercut
