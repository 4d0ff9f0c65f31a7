import Uppercut.Machine.Network
import Uppercut.Paxos.Message

/-!
# The agents of the Paxos example

Each agent is a proposer for its clients, an acceptor for all proposers, and stores what was
selected. Agents send each other bytes. The promises that an agent counts may be for several
sequence numbers, and so may the accepted proposals.
-/

namespace Uppercut.Paxos

/-- The sets have no order; they are lists without duplicates here. Numbers are added modulo 2^64,
as in a release build. The own tag, which nothing but the log reads, is left out. -/
structure Agent where
  peers : List String
  clients : List String
  val : UInt64
  seq : UInt64
  seqPromised : UInt64
  seqAccepted : UInt64
  promised : List String
  accepted : List String
  storage : List (UInt64 × UInt64)
  deriving DecidableEq

namespace Agent

def default : Agent := ⟨[], [], 0, 0, 0, 0, [], [], []⟩

def quorum (agent : Agent) (n : Nat) : Bool := n > agent.peers.length / 2

/-- One message to each peer. -/
def broadcast (agent : Agent) (message : Message) : List (String × Message) :=
  agent.peers.map fun tag => (tag, message)

def handle (agent : Agent) (message : Message) («from» : String) :
    Agent × List (String × Message) :=
  match message with
  | .request val =>
      let agent := { agent with val := val, clients := agent.clients.insert «from» }
      (agent, agent.broadcast (.prepare (agent.seq + 1)))
  | .prepare seq =>
      if seq > agent.seq then
        let agent := { agent with seq := seq }
        (agent, [(«from», .promise agent.seq)])
      else (agent, [(«from», .ignored seq)])
  | .promise seq =>
      if seq > agent.seqPromised then
        let agent := { agent with promised := agent.promised.insert «from» }
        if agent.quorum agent.promised.length then
          let agent := { agent with seqPromised := seq, promised := [] }
          (agent, agent.broadcast (.accept seq agent.val))
        else (agent, [])
      else (agent, [])
  | .ignored _ => (agent, [])
  | .accept seq val =>
      if seq ≥ agent.seq then (agent, [(«from», .accepted seq val)])
      else (agent, [(«from», .rejected seq)])
  | .accepted seq val =>
      if seq > agent.seqAccepted then
        let agent := { agent with accepted := agent.accepted.insert «from» }
        if agent.quorum agent.accepted.length then
          let agent := { agent with seqAccepted := seq, accepted := [] }
          (agent, agent.broadcast (.selected seq val))
        else (agent, [])
      else (agent, [])
  | .rejected _ => (agent, [])
  | .selected seq val =>
      let agent := { agent with
        storage := agent.storage ++ [(seq, val)]
        seq := seq
        promised := [] }
      (agent, agent.clients.map fun tag => (tag, .selected seq val))
  | .empty => (agent, [])

/-- What one message leads to. -/
inductive Handles (agent : Agent) («from» : String) :
    Message → Agent → List (String × Message) → Prop where
  | asks {val} : Handles agent «from» (.request val)
      { agent with val := val, clients := agent.clients.insert «from» }
      (agent.broadcast (.prepare (agent.seq + 1)))
  | promises {seq} (newer : agent.seq < seq) : Handles agent «from» (.prepare seq)
      { agent with seq := seq } [(«from», .promise seq)]
  | ignores {seq} : Handles agent «from» (.prepare seq) agent [(«from», .ignored seq)]
  | counts {seq} : Handles agent «from» (.promise seq)
      { agent with promised := agent.promised.insert «from» } []
  | proposes {seq} (newer : agent.seqPromised < seq)
      (quorum : agent.peers.length / 2 < (agent.promised.insert «from»).length) :
      Handles agent «from» (.promise seq) { agent with seqPromised := seq, promised := [] }
        (agent.broadcast (.accept seq agent.val))
  | accepts {seq val} : Handles agent «from» (.accept seq val) agent
      [(«from», .accepted seq val)]
  | rejects {seq val} : Handles agent «from» (.accept seq val) agent [(«from», .rejected seq)]
  | tallies {seq val} : Handles agent «from» (.accepted seq val)
      { agent with accepted := agent.accepted.insert «from» } []
  | selects {seq val} (newer : agent.seqAccepted < seq)
      (quorum : agent.peers.length / 2 < (agent.accepted.insert «from»).length) :
      Handles agent «from» (.accepted seq val) { agent with seqAccepted := seq, accepted := [] }
        (agent.broadcast (.selected seq val))
  | stores {seq val} : Handles agent «from» (.selected seq val)
      { agent with storage := agent.storage ++ [(seq, val)], seq := seq, promised := [] }
      (agent.clients.map fun tag => (tag, .selected seq val))
  | rests {message} : Handles agent «from» message agent []

theorem handle_handles (agent : Agent) (message : Message) («from» : String) :
    agent.Handles «from» message (agent.handle message «from»).1
      (agent.handle message «from»).2 := by
  cases message with
  | request val => exact .asks
  | prepare seq =>
      rw [handle]
      split
      case isTrue newer => exact .promises newer
      case isFalse => exact .ignores
  | promise seq =>
      rw [handle]
      split
      case isTrue newer =>
        dsimp only
        split
        case isTrue quorum => exact .proposes newer (of_decide_eq_true quorum)
        case isFalse => exact .counts
      case isFalse => exact .rests
  | accept seq val =>
      rw [handle]
      split
      · exact .accepts
      · exact .rejects
  | accepted seq val =>
      rw [handle]
      split
      case isTrue newer =>
        dsimp only
        split
        case isTrue quorum => exact .selects newer (of_decide_eq_true quorum)
        case isFalse => exact .tallies
      case isFalse => exact .rests
  | selected seq val => exact .stores
  | ignored | rejected | empty => exact .rests

/-- The messages as they are sent. -/
def encode (out : List (String × Message)) : List (String × List UInt8) :=
  out.map fun (target, message) => (target, message.toBytes)

/-- `receive` for bytes. -/
def receive (agent : Agent) (buf : List UInt8) («from» : String) :
    Option (Agent × List (String × List UInt8)) :=
  (Message.fromBytes buf).map fun message =>
    let (agent, out) := agent.handle message «from»
    (agent, encode out)

end Agent

/-- What reaches an agent from outside. -/
inductive Input where
  /-- `Control::Init`. -/
  | init
  | request («from» : String) (val : UInt64)
  deriving DecidableEq

/-- The agents at the addresses in `peers`, and what they are asked by clients. -/
def protocol (peers : List String) :
    Protocol String Agent (List UInt8) Input Unit where
  start := .default
  input _ agent
    | .init => ({ agent with peers := peers }, [])
    | .request client val =>
        let (agent, out) := agent.handle (.request val) client
        (agent, Agent.encode out)
  handle _ agent _ «from» buf := agent.receive buf «from»

end Uppercut.Paxos
