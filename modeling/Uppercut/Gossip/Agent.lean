import Uppercut.Gossip.Message
import Uppercut.Machine.Network

/-!
# The agents of the gossip example

An agent counts its beats, remembers the beats that it heard of its peers and when, and gossips
about one of them and itself. A peer that it has heard nothing new of for too long is reported
once. Numbers are added modulo 2^64, as in a release build.
-/

namespace Uppercut.Gossip

structure Peer where
  tag : String
  beat : UInt64
  seen : UInt64
  deriving DecidableEq

/-- The set `down` has no order; it is a list without duplicates here. The address of the
countdown is left out, with the letter that goes there at the stop. -/
structure Agent where
  tag : String
  beat : UInt64
  peers : List Peer
  down : List String
  horizon : UInt64
  period : UInt64
  tick : UInt64
  deriving DecidableEq

inductive Event where
  | new (tag : String)
  | out (tag : String)
  deriving DecidableEq

namespace Agent

def default : Agent := ⟨"", 0, [], [], 0, 0, 0⟩

/-- The own beat, and that of a peer when there are two that were heard of in time. -/
def gossip (agent : Agent) (time : UInt64) : List (String × UInt64) :=
  let peers := (agent.peers.filter fun peer => peer.seen + agent.horizon ≥ time).map fun peer =>
    (peer.tag, peer.beat)
  if few : peers.length < 2 then [(agent.tag, agent.beat)]
  else [peers.get ⟨agent.beat.toNat % peers.length, Nat.mod_lt _ (by omega)⟩,
    (agent.tag, agent.beat)]

/-- The loop of `detect`. -/
def detectLoop (time horizon : UInt64) : List Peer → List String → List String × List Event
  | [], down => (down, [])
  | peer :: peers, down =>
      if peer.seen + horizon < time ∧ peer.tag ∉ down then
        let (down, events) := detectLoop time horizon peers (down ++ [peer.tag])
        (down, .out peer.tag :: events)
      else detectLoop time horizon peers down

def detect (agent : Agent) (time : UInt64) : Agent × List Event :=
  let (down, events) := detectLoop time agent.horizon agent.peers agent.down
  ({ agent with down := down }, events)

/-- The peer with the tag learns of the beat, when there is one. -/
def hear (time : UInt64) (tag : String) (beat : UInt64) : List Peer → Option (List Peer)
  | [] => none
  | peer :: peers =>
      if peer.tag = tag then
        some ((if beat > peer.beat then { peer with beat := beat, seen := time } else peer) ::
          peers)
      else (hear time tag beat peers).map (peer :: ·)

/-- The loop of `accept`. -/
def acceptLoop (time : UInt64) (own : String) :
    List (String × UInt64) → List Peer → List Peer × List Event
  | [], peers => (peers, [])
  | (tag, beat) :: pairs, peers =>
      if tag = own then acceptLoop time own pairs peers
      else
        match hear time tag beat peers with
        | some peers => acceptLoop time own pairs peers
        | none =>
            let (peers, events) := acceptLoop time own pairs (peers ++ [⟨tag, beat, time⟩])
            (peers, .new tag :: events)

def accept (agent : Agent) (time : UInt64) (pairs : List (String × UInt64)) :
    Agent × List Event :=
  let (peers, events) := acceptLoop time agent.tag pairs agent.peers
  let (agent, outs) := { agent with peers := peers }.detect time
  (agent, events ++ outs)

/-- `receive` for a message that came as bytes. `me` is the own tag of the actor. `none` is the
`Stop`, which stops the actor. -/
def handle (me : String) (time : UInt64) («from» : String) (agent : Agent) :
    Message → Option (Agent × List (String × Message) × List Event)
  | .gossip pairs =>
      let (agent, events) := agent.accept time pairs
      some (agent, [], events)
  | .ping target beat =>
      let agent := { agent with tag := target }
      if me ≠ «from» ∧ ¬ agent.peers.any (·.tag = me) then
        let pong := Message.pong «from» agent.beat
        let (agent, events) := agent.accept time [(«from», beat)]
        some (agent, [(«from», pong)], events)
      else some (agent, [], [])
  | .pong target beat =>
      let agent := { agent with tag := target }
      if me ≠ «from» ∧ ¬ agent.peers.any (·.tag = me) then
        let (agent, events) := agent.accept time [(«from», beat)]
        some (agent, [], events)
      else some (agent, [], [])
  | .stop => none
  | .tick | .init .. => some (agent, [], [])

/-- `receive` for `Message::Tick`. The next tick, which the agent sends itself with a delay, is
left out: a tick may come at any time. -/
def onTick (time : UInt64) (agent : Agent) : Agent × List (String × Message) × List Event :=
  let agent := { agent with beat := agent.beat + 1 }
  if agent.beat % agent.period = 0 then
    let (agent, events) := agent.detect time
    let pairs := agent.gossip time
    (agent, agent.peers.map fun peer => (peer.tag, .gossip pairs), events)
  else (agent, [], [])

/-- `receive` for `Message::Init`, without the first tick. -/
def onInit (horizon tick period : UInt64) (pings : List String) (agent : Agent) :
    Agent × List (String × Message) :=
  let agent := { agent with horizon := horizon, tick := tick, period := period }
  (agent, pings.map fun tag => (tag, .ping tag agent.beat))

/-- A call of `receive`. -/
inductive Turn where
  | bytes (buf : List UInt8) («from» : String) (time : UInt64)
  | tick (time : UInt64)
  | init (horizon tick period : UInt64) (pings : List String)
  deriving DecidableEq

/-- The agent afterwards, what it sends and what it reports. There is none after a panic or a
stop. -/
def receive (me : String) (agent : Agent) :
    Turn → Option Agent × List (String × Message) × List Event
  | .bytes buf «from» time =>
      match (Message.fromBytes buf).bind (agent.handle me time «from») with
      | none => (none, [], [])
      | some (agent, out, events) => (some agent, out, events)
  | .tick time =>
      let (agent, out, events) := agent.onTick time
      (some agent, out, events)
  | .init horizon tick period pings =>
      let (agent, out) := agent.onInit horizon tick period pings
      (some agent, out, [])

/-- An agent from its creation on, with its reports as its history. -/
def machine (me : String) : Machine (Option Agent) Turn Event where
  start := some .default
  step agent turn := agent.map fun agent =>
    let (agent, _, events) := agent.receive me turn
    (agent, events)

end Agent

/-- The agents at their addresses. The own tag of an actor is not its address. -/
def protocol (me : String → String) :
    Protocol String (Option Agent) (List UInt8) Agent.Turn UInt64 where
  start := some .default
  input node
    | none, _ => (none, [])
    | some agent, turn =>
        let (agent, out, _) := agent.receive (me node) turn
        (agent, out.map fun (tag, message) => (tag, message.toBytes))
  handle node
    | none, _, _, _ => none
    | some agent, time, «from», buf =>
        let (agent, out, _) := agent.receive (me node) (.bytes buf «from» time)
        some (agent, out.map fun (tag, message) => (tag, message.toBytes))

end Uppercut.Gossip
