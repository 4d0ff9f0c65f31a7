import Uppercut.Api
import Uppercut.Monitor

/-!
# Events, actions and what a run shows

Events travel from the event loop to the worker loops, actions travel the other
way and also come in from outside. Both channels are unbounded FIFO queues and
are represented by lists with the oldest element first.

`Obs` is the vocabulary of histories: each step of a worker loop, of the event
loop or of an external thread reports what it did. Observations are not part of
the running system; nothing in it reads them.
-/

namespace Uppercut

/-- Received by worker threads. -/
inductive Event where
  | mail (tag : Tag) (actor : Actor) (envelope : Envelope)
  | stop (tag : Tag) (actor : Actor)
  | shutdown
  deriving DecidableEq

/-- A delayed envelope. -/
structure Entry where
  «at» : Nat
  tag : Tag
  envelope : Envelope
  deriving DecidableEq

/-- Reverse ordering for a min-heap: the greatest entry is the earliest one. -/
def Entry.cmp (a b : Entry) : Ordering := (compare a.at b.at).swap

/-- Samples by metric name. The order of names stands for the unspecified
iteration order of the hash map. -/
abbrev Metrics := List (String × List Sample)

namespace Metrics

/-- `entry(name).or_default()` extended by `samples`. -/
def append : Metrics → String → List Sample → Metrics
  | [], name, samples => [(name, samples)]
  | (other, known) :: rest, name, samples =>
      if other = name then (other, known ++ samples) :: rest
      else (other, known) :: append rest name samples

/-- Append every entry of `map`, as the `Metrics` arm of the event loop does. -/
def merge (metrics map : Metrics) : Metrics :=
  map.foldl (fun merged entry => merged.append entry.1 entry.2) metrics

end Metrics

/-- Received by the scheduler thread. -/
inductive Action where
  | «return» (tag : Tag) (actor : Actor) (ok : Bool)
  | spawn (tag : Tag) (actor : Actor)
  | queue (tag : Tag) (envelope : Envelope)
  | delay (entry : Entry)
  | stop (tag : Tag)
  | logs (tag : Tag) (logs : List Line)
  | metrics (map : Metrics)
  | shutdown
  deriving DecidableEq

/-- The tag of an action that is about one address. Delays reach their address as
`queue` actions when they are released, and log batches only carry the tag. -/
def Action.tag? : Action → Option Tag
  | .return tag _ _ | .spawn tag _ | .queue tag _ | .stop tag => some tag
  | .delay _ | .logs _ _ | .metrics _ | .shutdown => none

/-- The tag of the address an event is about. -/
def Event.tag? : Event → Option Tag
  | .mail tag _ _ | .stop tag _ => some tag
  | .shutdown => none

def clientTag : Tag := "$CLIENT"
def serverTag : Tag := "$SERVER"

/-- Addresses with a remote part go to the client actor; the full address moves
into the envelope. -/
def adjustRemoteAddress (address : String) (envelope : Envelope) : Tag × Envelope :=
  if '@' ∈ address.toList then (clientTag, { envelope with «to» := address })
  else (address, envelope)

/-- `send` of `Local` and of `Run`: both queue the adjusted envelope. -/
def sendAction (stamp : Nat) (address : String) (envelope : Envelope) : Action :=
  let (tag, envelope) := adjustRemoteAddress address { envelope with stamp := stamp }
  .queue tag envelope

/-- `delay` of `Local` and of `Run`. -/
def delayAction (stamp now : Nat) (address : String) (envelope : Envelope)
    (duration : Nat) : Action :=
  let (tag, envelope) := adjustRemoteAddress address { envelope with stamp := stamp }
  .delay { «at» := now + duration, tag := tag, envelope := envelope }

/-- The action a call puts on the action channel. `fresh` names the envelope or the
new actor, `now` is the clock reading. Logging stays in the caller's `Local`. -/
def Call.action (fresh now : Nat) : Call → Option Action
  | .send address envelope => some (sendAction fresh address envelope)
  | .spawn address => some (.spawn address ⟨fresh⟩)
  | .delay address envelope duration => some (delayAction fresh now address envelope duration)
  | .stop address => some (.stop address)
  | .log _ | .metric _ _ => none

/-- Who calls: a thread that holds the `Run` handle, or an actor in a callback. -/
inductive Sender where
  | thread (id : Nat)
  | actor (actor : Actor)
  deriving DecidableEq

/-- What the event loop hands to the background threads for printing. -/
inductive Report where
  | metrics (scheduler : SchedulerMetrics) (entries : List MetricEntry)
  | logs (entries : List LoggerEntry)
  deriving DecidableEq

/-- What a run shows. -/
inductive Obs where
  /-- A caller put an action on the action channel, or found it disconnected. -/
  | sent (sender : Sender) (action : Action)
  | unsent (action : Action)
  /-- A callback recorded a log line or a metric sample in the worker's `Local`. -/
  | logged (worker : Nat) (tag : Tag) (actor : Actor) (line : Line)
  | measured (worker : Nat) (tag : Tag) (actor : Actor) (name : String) (sample : Sample)
  /-- A worker received an event, entered or left a callback, sent the actor back,
  flushed its `Local`, or came back to the head of its loop. -/
  | taken (worker : Nat) (event : Event)
  | called (worker : Nat) (tag : Tag) (actor : Actor) (callback : Callback)
  | ended (worker : Nat) (tag : Tag) (actor : Actor) (callback : Callback) (ok : Bool)
  | returned (worker : Nat) (tag : Tag) (actor : Actor) (ok : Bool)
  | flushed (worker : Nat) (action : Action)
  | handled (worker : Nat) (event : Event)
  /-- The event loop received an action, and accepted it if it was a spawn or a stop. -/
  | received (action : Action)
  | spawned (tag : Tag) (actor : Actor)
  | stopped (tag : Tag)
  /-- The event loop sent an event, released a delayed entry, or ended an iteration. -/
  | emitted (event : Event)
  | released (entry : Entry)
  | ticked (reports : List Report)
  deriving DecidableEq

/-- The event that an observation puts on the events channel. -/
def Obs.emitted? : Obs → Option Event
  | .emitted event => some event
  | _ => none

/-- The action that an observation of the event loop puts on the action channel. -/
def Obs.requeued? : Obs → Option Action
  | .released entry => some (.queue entry.tag entry.envelope)
  | _ => none

end Uppercut
