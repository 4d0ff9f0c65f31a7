import Uppercut.Core.Action

/-!
# The worker loop

One iteration of `worker_loop` is cut at every point where a callback runs or
something is sent. `receive` runs under `catch_unwind`; `on_fail` and `on_stop` do
not, so a panic in them ends the loop. It is caught by the pool thread, which then
looks for another job.

`Worker.Move` says once what a step of a worker loop can do.
-/

namespace Uppercut

/-- The sender that a worker loop lends to callbacks. -/
structure Local where
  tag : Tag
  logs : List Line
  metrics : Metrics
  deriving DecidableEq

namespace Local

def new : Local := ⟨"", [], []⟩

/-- The next send of `drain`: log lines go first, then metrics. -/
def drain (sender : Local) : Option (Action × Local) :=
  if sender.logs ≠ [] then some (.logs sender.tag sender.logs, { sender with logs := [] })
  else if sender.metrics ≠ [] then some (.metrics sender.metrics, { sender with metrics := [] })
  else none

/-- The calls that stay in `Local`. -/
def record (sender : Local) (now : Nat) : Call → Option Local
  | .log message => some { sender with logs := sender.logs ++ [(now, message)] }
  | .metric name value =>
      some { sender with metrics := sender.metrics.append name [(now, value)] }
  | _ => none

end Local

/-- Where a worker loop stands. -/
inductive Stage where
  /-- In `rx.recv()`. -/
  | waiting
  | receiving (tag : Tag) (actor : Actor) (envelope : Envelope)
  /-- In `on_fail`, after `receive` has panicked. -/
  | failing (tag : Tag) (actor : Actor) (envelope : Envelope)
  /-- About to send the actor back. -/
  | returning (tag : Tag) (actor : Actor) (envelope : Envelope) (ok : Bool)
  | stopping (tag : Tag) (actor : Actor)
  | draining (event : Event)
  /-- Left by `break`. -/
  | exited
  /-- Unwound by a panic. -/
  | panicked
  deriving DecidableEq

namespace Stage

/-- The callback that is running. -/
def callback? : Stage → Option (Tag × Actor × Callback)
  | .receiving tag actor envelope => some (tag, actor, .receive envelope)
  | .failing tag actor _ => some (tag, actor, .onFail)
  | .stopping tag actor => some (tag, actor, .onStop)
  | _ => none

/-- The loop still holds its ends of both channels. -/
def running : Stage → Bool
  | .exited | .panicked => false
  | _ => true

theorem running_of_callback {stage : Stage} {call : Tag × Actor × Callback}
    (busy : stage.callback? = some call) : stage.running = true := by
  cases stage <;> first | rfl | cases busy

end Stage

structure Worker where
  stage : Stage
  sender : Local
  deriving DecidableEq

inductive WorkerLabel where
  /-- Receive the oldest event. -/
  | take
  /-- A call of the running callback. -/
  | call (call : Call) (now : Nat)
  /-- The running callback returns or panics. -/
  | finish (ok : Bool)
  /-- The loop goes on by itself. -/
  | advance
  /-- `rx.recv()` fails. -/
  | hangUp
  deriving DecidableEq

namespace Worker

def start : Worker := ⟨.waiting, .new⟩

/-- The `match event` of the loop, up to the first callback. -/
def take (index : Nat) (w : Worker) (event : Event) : Option (Worker × List Obs) :=
  if w.stage = .waiting then
    match event with
    | .mail tag actor envelope =>
        some (⟨.receiving tag actor envelope, { w.sender with tag := tag }⟩,
          [.taken index event, .called index tag actor (.receive envelope)])
    | .stop tag actor =>
        some (⟨.stopping tag actor, { w.sender with tag := tag }⟩,
          [.taken index event, .called index tag actor .onStop])
    | .shutdown => some ({ w with stage := .exited }, [.taken index event])
  else none

/-- The end of the running callback. -/
def finish (index : Nat) (w : Worker) (ok : Bool) : Option (Worker × List Obs) :=
  match w.stage with
  | .receiving tag actor envelope =>
      if ok then
        some ({ w with stage := .returning tag actor envelope true },
          [.ended index tag actor (.receive envelope) true])
      else
        some ({ w with stage := .failing tag actor envelope },
          [.ended index tag actor (.receive envelope) false, .called index tag actor .onFail])
  | .failing tag actor envelope =>
      let stage := if ok then .returning tag actor envelope false else .panicked
      some ({ w with stage := stage }, [.ended index tag actor .onFail ok])
  | .stopping tag actor =>
      let stage := if ok then .draining (.stop tag actor) else .panicked
      some ({ w with stage := stage }, [.ended index tag actor .onStop ok])
  | _ => none

/-- The loop between callbacks. `connected` tells whether the action channel still
has its receiver. -/
def advance (index : Nat) (w : Worker) (connected : Bool) :
    Option (Worker × Option Action × List Obs) :=
  match w.stage with
  | .returning tag actor envelope ok =>
      let action := Action.return tag actor ok
      if connected then
        some ({ w with stage := .draining (.mail tag actor envelope) }, some action,
          [.returned index tag actor ok])
      else some ({ w with stage := .exited }, none, [.unsent action])
  | .draining event =>
      match w.sender.drain with
      | some (action, sender) =>
          if connected then some ({ w with sender := sender }, some action, [.flushed index action])
          else some ({ w with stage := .panicked }, none, [.unsent action])
      | none => some ({ w with stage := .waiting }, none, [.handled index event])
  | _ => none

/-- What a step of a worker loop does: the event it takes, the stage it comes to, the
action it sends and what it shows. -/
inductive Move (index : Nat) (connected : Bool) :
    Worker → WorkerLabel → Option Event → Worker → Option Action → List Obs → Prop where
  | received {sender : Local} {tag actor envelope} :
      Move index connected ⟨.waiting, sender⟩ .take (some (.mail tag actor envelope))
        ⟨.receiving tag actor envelope, { sender with tag := tag }⟩ none
        [.taken index (.mail tag actor envelope), .called index tag actor (.receive envelope)]
  | stopped {sender : Local} {tag actor} :
      Move index connected ⟨.waiting, sender⟩ .take (some (.stop tag actor))
        ⟨.stopping tag actor, { sender with tag := tag }⟩ none
        [.taken index (.stop tag actor), .called index tag actor .onStop]
  | dismissed {sender} :
      Move index connected ⟨.waiting, sender⟩ .take (some .shutdown) ⟨.exited, sender⟩ none
        [.taken index .shutdown]
  | finished {sender tag actor envelope} :
      Move index connected ⟨.receiving tag actor envelope, sender⟩ (.finish true) none
        ⟨.returning tag actor envelope true, sender⟩ none
        [.ended index tag actor (.receive envelope) true]
  | failed {sender tag actor envelope} :
      Move index connected ⟨.receiving tag actor envelope, sender⟩ (.finish false) none
        ⟨.failing tag actor envelope, sender⟩ none
        [.ended index tag actor (.receive envelope) false, .called index tag actor .onFail]
  | recovered {sender tag actor envelope} :
      Move index connected ⟨.failing tag actor envelope, sender⟩ (.finish true) none
        ⟨.returning tag actor envelope false, sender⟩ none [.ended index tag actor .onFail true]
  | lost {sender tag actor envelope} :
      Move index connected ⟨.failing tag actor envelope, sender⟩ (.finish false) none
        ⟨.panicked, sender⟩ none [.ended index tag actor .onFail false]
  | released {sender tag actor} :
      Move index connected ⟨.stopping tag actor, sender⟩ (.finish true) none
        ⟨.draining (.stop tag actor), sender⟩ none [.ended index tag actor .onStop true]
  | crashed {sender tag actor} :
      Move index connected ⟨.stopping tag actor, sender⟩ (.finish false) none
        ⟨.panicked, sender⟩ none [.ended index tag actor .onStop false]
  | returned {sender tag actor envelope ok} (connects : connected = true) :
      Move index connected ⟨.returning tag actor envelope ok, sender⟩ .advance none
        ⟨.draining (.mail tag actor envelope), sender⟩ (some (.return tag actor ok))
        [.returned index tag actor ok]
  | abandoned {sender tag actor envelope ok} (closed : connected = false) :
      Move index connected ⟨.returning tag actor envelope ok, sender⟩ .advance none
        ⟨.exited, sender⟩ none [.unsent (.return tag actor ok)]
  | flushed {sender sender' event action} (connects : connected = true)
      (next : sender.drain = some (action, sender')) :
      Move index connected ⟨.draining event, sender⟩ .advance none
        ⟨.draining event, sender'⟩ (some action) [.flushed index action]
  | unflushed {sender sender' event action} (closed : connected = false)
      (next : sender.drain = some (action, sender')) :
      Move index connected ⟨.draining event, sender⟩ .advance none
        ⟨.panicked, sender⟩ none [.unsent action]
  | rested {sender event} (empty : sender.drain = none) :
      Move index connected ⟨.draining event, sender⟩ .advance none
        ⟨.waiting, sender⟩ none [.handled index event]
  | hungUp {sender} :
      Move index connected ⟨.waiting, sender⟩ .hangUp none ⟨.exited, sender⟩ none []

section Inversion

variable {index : Nat} {connected : Bool} {w w' : Worker} {seen : List Obs}

theorem take_move {event : Event} (taken : w.take index event = some (w', seen)) :
    Move index connected w .take (some event) w' none seen := by
  obtain ⟨stage, sender⟩ := w
  simp only [take] at taken
  split at taken
  case isFalse => cases taken
  case isTrue waiting =>
    obtain rfl : stage = .waiting := waiting
    cases event <;> cases taken
    · exact .received
    · exact .stopped
    · exact .dismissed

theorem finish_move {ok : Bool} (ended : w.finish index ok = some (w', seen)) :
    Move index connected w (.finish ok) none w' none seen := by
  obtain ⟨stage, sender⟩ := w
  cases stage <;> cases ok <;> cases ended
  · exact .failed
  · exact .finished
  · exact .lost
  · exact .recovered
  · exact .crashed
  · exact .released

theorem advance_move {action : Option Action}
    (went : w.advance index connected = some (w', action, seen)) :
    Move index connected w .advance none w' action seen := by
  obtain ⟨stage, sender⟩ := w
  cases stage with
  | returning tag actor envelope ok =>
      cases open' : connected <;> simp only [advance, open'] at went <;> cases went
      · exact .abandoned rfl
      · exact .returned rfl
  | draining event =>
      simp only [advance] at went
      split at went
      case h_1 action sender' next =>
        cases open' : connected <;> simp only [open'] at went <;> cases went
        · exact .unflushed rfl next
        · exact .flushed rfl next
      case h_2 empty =>
        cases went
        exact .rested empty
  | waiting | receiving | failing | stopping | exited | panicked => cases went

end Inversion

end Worker

theorem Local.drain_none {sender : Local} (none : sender.drain = none) :
    sender.logs = [] ∧ sender.metrics = [] := by
  simp only [drain] at none
  split at none
  · cases none
  · next logs =>
    split at none
    · cases none
    · next metrics => exact ⟨not_not.mp logs, not_not.mp metrics⟩

/-- Lines go first. -/
theorem Local.drain_some {sender sender' : Local} {action : Action}
    (next : sender.drain = some (action, sender')) :
    (sender.logs ≠ [] ∧ action = .logs sender.tag sender.logs ∧
      sender' = { sender with logs := [] }) ∨
    sender.logs = [] ∧ sender.metrics ≠ [] ∧ action = .metrics sender.metrics ∧
      sender' = { sender with metrics := [] } := by
  simp only [drain] at next
  split at next
  · next logs =>
    cases next
    exact .inl ⟨logs, rfl, rfl⟩
  · next logs =>
    split at next
    · next metrics =>
      cases next
      exact .inr ⟨not_not.mp logs, metrics, rfl, rfl⟩
    · cases next

end Uppercut
