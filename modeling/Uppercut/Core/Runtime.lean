import Uppercut.Core.EventLoop
import Uppercut.Core.Worker

/-!
# The runtime

The worker loops, the event loop's job and the threads that hold the `Run` handle
share two unbounded channels. A label picks who moves next, so a run is an
interleaving. A channel whose receivers are all gone is disconnected: sends on it
fail and the messages it still holds are discarded.

The event loop's job runs `event_loop`, sends one `Shutdown` for each worker and
then drains the action channel until all its senders are gone.

`Transition` says once what a step can do.
-/

namespace Uppercut

/-- What has become of the event loop's job outside of `event_loop`. -/
inductive Job where
  | running
  | returned
  | panicked
  deriving DecidableEq

structure Runtime where
  loop : LoopState
  job : Job
  /-- The number of `Shutdown` events sent. -/
  shutdowns : Nat
  workers : List Worker
  events : List Event
  actions : List Action
  /-- The `Run` handle is alive. -/
  handle : Bool
  /-- Names for new actors and envelopes. -/
  fresh : Nat

inductive Label where
  /-- A thread calls `Run::send`, `Run::spawn`, `Run::delay` or `Run::stop`. -/
  | call (thread : Nat) (call : Call) (now : Nat)
  /-- A thread calls `Run::shutdown`, which consumes the handle. -/
  | shutdown (thread : Nat)
  | dropRun
  | worker (index : Nat) (label : WorkerLabel)
  | loop (label : LoopLabel)
  | sendShutdown
  | drain
  | finish
  deriving DecidableEq

namespace Runtime

def start (config : SchedulerConfig) (name host : String) (start : Nat) : Runtime where
  loop := ⟨.receiving, EventLoop.init config name host start⟩
  job := .running
  shutdowns := 0
  workers := List.replicate config.actorWorkerThreads .start
  events := []
  actions := []
  handle := true
  fresh := 0

abbrev scheduler (s : Runtime) : Scheduler := s.loop.loop.scheduler

/-- Some worker loop can still receive events. -/
def eventsConnected (s : Runtime) : Bool := s.workers.any (·.stage.running)

/-- The event loop's job can still receive actions. It also holds the sender of the
events channel. -/
def actionsConnected (s : Runtime) : Bool :=
  decide (s.loop.phase ≠ .panicked) && decide (s.job = .running)

/-- Send an action. A failed send unwinds the caller. -/
def post (s : Runtime) (sender : Sender) (action : Action) : Runtime × List Obs :=
  if s.actionsConnected then
    ({ s with actions := s.actions ++ [action], fresh := s.fresh + 1 }, [.sent sender action])
  else ({ s with fresh := s.fresh + 1 }, [.unsent action])

/-- Worker `index` becomes `w`. If that was the last receiver, the events are discarded. -/
def withWorker (s : Runtime) (index : Nat) (w : Worker) : Runtime :=
  let s' := { s with workers := s.workers.set index w }
  if s'.eventsConnected then s' else { s' with events := [] }

/-- A call from a callback that is not sent. -/
def recordObs (index : Nat) (tag : Tag) (actor : Actor) (now : Nat) : Call → List Obs
  | .log message => [.logged index tag actor (now, message)]
  | .metric name value => [.measured index tag actor name (now, value)]
  | _ => []

def workerStep (s : Runtime) (index : Nat) (w : Worker) :
    WorkerLabel → Option (Runtime × List Obs)
  | .take =>
      match s.events with
      | [] => none
      | event :: events =>
          match w.take index event with
          | none => none
          | some (w, seen) => some ({ s with events := events }.withWorker index w, seen)
  | .call call now =>
      match w.stage.callback? with
      | none => none
      | some (tag, actor, _) =>
          match call.action s.fresh now, w.sender.record now call with
          | some action, _ => some (s.post (.actor actor) action)
          | none, some sender =>
              some (s.withWorker index { w with sender := sender },
                recordObs index tag actor now call)
          | none, none => none
  | .finish ok =>
      match w.finish index ok with
      | none => none
      | some (w, seen) => some (s.withWorker index w, seen)
  | .advance =>
      match w.advance index s.actionsConnected with
      | none => none
      | some (w, action, seen) =>
          some ({ s with actions := s.actions ++ action.toList }.withWorker index w, seen)
  | .hangUp =>
      if w.stage = .waiting ∧ s.events = [] ∧ s.actionsConnected = false then
        some (s.withWorker index { w with stage := .exited }, [])
      else none

/-- The event loop receives the oldest action, and times out when there is none. -/
def offers (s : Runtime) : LoopLabel → Bool
  | .receive action connected =>
      decide (s.actions.head? = some action) && decide (connected = s.eventsConnected)
  | .timeout => s.actions.isEmpty
  | .clock _ | .release _ | .tick _ _ => true

/-- The actions a step of the event loop leaves unread. -/
def unread (s : Runtime) : LoopLabel → List Action
  | .receive _ _ => s.actions.tail
  | .timeout | .clock _ | .release _ | .tick _ _ => s.actions

/-- The runtime after the event loop has come to `loop`. A panic drops both channels' ends. -/
def withLoop (s : Runtime) (label : LoopLabel) (loop : LoopState) (seen : List Obs) : Runtime :=
  if loop.phase = .panicked then { s with loop := loop, actions := [] }
  else
    { s with
      loop := loop
      events := s.events ++ seen.filterMap Obs.emitted?
      actions := s.unread label ++ seen.filterMap Obs.requeued? }

/-- `thread_count` of `start_actor_runtime`. -/
def threadCount (s : Runtime) : Nat := s.scheduler.config.actorWorkerThreads

/-- The job is past `event_loop`. -/
def closing (s : Runtime) : Bool :=
  decide (s.loop.phase = .exited) && decide (s.job = .running)

def step (s : Runtime) : Label → Option (Runtime × List Obs)
  | .call thread call now =>
      match s.handle, call.action s.fresh now with
      | true, some action => some (s.post (.thread thread) action)
      | _, _ => none
  | .shutdown thread =>
      if s.handle then
        let (s, seen) := s.post (.thread thread) .shutdown
        some ({ s with handle := false }, seen)
      else none
  | .dropRun => if s.handle then some ({ s with handle := false }, []) else none
  | .worker index label =>
      match s.workers[index]? with
      | none => none
      | some w => s.workerStep index w label
  | .loop label =>
      if s.offers label then
        match s.loop.step label with
        | none => none
        | some (loop, seen) => some (s.withLoop label loop seen, seen)
      else none
  | .sendShutdown =>
      if s.closing ∧ s.shutdowns < s.threadCount then
        if s.eventsConnected then
          some ({ s with events := s.events ++ [.shutdown], shutdowns := s.shutdowns + 1 },
            [.emitted .shutdown])
        else some ({ s with job := .panicked, actions := [] }, [])
      else none
  | .drain =>
      if s.closing ∧ s.shutdowns = s.threadCount ∧ s.actions ≠ [] then
        some ({ s with actions := s.actions.tail }, [])
      else none
  | .finish =>
      if s.closing ∧ s.shutdowns = s.threadCount ∧ s.actions = [] ∧
          s.handle = false ∧ s.eventsConnected = false then
        some ({ s with job := .returned }, [])
      else none

end Runtime

/-- The callback that panics in this step although nothing in the worker loop catches
the panic. -/
def Runtime.unwinds (s : Runtime) : Label → Option Callback
  | .worker index (.finish false) =>
      match (s.workers[index]?).bind (·.stage.callback?) with
      | some (_, _, .onFail) => some .onFail
      | some (_, _, .onStop) => some .onStop
      | _ => none
  | _ => none

def runtimeMachine (config : SchedulerConfig) (name host : String) (start : Nat) :
    Machine Runtime Label Obs where
  start := .start config name host start
  step := Runtime.step

/-- Who can send an action by a label, and which one. -/
inductive Runtime.Calls (s : Runtime) : Label → Sender → Action → Prop where
  | thread {thread call now action} (handle : s.handle = true)
      (sends : call.action s.fresh now = some action) :
      Calls s (.call thread call now) (.thread thread) action
  | shutdown {thread} (handle : s.handle = true) :
      Calls s (.shutdown thread) (.thread thread) .shutdown
  | actor {index call now w tag actor callback action} (known : s.workers[index]? = some w)
      (busy : w.stage.callback? = some (tag, actor, callback))
      (sends : call.action s.fresh now = some action) :
      Calls s (.worker index (.call call now)) (.actor actor) action

/-- What one step of the runtime does. -/
inductive Transition (s : Runtime) : Label → Runtime → List Obs → Prop where
  | posted {label sender action handle} (calls : s.Calls label sender action)
      (connects : s.actionsConnected = true) (kept : handle = true → s.handle = true) :
      Transition s label
        { s with actions := s.actions ++ [action], fresh := s.fresh + 1, handle := handle }
        [.sent sender action]
  | unposted {label sender action handle} (calls : s.Calls label sender action)
      (closed : s.actionsConnected = false) (kept : handle = true → s.handle = true) :
      Transition s label { s with fresh := s.fresh + 1, handle := handle } [.unsent action]
  | dropped (handle : s.handle = true) : Transition s .dropRun { s with handle := false } []
  | recorded {index call now w tag actor callback sender} (known : s.workers[index]? = some w)
      (busy : w.stage.callback? = some (tag, actor, callback))
      (stays : w.sender.record now call = some sender) :
      Transition s (.worker index (.call call now))
        { s with workers := s.workers.set index { w with sender := sender } }
        (Runtime.recordObs index tag actor now call)
  | worker {index label w input events w' output seen} (known : s.workers[index]? = some w)
      (move : w.Move index s.actionsConnected label input w' output seen)
      (popped : s.events = input.toList ++ events)
      (hung : label = .hangUp → s.events = [] ∧ s.actionsConnected = false) :
      Transition s (.worker index label)
        { s with
          workers := s.workers.set index w'
          events := if (s.workers.set index w').any (·.stage.running) then events else []
          actions := s.actions ++ output.toList } seen
  | loop {label loop seen} (offered : s.offers label = true)
      (taken : s.loop.step label = some (loop, seen)) (running : loop.phase ≠ .panicked) :
      Transition s (.loop label)
        { s with
          loop := loop
          events := s.events ++ seen.filterMap Obs.emitted?
          actions := s.unread label ++ seen.filterMap Obs.requeued? } seen
  | crashed {label loop seen} (offered : s.offers label = true)
      (taken : s.loop.step label = some (loop, seen)) (panicked : loop.phase = .panicked) :
      Transition s (.loop label) { s with loop := loop, actions := [] } seen
  | announced (closing : s.closing = true) (left : s.shutdowns < s.threadCount)
      (connects : s.eventsConnected = true) :
      Transition s .sendShutdown
        { s with events := s.events ++ [.shutdown], shutdowns := s.shutdowns + 1 }
        [.emitted .shutdown]
  | unannounced (closing : s.closing = true) (left : s.shutdowns < s.threadCount)
      (closed : s.eventsConnected = false) :
      Transition s .sendShutdown { s with job := .panicked, actions := [] } []
  | drained (closing : s.closing = true) (sent : s.shutdowns = s.threadCount) :
      Transition s .drain { s with actions := s.actions.tail } []
  | finished (closing : s.closing = true) (sent : s.shutdowns = s.threadCount)
      (empty : s.actions = []) (alone : s.handle = false) (gone : s.eventsConnected = false) :
      Transition s .finish { s with job := .returned } []

namespace Runtime

variable {s t : Runtime} {label : Label} {seen : List Obs}

theorem withWorker_eq (s : Runtime) (index : Nat) (w : Worker) :
    s.withWorker index w =
      { s with
        workers := s.workers.set index w
        events := if (s.workers.set index w).any (·.stage.running) then s.events else [] } := by
  simp only [withWorker, eventsConnected]
  split <;> simp [*]

/-- A worker that goes on keeps the channel connected. -/
theorem any_running_set {l : List Worker} {index : Nat} {w w' : Worker}
    (known : l[index]? = some w) (running : w'.stage.running = true) :
    (l.set index w').any (·.stage.running) = true := by
  rw [List.any_eq_true]
  refine ⟨w', ?_, running⟩
  exact List.mem_of_getElem? (List.getElem?_set_self (List.getElem?_eq_some_iff.mp known).1)

/-- The event loop is offered the oldest action. -/
theorem offers_receive {action : Action} {connected : Bool}
    (offered : s.offers (.receive action connected) = true) :
    (∃ actions, s.actions = action :: actions) ∧ connected = s.eventsConnected := by
  simp only [offers, Bool.and_eq_true, decide_eq_true_eq] at offered
  exact ⟨List.head?_eq_some_iff.mp offered.1, offered.2⟩

theorem mem_of_offers {action : Action} {connected : Bool}
    (offered : s.offers (.receive action connected) = true) : action ∈ s.actions := by
  obtain ⟨actions, head⟩ := (offers_receive offered).1
  rw [head]
  exact List.mem_cons_self

theorem unread_eq {label : LoopLabel}
    (unread : ∀ action connected, label ≠ .receive action connected) :
    s.unread label = s.actions := by
  cases label with
  | receive action connected => exact absurd rfl (unread action connected)
  | timeout | clock | release | tick => rfl

theorem post_handle {sender : Sender} {action : Action} {s' : Runtime}
    (posted : s.post sender action = (s', seen)) : s'.handle = s.handle := by
  simp only [post] at posted
  split at posted <;> cases posted <;> rfl

theorem post_transition {sender : Sender} {action : Action} {s' : Runtime}
    (calls : s.Calls label sender action) (posted : s.post sender action = (s', seen))
    {handle : Bool} (kept : handle = true → s.handle = true) :
    Transition s label { s' with handle := handle } seen := by
  simp only [post] at posted
  split at posted
  case isTrue connects =>
    cases posted
    exact .posted calls connects kept
  case isFalse closed =>
    cases posted
    exact .unposted calls (by simpa using closed) kept

theorem workerStep_transition {index : Nat} {w : Worker} {label : WorkerLabel}
    (known : s.workers[index]? = some w) (taken : s.workerStep index w label = some (t, seen)) :
    Transition s (.worker index label) t seen := by
  cases label with
  | take =>
      simp only [workerStep] at taken
      split at taken
      case h_1 => cases taken
      case h_2 event events head =>
        split at taken
        case h_1 => cases taken
        case h_2 w' seen took =>
          cases taken
          rw [withWorker_eq]
          simpa using Transition.worker known (Worker.take_move took) head (by simp)
  | call call now =>
      simp only [workerStep] at taken
      split at taken
      case h_1 => cases taken
      case h_2 tag actor callback busy =>
        split at taken
        case h_1 action sends =>
          exact post_transition (.actor known busy sends) (Option.some.inj taken)
            (post_handle (Option.some.inj taken) ▸ id)
        case h_2 sender _ stays =>
          cases taken
          have running : ({ w with sender := sender } : Worker).stage.running = true :=
            Stage.running_of_callback busy
          rw [withWorker_eq, any_running_set known running]
          exact .recorded known busy stays
        case h_3 => cases taken
  | finish ok =>
      simp only [workerStep] at taken
      split at taken
      case h_1 => cases taken
      case h_2 w' seen ended =>
        cases taken
        rw [withWorker_eq]
        simpa using Transition.worker known (Worker.finish_move ended) rfl (by simp)
  | advance =>
      simp only [workerStep] at taken
      split at taken
      case h_1 => cases taken
      case h_2 w' action seen went =>
        cases taken
        rw [withWorker_eq]
        exact .worker known (Worker.advance_move went) rfl (by simp)
  | hangUp =>
      simp only [workerStep] at taken
      split at taken
      case isFalse => cases taken
      case isTrue ceased =>
        cases taken
        obtain ⟨stage, sender⟩ := w
        obtain ⟨rfl, ceased⟩ : stage = .waiting ∧ _ := ceased
        rw [withWorker_eq]
        simpa using Transition.worker known .hungUp rfl fun _ => ceased

theorem step_transition (taken : s.step label = some (t, seen)) : Transition s label t seen := by
  cases label with
  | call thread call now =>
      simp only [step] at taken
      split at taken
      case h_1 action handle sends =>
        exact post_transition (.thread handle sends) (Option.some.inj taken) fun _ => handle
      case h_2 => cases taken
  | shutdown thread =>
      simp only [step] at taken
      split at taken
      case isTrue handle =>
        cases taken
        exact post_transition (.shutdown handle) rfl (by simp)
      case isFalse => cases taken
  | dropRun =>
      simp only [step] at taken
      split at taken
      case isTrue handle =>
        cases taken
        exact .dropped handle
      case isFalse => cases taken
  | worker index label =>
      simp only [step] at taken
      split at taken
      case h_1 => cases taken
      case h_2 w known => exact workerStep_transition known taken
  | loop label =>
      simp only [step] at taken
      split at taken
      case isFalse => cases taken
      case isTrue offered =>
        split at taken
        case h_1 => cases taken
        case h_2 loop seen went =>
          cases taken
          simp only [withLoop]
          split
          case isTrue panicked => exact .crashed offered went panicked
          case isFalse running => exact .loop offered went running
  | sendShutdown =>
      simp only [step] at taken
      split at taken
      case isFalse => cases taken
      case isTrue sending =>
        split at taken
        case isTrue connects =>
          cases taken
          exact .announced sending.1 sending.2 connects
        case isFalse closed =>
          cases taken
          exact .unannounced sending.1 sending.2 (by simpa using closed)
  | drain =>
      simp only [step] at taken
      split at taken
      case isFalse => cases taken
      case isTrue draining =>
        cases taken
        exact .drained draining.1 draining.2.1
  | finish =>
      simp only [step] at taken
      split at taken
      case isFalse => cases taken
      case isTrue ceased =>
        cases taken
        exact .finished ceased.1 ceased.2.1 ceased.2.2.1 ceased.2.2.2.1 ceased.2.2.2.2

end Runtime
end Uppercut
