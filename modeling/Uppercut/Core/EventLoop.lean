import Uppercut.Core.Scheduler
import Uppercut.Machine.Run

/-!
# The event loop as a machine

One iteration of `event_loop` is cut where another thread can interleave: after
the `match`, at the clock reading, and after each released entry. Labels supply the
received action, the clock readings and the heap's choice among equal entries.

`Arm` says once what the `match` can do to the scheduler. Invariants are proved by
cases on it, never by unfolding `EventLoop.handle`.
-/

namespace Uppercut

/-- Where the event loop stands in its iteration. -/
inductive Phase where
  | receiving
  /-- Past the `match`, about to read the clock. -/
  | reading
  /-- In the release loop, with the bound computed from the clock reading. -/
  | releasing (now : Nat)
  /-- Left by `break 'main`. -/
  | exited
  | panicked
  deriving DecidableEq

/-- The loop has neither been left nor panicked. -/
def Phase.running : Phase → Bool
  | .receiving | .reading | .releasing _ => true
  | .exited | .panicked => false

structure LoopState where
  phase : Phase
  loop : EventLoop

inductive LoopLabel where
  /-- An action arrives; `connected` tells whether `events_tx` still has a receiver. -/
  | receive (action : Action) (connected : Bool)
  | timeout
  | clock (now : Nat)
  | release (index : Nat)
  | tick (instant time : Nat)
  deriving DecidableEq

def Flow.phase : Flow → Phase
  | .next => .reading
  | .continue => .receiving
  | .break => .exited

namespace LoopState

/-- One step of the event loop with what it shows. -/
def step (s : LoopState) : LoopLabel → Option (LoopState × List Obs)
  | .receive action connected =>
      if s.phase = .receiving then
        match s.loop.hit.handle action with
        | none => some ({ s with phase := .panicked }, [])
        | some r =>
            -- `events_tx.send(event).unwrap()`
            if r.event.isSome ∧ connected = false then some ({ s with phase := .panicked }, [])
            else some (⟨r.flow.phase, r.loop⟩,
              .received action :: (s.loop.scheduler.accepts action ++
                (r.event.map .emitted).toList))
      else none
  | .timeout =>
      if s.phase = .receiving then some (⟨.reading, s.loop.miss⟩, []) else none
  | .clock now =>
      if s.phase = .reading then
        let bound := now + s.loop.scheduler.config.delayPrecision / 2
        some ({ s with phase := .releasing bound }, [])
      else none
  | .release index =>
      match s.phase, s.loop.scheduler.tasks[index]? with
      | .releasing now, some entry =>
          if s.loop.scheduler.due now ∧ s.loop.scheduler.isTop entry then
            let scheduler := { s.loop.scheduler with
              tasks := s.loop.scheduler.tasks.eraseIdx index }
            some ({ s with loop := { s.loop with scheduler := scheduler } }, [.released entry])
          else none
      | _, _ => none
  | .tick instant time =>
      match s.phase with
      | .releasing now =>
          if s.loop.scheduler.due now then none
          else
            let (l, reports) := s.loop.tick instant time
            some (⟨if l.quits then .exited else .receiving, l⟩, [.ticked reports])
      | _ => none

end LoopState

/-- The event loop on its own, over every sequence of received actions. -/
def loopMachine (config : SchedulerConfig) (name host : String) (start : Nat) :
    Machine LoopState LoopLabel Obs where
  start := ⟨.receiving, EventLoop.init config name host start⟩
  step := LoopState.step

/-- What one received action does to the scheduler, which event is sent and where
control goes. The name of an arm tells what becomes of the instance or envelope. -/
inductive Arm (s : Scheduler) : Action → Scheduler → Option Event → Flow → Prop where
  | failed {tag actor} (active : tag ∈ s.active) :
      Arm s (.return tag actor false)
        { s with active := s.active.erase tag, queue := s.queue.remove tag } none .continue
  | resumed {tag actor envelope mailbox} (active : tag ∈ s.active)
      (waiting : s.queue tag = some (envelope :: mailbox)) :
      Arm s (.return tag actor true) { s with queue := s.queue.insert tag mailbox }
        (some (.mail tag actor envelope)) .next
  | rested {tag actor} (active : tag ∈ s.active) (waiting : s.queue tag = some []) :
      Arm s (.return tag actor true) { s with actors := s.actors.insert tag actor } none .next
  | stale {tag actor} (inactive : tag ∉ s.active) :
      Arm s (.return tag actor true) { s with queue := s.queue.remove tag }
        (some (.stop tag actor)) .next
  | spent {tag actor} (inactive : tag ∉ s.active) :
      Arm s (.return tag actor false) { s with queue := s.queue.remove tag } none .next
  | woken {tag actor envelope mailbox front rest} (active : tag ∈ s.active)
      (waiting : s.queue tag = some mailbox) (idle : s.actors tag = some actor)
      (pushed : mailbox ++ [envelope] = front :: rest) :
      Arm s (.queue tag envelope)
        { s with actors := s.actors.remove tag, queue := s.queue.insert tag rest }
        (some (.mail tag actor front)) .next
  | queued {tag envelope mailbox} (active : tag ∈ s.active)
      (waiting : s.queue tag = some mailbox) (busy : s.actors tag = none) :
      Arm s (.queue tag envelope)
        { s with queue := s.queue.insert tag (mailbox ++ [envelope]) } none .next
  | spawned {tag actor} (inactive : tag ∉ s.active) :
      Arm s (.spawn tag actor)
        { s with
          active := insert tag s.active
          actors := s.actors.insert tag actor
          queue := s.queue.insert tag [] } none .next
  | delayed {entry} : Arm s (.delay entry) { s with tasks := s.tasks ++ [entry] } none .next
  | stoppedIdle {tag actor} (active : tag ∈ s.active) (idle : s.actors tag = some actor) :
      Arm s (.stop tag)
        { s with
          active := s.active.erase tag
          queue := s.queue.remove tag
          actors := s.actors.remove tag } (some (.stop tag actor)) .next
  | stoppedBusy {tag} (active : tag ∈ s.active) (busy : s.actors tag = none) :
      Arm s (.stop tag)
        { s with active := s.active.erase tag, queue := s.queue.remove tag } none .next
  | logged {tag lines} : Arm s (.logs tag lines) s none .next
  | measured {map} : Arm s (.metrics map) s none .next
  | shutdown : Arm s .shutdown s none .break
  | undelivered {tag envelope} (inactive : tag ∉ s.active) :
      Arm s (.queue tag envelope) s none .next
  | refused {tag actor} (active : tag ∈ s.active) : Arm s (.spawn tag actor) s none .next
  | unstopped {tag} (inactive : tag ∉ s.active) : Arm s (.stop tag) s none .next

/-- An event is about the tag of the action that caused it. -/
theorem Arm.event_tag {s s' : Scheduler} {action : Action} {event : Option Event} {flow : Flow}
    (arm : Arm s action s' event flow) {e : Event} (sent : event = some e) :
    e.tag? = action.tag? := by
  cases arm <;> cases sent <;> rfl

theorem EventLoop.handle_arm {l : EventLoop} {action : Action} {r : Handled}
    (handled : l.handle action = some r) :
    Arm l.scheduler action r.loop.scheduler r.event r.flow := by
  cases action with
  | «return» tag actor ok =>
      by_cases active : tag ∈ l.scheduler.active
      · cases ok with
        | false =>
            simp only [handle, active, if_true, Bool.not_false, Option.some.injEq] at handled
            subst handled
            exact .failed active
        | true =>
            simp only [handle, active, if_true, Bool.not_true, Bool.false_eq_true,
              if_false] at handled
            split at handled
            case h_1 => cases handled
            case h_2 envelope mailbox waiting =>
              cases handled
              exact .resumed active waiting
            case h_3 waiting =>
              cases handled
              exact .rested active waiting
      · simp only [handle, active, if_false, Option.some.injEq] at handled
        subst handled
        cases ok with
        | false => exact .spent active
        | true => exact .stale active
  | queue tag envelope =>
      by_cases active : tag ∈ l.scheduler.active
      · simp only [handle, active, if_true] at handled
        split at handled
        case h_1 => cases handled
        case h_2 mailbox waiting =>
          split at handled
          case h_1 actor idle =>
            split at handled
            case h_1 => cases handled
            case h_2 front rest pushed =>
              cases handled
              exact .woken active waiting idle pushed
          case h_2 busy =>
            cases handled
            exact .queued active waiting busy
      · simp only [handle, active, if_false, Option.some.injEq] at handled
        subst handled
        exact .undelivered active
  | spawn tag actor =>
      by_cases active : tag ∈ l.scheduler.active
      · simp only [handle, active, not_true, if_false, Option.some.injEq] at handled
        subst handled
        exact .refused active
      · simp only [handle, active, not_false_iff, if_true, Option.some.injEq] at handled
        subst handled
        exact .spawned active
  | stop tag =>
      by_cases active : tag ∈ l.scheduler.active
      · simp only [handle, active, if_true] at handled
        split at handled
        case h_1 actor idle =>
          cases handled
          exact .stoppedIdle active idle
        case h_2 busy =>
          cases handled
          exact .stoppedBusy active busy
      · simp only [handle, active, if_false, Option.some.injEq] at handled
        subst handled
        exact .unstopped active
  | delay entry =>
      cases handled
      exact .delayed
  | logs tag lines =>
      cases handled
      exact .logged
  | metrics map =>
      cases handled
      exact .measured
  | shutdown =>
      cases handled
      exact .shutdown

theorem Scheduler.mem_accepts {s : Scheduler} {action : Action} {x : Obs} :
    x ∈ s.accepts action ↔
      (∃ tag actor, action = .spawn tag actor ∧ tag ∉ s.active ∧ x = .spawned tag actor) ∨
        ∃ tag, action = .stop tag ∧ tag ∈ s.active ∧ x = .stopped tag := by
  cases action <;> simp [accepts]

/-- What the event loop shows of a received action. -/
abbrev Scheduler.shows (s : Scheduler) (action : Action) (event : Option Event) : List Obs :=
  .received action :: (s.accepts action ++ (event.map Obs.emitted).toList)

theorem Scheduler.spawned_mem_shows {s : Scheduler} {action : Action} {event : Option Event}
    {tag : Tag} {actor : Actor} : Obs.spawned tag actor ∈ s.shows action event ↔
      action = .spawn tag actor ∧ tag ∉ s.active := by
  cases event <;> simp [mem_accepts]

theorem Scheduler.stopped_mem_shows {s : Scheduler} {action : Action} {event : Option Event}
    {tag : Tag} : Obs.stopped tag ∈ s.shows action event ↔
      action = .stop tag ∧ tag ∈ s.active := by
  cases event <;> simp [mem_accepts]

theorem Scheduler.emitted_mem_shows {s : Scheduler} {action : Action} {event : Option Event}
    {e : Event} : Obs.emitted e ∈ s.shows action event ↔ event = some e := by
  cases event <;> simp [mem_accepts, eq_comm]

/-- A projection that ignores acceptance sees the action and the event. -/
theorem Scheduler.shows_flatMap {β : Type} (s : Scheduler) (action : Action)
    (event : Option Event) (f : Obs → List β)
    (spawned : ∀ tag actor, f (.spawned tag actor) = [])
    (stopped : ∀ tag, f (.stopped tag) = []) :
    (s.shows action event).flatMap f =
      f (.received action) ++ event.toList.flatMap fun e => f (.emitted e) := by
  have accepts : (s.accepts action).flatMap f = [] := by
    rw [List.flatMap_eq_nil_iff]
    intro x mem
    obtain ⟨tag, actor, _, _, rfl⟩ | ⟨tag, _, _, rfl⟩ := Scheduler.mem_accepts.mp mem
    · exact spawned tag actor
    · exact stopped tag
  rw [Scheduler.shows, List.flatMap_cons, List.flatMap_append, accepts, List.nil_append]
  cases event <;> rfl

theorem Scheduler.shows_filterMap {β : Type} (s : Scheduler) (action : Action)
    (event : Option Event) (f : Obs → Option β)
    (spawned : ∀ tag actor, f (.spawned tag actor) = none)
    (stopped : ∀ tag, f (.stopped tag) = none) :
    (s.shows action event).filterMap f =
      (f (.received action)).toList ++ (event.bind fun e => f (.emitted e)).toList := by
  rw [List.filterMap_eq_flatMap_toList, s.shows_flatMap action event]
  · cases event <;> simp
  · simp [spawned]
  · simp [stopped]

@[simp] theorem EventLoop.tick_scheduler (l : EventLoop) (instant time : Nat) :
    (l.tick instant time).1.scheduler = l.scheduler := by
  simp only [tick]
  split <;> [split <;> split; skip] <;> rfl

/-- What one step of the event loop does to its phase and to the scheduler. -/
inductive LoopMove (phase : Phase) (s : Scheduler) :
    LoopLabel → Phase → Scheduler → List Obs → Prop where
  /-- An `unwrap` on one of the maps failed. -/
  | crashed {action connected} (at_head : phase = .receiving) (l : EventLoop)
      (same : l.scheduler = s) (failed : l.handle action = none) :
      LoopMove phase s (.receive action connected) .panicked s []
  /-- An event could not be sent. -/
  | unsent {action s' event flow} (at_head : phase = .receiving)
      (arm : Arm s action s' (some event) flow) :
      LoopMove phase s (.receive action false) .panicked s []
  | received {action connected s' event flow} (at_head : phase = .receiving)
      (arm : Arm s action s' event flow) (sent : event.isSome → connected = true) :
      LoopMove phase s (.receive action connected) flow.phase s' (s.shows action event)
  | timeout (at_head : phase = .receiving) : LoopMove phase s .timeout .reading s []
  | clock {now} (reading : phase = .reading) :
      LoopMove phase s (.clock now) (.releasing (now + s.config.delayPrecision / 2)) s []
  | release {index now entry} (releasing : phase = .releasing now)
      (popped : s.tasks[index]? = some entry) (due : s.due now = true)
      (top : s.isTop entry = true) :
      LoopMove phase s (.release index) phase
        { s with tasks := s.tasks.eraseIdx index } [.released entry]
  | tick {now reports} (instant time : Nat) (releasing : phase = .releasing now)
      (done : s.due now = false) :
      LoopMove phase s (.tick instant time)
        (if s.config.eagerShutdownEnabled ∧ s.active = ∅ then .exited else .receiving) s
        [.ticked reports]

/-- One step of the event loop, with all that it changes. -/
inductive LoopStep (s : LoopState) : LoopLabel → LoopState → List Obs → Prop where
  | crashed {action connected} (at_head : s.phase = .receiving)
      (failed : s.loop.hit.handle action = none) :
      LoopStep s (.receive action connected) { s with phase := .panicked } []
  | unsent {action r event} (at_head : s.phase = .receiving)
      (handled : s.loop.hit.handle action = some r) (some_event : r.event = some event) :
      LoopStep s (.receive action false) { s with phase := .panicked } []
  | received {action connected r} (at_head : s.phase = .receiving)
      (handled : s.loop.hit.handle action = some r) (sent : r.event.isSome → connected = true) :
      LoopStep s (.receive action connected) ⟨r.flow.phase, r.loop⟩
        (s.loop.scheduler.shows action r.event)
  | timeout (at_head : s.phase = .receiving) : LoopStep s .timeout ⟨.reading, s.loop.miss⟩ []
  | clock {now} (reading : s.phase = .reading) :
      LoopStep s (.clock now)
        { s with phase := .releasing (now + s.loop.scheduler.config.delayPrecision / 2) } []
  | release {index now entry} (releasing : s.phase = .releasing now)
      (popped : s.loop.scheduler.tasks[index]? = some entry)
      (due : s.loop.scheduler.due now = true) (top : s.loop.scheduler.isTop entry = true) :
      LoopStep s (.release index)
        { s with loop := { s.loop with scheduler := { s.loop.scheduler with
          tasks := s.loop.scheduler.tasks.eraseIdx index } } } [.released entry]
  | tick {now} (instant time : Nat) (releasing : s.phase = .releasing now)
      (done : s.loop.scheduler.due now = false) :
      LoopStep s (.tick instant time)
        ⟨if (s.loop.tick instant time).1.quits then .exited else .receiving,
          (s.loop.tick instant time).1⟩ [.ticked (s.loop.tick instant time).2]

theorem LoopState.step_cases {s t : LoopState} {label : LoopLabel} {seen : List Obs}
    (taken : s.step label = some (t, seen)) : LoopStep s label t seen := by
  cases label with
  | receive action connected =>
      simp only [step] at taken
      split at taken
      case isFalse => cases taken
      case isTrue at_head =>
        split at taken
        case h_1 failed =>
          cases taken
          exact .crashed at_head failed
        case h_2 r handled =>
          split at taken
          case isTrue unsent =>
            cases taken
            obtain ⟨event, some_event⟩ := Option.isSome_iff_exists.mp unsent.1
            obtain rfl := unsent.2
            exact .unsent at_head handled some_event
          case isFalse sent =>
            cases taken
            refine .received at_head handled fun some_event => ?_
            exact Bool.eq_true_of_not_eq_false fun lost => sent ⟨some_event, lost⟩
  | timeout =>
      simp only [step] at taken
      split at taken
      case isFalse => cases taken
      case isTrue at_head =>
        cases taken
        exact .timeout at_head
  | clock now =>
      simp only [step] at taken
      split at taken
      case isFalse => cases taken
      case isTrue reading =>
        cases taken
        exact .clock reading
  | release index =>
      simp only [step] at taken
      split at taken
      case h_2 => cases taken
      case h_1 now entry releasing popped =>
        split at taken
        case isFalse => cases taken
        case isTrue top =>
          cases taken
          exact .release releasing popped top.1 top.2
  | tick instant time =>
      simp only [step] at taken
      split at taken
      case h_2 => cases taken
      case h_1 now releasing =>
        split at taken
        case isTrue => cases taken
        case isFalse done =>
          cases taken
          exact .tick instant time releasing (Bool.eq_false_iff.mpr done)

theorem LoopState.step_move {s t : LoopState} {label : LoopLabel} {seen : List Obs}
    (taken : s.step label = some (t, seen)) :
    LoopMove s.phase s.loop.scheduler label t.phase t.loop.scheduler seen := by
  cases LoopState.step_cases taken with
  | crashed at_head failed => exact .crashed at_head s.loop.hit rfl failed
  | unsent at_head handled some_event =>
      have arm := EventLoop.handle_arm handled
      exact .unsent at_head (some_event ▸ arm)
  | received at_head handled sent =>
      have arm := EventLoop.handle_arm handled
      exact .received at_head arm sent
  | timeout at_head => exact .timeout at_head
  | clock reading => exact .clock reading
  | release releasing popped due top => exact .release releasing popped due top
  | tick instant time releasing done =>
      simpa [EventLoop.quits] using LoopMove.tick instant time releasing done

end Uppercut
