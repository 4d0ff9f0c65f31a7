import Uppercut.Config
import Uppercut.Core.Action
import Uppercut.Data.Table

/-!
# The scheduler and one pass of the event loop

`EventLoop` holds the local variables of `event_loop`, `Scheduler` is the struct
of the same name. `EventLoop.handle` is the `match action` of the loop: it answers
with the new locals, the event that is sent on `events_tx` (every arm sends at most
one) and where control goes next. A failed `unwrap` on one of the loop's own maps is
`none`.
-/

namespace Uppercut

structure Scheduler where
  config : SchedulerConfig
  actors : Table Tag Actor
  queue : Table Tag (List Envelope)
  tasks : List Entry
  active : Finset Tag

namespace Scheduler

def withConfig (config : SchedulerConfig) : Scheduler where
  config := config
  actors := Table.empty
  queue := Table.empty
  tasks := []
  active := ∅

/-- A binary heap only promises that its top is some maximal entry. -/
def isTop (s : Scheduler) (entry : Entry) : Bool :=
  s.tasks.all fun other => other.cmp entry != .gt

/-- Which maximal entry `peek` shows does not matter: they agree on `at`. -/
def peek (s : Scheduler) : Option Entry := s.tasks.find? s.isTop

/-- The condition of the release loop. -/
def due (s : Scheduler) (now : Nat) : Bool :=
  match s.peek with
  | some entry => entry.at ≤ now
  | none => false

/-- What is accepted when an action is received: a spawn of a tag that is not active,
a stop of a tag that is. -/
def accepts (s : Scheduler) : Action → List Obs
  | .spawn tag actor => if tag ∉ s.active then [.spawned tag actor] else []
  | .stop tag => if tag ∈ s.active then [.stopped tag] else []
  | _ => []

end Scheduler

/-- The local variables of `event_loop`. -/
structure EventLoop where
  name : String
  host : String
  scheduler : Scheduler
  schedulerMetrics : SchedulerMetrics
  start : Nat
  logs : List (Tag × List Line)
  metrics : Metrics
  timeoutMillis : Nat

/-- Where control goes after the `match`: on to the rest of the iteration, back to
the head of the loop, or out of it. -/
inductive Flow where
  | next
  | «continue»
  | «break»
  deriving DecidableEq

structure Handled where
  loop : EventLoop
  event : Option Event
  flow : Flow

/-- Milliseconds since the epoch, `as u64`. -/
def millis (time : Nat) : Nat := time / 1000000 % 2 ^ 64

/-- The entries that `report_logs` prints. -/
def reportLogs (app host : String) (logs : List (Tag × List Line)) : List LoggerEntry :=
  logs.flatMap fun (tag, lines) => lines.map fun (st, msg) =>
    { «at» := millis st, «meta» := { host := host, app := app, tag := tag }, log := msg }

/-- The entries that `report_metrics` prints. -/
def reportMetrics (app host : String) (metrics : Metrics) : List MetricEntry :=
  metrics.flatMap fun (tag, entries) => entries.map fun (st, val) =>
    { «at» := millis st, «meta» := { host := host, app := app, tag := tag }, val := val }

namespace EventLoop

/-- The locals before the first iteration. -/
def init (config : SchedulerConfig) (name host : String) (start : Nat) : EventLoop where
  name := name
  host := host
  scheduler := Scheduler.withConfig config
  schedulerMetrics := SchedulerMetrics.named name
  start := start
  logs := []
  metrics := []
  timeoutMillis := 256

/-- The last arm of the `match`: the action is dropped. -/
def drop (l : EventLoop) : Handled where
  loop := { l with schedulerMetrics :=
    { l.schedulerMetrics with drops := l.schedulerMetrics.drops + 1 } }
  event := none
  flow := .next

/-- The `match action` of the event loop. -/
def handle (l : EventLoop) (action : Action) : Option Handled :=
  let s := l.scheduler
  let m := l.schedulerMetrics
  match action with
  | .return tag actor ok =>
      if tag ∈ s.active then
        if !ok then
          let m := { m with failures := m.failures + 1 }
          let s := { s with active := s.active.erase tag, queue := s.queue.remove tag }
          some ⟨{ l with scheduler := s, schedulerMetrics := m }, none, .continue⟩
        else
          let m := { m with returns := m.returns + 1 }
          match s.queue tag with
          | none => none
          | some (envelope :: mailbox) =>
              let s := { s with queue := s.queue.insert tag mailbox }
              some ⟨{ l with scheduler := s, schedulerMetrics := m },
                some (.mail tag actor envelope), .next⟩
          | some [] =>
              let s := { s with actors := s.actors.insert tag actor }
              some ⟨{ l with scheduler := s, schedulerMetrics := m }, none, .next⟩
      else
        -- Returned actor was stopped before (removed from active set).
        let s := { s with queue := s.queue.remove tag }
        some ⟨{ l with scheduler := s }, if ok then some (.stop tag actor) else none, .next⟩
  | .queue tag envelope =>
      if tag ∈ s.active then
        let m := { m with queues := m.queues + 1, messages := m.messages + 1 }
        match s.queue tag with
        | none => none
        | some mailbox =>
            match s.actors tag with
            | some actor =>
                match mailbox ++ [envelope] with
                | [] => none
                | front :: rest =>
                    let s := { s with
                      actors := s.actors.remove tag
                      queue := s.queue.insert tag rest }
                    some ⟨{ l with scheduler := s, schedulerMetrics := m },
                      some (.mail tag actor front), .next⟩
            | none =>
                let s := { s with queue := s.queue.insert tag (mailbox ++ [envelope]) }
                some ⟨{ l with scheduler := s, schedulerMetrics := m }, none, .next⟩
      else some l.drop
  | .spawn tag actor =>
      if tag ∉ s.active then
        let m := { m with spawns := m.spawns + 1 }
        let s := { s with
          active := insert tag s.active
          actors := s.actors.insert tag actor
          queue := s.queue.insert tag [] }
        some ⟨{ l with scheduler := s, schedulerMetrics := m }, none, .next⟩
      else some l.drop
  | .delay entry =>
      let m := { m with delays := m.delays + 1 }
      let s := { s with tasks := s.tasks ++ [entry] }
      some ⟨{ l with scheduler := s, schedulerMetrics := m }, none, .next⟩
  | .stop tag =>
      if tag ∈ s.active then
        let m := { m with stops := m.stops + 1 }
        let s := { s with active := s.active.erase tag, queue := s.queue.remove tag }
        match s.actors tag with
        | some actor =>
            let s := { s with actors := s.actors.remove tag }
            some ⟨{ l with scheduler := s, schedulerMetrics := m },
              some (.stop tag actor), .next⟩
        | none => some ⟨{ l with scheduler := s, schedulerMetrics := m }, none, .next⟩
      else some l.drop
  | .logs tag entries => some ⟨{ l with logs := l.logs ++ [(tag, entries)] }, none, .next⟩
  | .metrics map => some ⟨{ l with metrics := l.metrics.merge map }, none, .next⟩
  | .shutdown => some ⟨l, none, .break⟩

/-- The bookkeeping of a received action, before the `match`. -/
def hit (l : EventLoop) : EventLoop :=
  { l with
    timeoutMillis := max 1 (l.timeoutMillis / 2)
    schedulerMetrics := { l.schedulerMetrics with hit := l.schedulerMetrics.hit + 1 } }

/-- The bookkeeping of a timeout. -/
def miss (l : EventLoop) : EventLoop :=
  { l with
    timeoutMillis := min (l.timeoutMillis * 2) 256
    schedulerMetrics := { l.schedulerMetrics with miss := l.schedulerMetrics.miss + 1 } }

/-- The end of an iteration: count the tick and report when the interval is over. -/
def tick (l : EventLoop) (instant time : Nat) : EventLoop × List Report :=
  let m := { l.schedulerMetrics with ticks := l.schedulerMetrics.ticks + 1 }
  if l.scheduler.config.metricReportingInterval ≤ instant - l.start then
    let m := { m with «at» := millis time, actors := l.scheduler.active.card }
    let l := { l with start := instant }
    let (l, measured) :=
      if l.scheduler.config.metricReportingEnabled then
        ({ l with schedulerMetrics := m.reset, metrics := [] },
          [Report.metrics m (reportMetrics l.name l.host l.metrics)])
      else ({ l with schedulerMetrics := m }, [])
    if l.scheduler.config.loggingEnabled then
      ({ l with logs := [] }, measured ++ [.logs (reportLogs l.name l.host l.logs)])
    else (l, measured)
  else ({ l with schedulerMetrics := m }, [])

/-- The check that ends the loop eagerly. -/
def quits (l : EventLoop) : Bool :=
  l.scheduler.config.eagerShutdownEnabled && decide (l.scheduler.active = ∅)

end EventLoop
end Uppercut
