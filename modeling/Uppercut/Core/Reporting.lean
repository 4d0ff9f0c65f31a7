import Uppercut.Core.Batches

/-!
# What the event loop reports

The event loop collects the log batches that it receives and merges the metrics. When the
reporting interval is over it moves what it has collected to the background threads.
-/

namespace Uppercut

/-- The log batches that were received. -/
def receivedBatches (h : List Obs) : List (Tag × List Line) :=
  (intake h).filterMap Action.batch?

/-- The metrics that were received. -/
def receivedMaps (h : List Obs) : List Metrics := (intake h).filterMap Action.map?

def Report.logEntries : Report → List LoggerEntry
  | .logs entries => entries
  | .metrics _ _ => []

def Report.metricEntries : Report → List MetricEntry
  | .logs _ => []
  | .metrics _ entries => entries

/-- The entries that `report_logs` printed. -/
def loggedEntries : List Obs → List LoggerEntry := List.flatMap fun
  | .ticked reports => reports.flatMap Report.logEntries
  | _ => []

/-- The entries that `report_metrics` printed. -/
def measuredEntries : List Obs → List MetricEntry := List.flatMap fun
  | .ticked reports => reports.flatMap Report.metricEntries
  | _ => []

theorem EventLoop.handle_collects {l : EventLoop} {action : Action} {r : Handled}
    (handled : l.handle action = some r) :
    r.loop.logs = l.logs ++ action.batch?.toList ∧
      r.loop.metrics = action.map?.toList.foldl Metrics.merge l.metrics ∧
      r.loop.name = l.name ∧ r.loop.host = l.host := by
  cases action with
  | logs | metrics | delay | shutdown => cases handled; simp [Action.batch?, Action.map?]
  | _ =>
      simp only [handle] at handled
      repeat' split at handled
      all_goals cases handled
      all_goals simp [Action.batch?, Action.map?, drop]

/-- What a tick moves to the background threads is gone from the loop. -/
theorem EventLoop.tick_reports (l : EventLoop) (instant time : Nat) :
    (∃ done, l.logs = done ++ (l.tick instant time).1.logs ∧
      (l.tick instant time).2.flatMap Report.logEntries = reportLogs l.name l.host done) ∧
    ((l.tick instant time).1.metrics = l.metrics ∧
        (l.tick instant time).2.flatMap Report.metricEntries = [] ∨
      (l.tick instant time).1.metrics = [] ∧
        (l.tick instant time).2.flatMap Report.metricEntries =
          reportMetrics l.name l.host l.metrics) ∧
    (l.tick instant time).1.name = l.name ∧ (l.tick instant time).1.host = l.host := by
  by_cases elapsed : l.scheduler.config.metricReportingInterval ≤ instant - l.start
  case neg =>
    simp only [tick, elapsed, if_false, and_true]
    exact ⟨⟨[], rfl, rfl⟩, .inl ⟨trivial, rfl⟩⟩
  cases measuring : l.scheduler.config.metricReportingEnabled <;>
    cases logging : l.scheduler.config.loggingEnabled <;>
    simp only [tick, elapsed, measuring, logging, if_true, Bool.false_eq_true, if_false, and_true]
  · exact ⟨⟨[], rfl, rfl⟩, .inl ⟨trivial, rfl⟩⟩
  · exact ⟨⟨l.logs, (List.append_nil _).symm, List.append_nil _⟩, .inl ⟨trivial, rfl⟩⟩
  · exact ⟨⟨[], rfl, rfl⟩, .inr ⟨trivial, List.append_nil _⟩⟩
  · exact ⟨⟨l.logs, (List.append_nil _).symm, List.append_nil _⟩,
      .inr ⟨trivial, List.append_nil _⟩⟩

/-- A received action is shown as received, and prints nothing. -/
theorem shows_action (s : Scheduler) (action : Action) (event : Option Event) :
    receivedBatches (s.shows action event) = action.batch?.toList ∧
      receivedMaps (s.shows action event) = action.map?.toList ∧
      loggedEntries (s.shows action event) = [] ∧ measuredEntries (s.shows action event) = [] := by
  have received : intake (s.shows action event) = [action] := by
    rw [intake, s.shows_filterMap action event _ (fun _ _ => rfl) fun _ => rfl]
    cases event <;> rfl
  have accepts (x : Obs) (mem : x ∈ s.shows action event) (reports : List Report) :
      x ≠ .ticked reports := by
    rintro rfl
    cases event <;> simp [Scheduler.mem_accepts] at mem
  refine ⟨?_, ?_, ?_, ?_⟩
  · rw [receivedBatches, received]
    cases action <;> rfl
  · rw [receivedMaps, received]
    cases action <;> rfl
  · apply List.flatMap_eq_nil_iff.mpr
    intro x mem
    cases x with
    | ticked reports => exact absurd rfl (accepts _ mem reports)
    | _ => rfl
  · apply List.flatMap_eq_nil_iff.mpr
    intro x mem
    cases x with
    | ticked reports => exact absurd rfl (accepts _ mem reports)
    | _ => rfl

/-- What one step of the event loop does with batches and metrics. -/
theorem LoopState.step_reports {s t : LoopState} {label : LoopLabel} {seen : List Obs}
    (taken : s.step label = some (t, seen)) :
    (∃ done, s.loop.logs ++ receivedBatches seen = done ++ t.loop.logs ∧
      loggedEntries seen = reportLogs s.loop.name s.loop.host done) ∧
    (t.loop.metrics = (receivedMaps seen).foldl Metrics.merge s.loop.metrics ∧
        measuredEntries seen = [] ∨
      t.loop.metrics = [] ∧ receivedMaps seen = [] ∧
        measuredEntries seen = reportMetrics s.loop.name s.loop.host s.loop.metrics) ∧
    t.loop.name = s.loop.name ∧ t.loop.host = s.loop.host := by
  cases LoopState.step_cases taken with
  | crashed | unsent | timeout | clock | release =>
      exact ⟨⟨[], List.append_nil _, rfl⟩, .inl ⟨rfl, rfl⟩, rfl, rfl⟩
  | @received action _ r _ handled =>
      obtain ⟨logs, metrics, name, host⟩ := EventLoop.handle_collects handled
      obtain ⟨batches, maps, logged, measured⟩ := shows_action s.loop.scheduler action r.event
      refine ⟨⟨[], ?_, logged⟩, .inl ⟨?_, measured⟩, name, host⟩
      · rw [batches]
        exact logs.symm
      · rw [maps]
        exact metrics
  | tick instant time =>
      obtain ⟨⟨done, split, printed⟩, metrics, name, host⟩ := s.loop.tick_reports instant time
      refine ⟨⟨done, ?_, ?_⟩, ?_, name, host⟩
      · exact (List.append_nil _).trans split
      · exact (List.append_nil _).trans printed
      · obtain ⟨kept, silent⟩ | ⟨gone, measured⟩ := metrics
        · exact .inl ⟨kept, (List.append_nil _).trans silent⟩
        · exact .inr ⟨gone, rfl, (List.append_nil _).trans measured⟩

section Append

variable (h k : List Obs)

@[simp] theorem receivedBatches_append :
    receivedBatches (h ++ k) = receivedBatches h ++ receivedBatches k := by
  rw [receivedBatches, intake_append, List.filterMap_append, receivedBatches, receivedBatches]

@[simp] theorem receivedMaps_append : receivedMaps (h ++ k) = receivedMaps h ++ receivedMaps k := by
  rw [receivedMaps, intake_append, List.filterMap_append, receivedMaps, receivedMaps]

@[simp] theorem loggedEntries_append :
    loggedEntries (h ++ k) = loggedEntries h ++ loggedEntries k := List.flatMap_append

@[simp] theorem measuredEntries_append :
    measuredEntries (h ++ k) = measuredEntries h ++ measuredEntries k := List.flatMap_append

omit h k in
theorem ofLoop_eq {x y : Obs} (same : x.ofLoop = some y) : y = x := by
  cases x with
  | emitted event => cases event <;> cases same <;> rfl
  | _ => cases same <;> rfl

theorem flatMap_ofLoop {β : Type} {f : Obs → List β} (only : ∀ x, x.ofLoop = none → f x = []) :
    (h.filterMap Obs.ofLoop).flatMap f = h.flatMap f := by
  induction h with
  | nil => rfl
  | cons x h ih =>
      cases shown : x.ofLoop with
      | none => rw [List.filterMap_cons_none shown, List.flatMap_cons, only x shown, ih]; rfl
      | some y =>
          obtain rfl := ofLoop_eq shown
          rw [List.filterMap_cons_some shown, List.flatMap_cons, List.flatMap_cons, ih]

/-- Only what the event loop shows is about reports. -/
theorem ofLoop_reports : receivedBatches (h.filterMap Obs.ofLoop) = receivedBatches h ∧
    receivedMaps (h.filterMap Obs.ofLoop) = receivedMaps h ∧
    loggedEntries (h.filterMap Obs.ofLoop) = loggedEntries h ∧
    measuredEntries (h.filterMap Obs.ofLoop) = measuredEntries h := by
  refine ⟨?_, ?_, ?_, ?_⟩
  · rw [receivedBatches, intake_ofLoop, receivedBatches]
  · rw [receivedMaps, intake_ofLoop, receivedMaps]
  · apply flatMap_ofLoop
    intro x none
    cases x <;> first | rfl | cases none
  · apply flatMap_ofLoop
    intro x none
    cases x <;> first | rfl | cases none

end Append

/-- The log batches that were received have been reported, or the event loop still has them. -/
theorem loop_logs {config : SchedulerConfig} {name host : String} {start : Nat} {s : LoopState}
    {h : List Obs} (run : (loopMachine config name host start).Reached s h) :
    s.loop.name = name ∧ s.loop.host = host ∧ ∃ done,
      receivedBatches h = done ++ s.loop.logs ∧ loggedEntries h = reportLogs name host done := by
  induction run with
  | start => exact ⟨rfl, rfl, [], rfl, rfl⟩
  | @step s t h label seen _ _ taken ih =>
      obtain ⟨rfl, rfl, done, received, printed⟩ := ih
      obtain ⟨⟨more, split, new⟩, _, name, host⟩ := LoopState.step_reports taken
      refine ⟨name, host, done ++ more, ?_, ?_⟩
      · rw [receivedBatches_append, received, List.append_assoc, split, List.append_assoc]
      · rw [loggedEntries_append, printed, new, reportLogs, reportLogs, reportLogs,
          List.flatMap_append]

/-- The metrics that were received have been reported group by group, or the event loop has
merged them. -/
theorem loop_metrics {config : SchedulerConfig} {name host : String} {start : Nat}
    {s : LoopState} {h : List Obs} (run : (loopMachine config name host start).Reached s h) :
    ∃ (groups : List (List Metrics)) (rest : List Metrics),
      receivedMaps h = groups.flatten ++ rest ∧
      s.loop.metrics = rest.foldl Metrics.merge [] ∧
      measuredEntries h = groups.flatMap fun maps =>
        reportMetrics name host (maps.foldl Metrics.merge []) := by
  induction run with
  | start => exact ⟨[], [], rfl, rfl, rfl⟩
  | @step s t h label seen before _ taken ih =>
      obtain ⟨groups, rest, received, merged, printed⟩ := ih
      obtain ⟨name, host, _⟩ := loop_logs before
      obtain ⟨_, ⟨kept, silent⟩ | ⟨gone, none, new⟩, _⟩ := LoopState.step_reports taken
      · refine ⟨groups, rest ++ receivedMaps seen, ?_, ?_, ?_⟩
        · rw [receivedMaps_append, received, List.append_assoc]
        · rw [kept, merged, List.foldl_append]
        · rw [measuredEntries_append, silent, List.append_nil, printed]
      · refine ⟨groups ++ [rest], [], ?_, gone, ?_⟩
        · rw [receivedMaps_append, none, received, List.flatten_append]
          simp
        · rw [measuredEntries_append, new, printed, name, host, merged, List.flatMap_append]
          simp

end Uppercut
