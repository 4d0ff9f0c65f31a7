import Uppercut.Core.Reporting
import Uppercut.Core.Shutdown

/-!
# Log lines keep their tags

One sender serves one actor after the other, and yet no line comes under the tag of another
actor, is lost or is sent twice. It is reported at most once, under its own tag.
-/

namespace Uppercut

/-- The entries that stand for a batch in a report: one for each line, in order, with the tag of
the batch and the time and the text of the line. -/
def Attributes (batch : Tag × List Line) (entries : List LoggerEntry) : Prop :=
  List.Forall₂ (fun line entry => entry.meta.tag = batch.1 ∧ entry.at = millis line.1 ∧
    entry.log = line.2) batch.2 entries

theorem reportLogs_attributes (app host : String) (logs : List (Tag × List Line)) :
    ∃ printed, reportLogs app host logs = printed.flatten ∧
      List.Forall₂ Attributes logs printed := by
  refine ⟨logs.map fun batch => batch.2.map fun line =>
    ⟨millis line.1, ⟨host, app, batch.1⟩, line.2⟩, rfl, ?_⟩
  apply List.forall₂_map_right_iff.mpr
  apply List.forall₂_same.mpr
  intro batch _
  apply List.forall₂_map_right_iff.mpr
  apply List.forall₂_same.mpr
  intro line _
  exact ⟨rfl, rfl, rfl⟩

/-- Where the lines are that callbacks have recorded. -/
structure Runtime.LogsKept (s : Runtime) (h : List Obs) (name host : String) : Prop where
  /-- A line is in exactly one batch, or was not flushed yet. -/
  once : ((sentRecords h).flatten ++ unflushed h).Perm (recorded h)
  /-- A batch is sent as one action, with the tag of all its lines. -/
  carried : List.Forall₂ Record.Carried (sentRecords h) (sentBatches h)
  /-- What was not flushed is in the sender of a worker that still serves the instance. -/
  held : ∀ record ∈ unflushed h, ∃ w, s.workers[record.worker]? = some w ∧
    w.stage.instance? = some (record.tag, record.actor) ∧ record.line ∈ w.sender.logs
  /-- Batches are received as they were sent. -/
  received : receivedBatches h <+: sentBatches h
  /-- Those that were received are reported once, in that order, each under its own tag, or the
  event loop still has them. -/
  reported : ∃ done printed, receivedBatches h = done ++ s.loop.loop.logs ∧
    loggedEntries h = reportLogs name host done ∧
    loggedEntries h = printed.flatten ∧ List.Forall₂ Attributes done printed

section Runs

variable {config : SchedulerConfig} {name host : String} {start : Nat} {s : Runtime}
variable {allowed : Runtime → List Obs → Label → Prop} {h : List Obs}

theorem runtime_received (run : (runtimeMachine config name host start).Run allowed s h) :
    receivedBatches h <+: sentBatches h ∧ receivedMaps h <+: sentMaps h := by
  obtain ⟨rest, split, _⟩ := runtime_actions run
  constructor
  · rw [sentBatches, split, List.filterMap_append]
    exact List.prefix_append _ _
  · rw [sentMaps, split, List.filterMap_append]
    exact List.prefix_append _ _

theorem runtime_reported (run : (runtimeMachine config name host start).Run allowed s h) :
    ∃ done printed, receivedBatches h = done ++ s.loop.loop.logs ∧
      loggedEntries h = reportLogs name host done ∧
      loggedEntries h = printed.flatten ∧ List.Forall₂ Attributes done printed := by
  obtain ⟨_, _, done, received, shown⟩ := loop_logs (runtime_loop run)
  obtain ⟨batches, _, entries, _⟩ := ofLoop_reports h
  rw [batches] at received
  rw [entries] at shown
  obtain ⟨printed, same, tagged⟩ := reportLogs_attributes name host done
  exact ⟨done, printed, received, shown, shown.trans same, tagged⟩

/-- A line is recorded by the callback that a worker is running. -/
theorem Transition.logs {t : Runtime} {label : Label} {seen : List Obs} {i : Nat} {tag : Tag}
    {actor : Actor} {line : Line} (transition : Transition s label t seen)
    (logged : Obs.logged i tag actor line ∈ seen) :
    ∃ w callback, s.workers[i]? = some w ∧ w.stage.callback? = some (tag, actor, callback) := by
  cases transition with
  | @recorded index call now w tag' actor' callback sender known busy =>
      cases call <;> simp only [Runtime.recordObs, List.mem_singleton, List.not_mem_nil,
        reduceCtorEq] at logged
      cases logged
      exact ⟨w, callback, known, busy⟩
  | worker _ move => cases move <;> simp at logged
  | loop _ taken | crashed _ taken =>
      exact absurd rfl ((LoopState.step_move taken).shown _ logged)
  | posted | unposted | dropped | announced | unannounced | drained | finished => simp at logged

/-- The workers that record are those of the runtime. -/
theorem recorded_lt (run : (runtimeMachine config name host start).Run allowed s h) :
    ∀ record ∈ recorded h, record.worker < s.workers.length := by
  rw [runtime_threads run]
  induction run with
  | start => nofun
  | @step s t h label seen before _ taken ih =>
      intro record mem
      rw [recorded, logSteps_append, Spool.items, List.filterMap_append] at mem
      obtain old | new := List.mem_append.mp mem
      · exact ih record old
      obtain ⟨step, shown, same⟩ := List.mem_filterMap.mp new
      obtain ⟨x, seen_x, kind⟩ := List.mem_filterMap.mp shown
      cases x with
      | logged i tag actor line =>
          cases kind
          cases same
          obtain ⟨w, _, known, _⟩ := (Runtime.step_transition taken).logs seen_x
          rw [← runtime_threads before]
          exact (List.getElem?_eq_some_iff.mp known).1
      | flushed i action =>
          cases action <;> cases kind
          cases same
      | _ => cases kind

/-- When no callback unwinds a worker loop, none of them ends with lines in its sender. -/
theorem steady_records (run : (runtimeMachine config name host start).Run Runtime.Steady s h)
    {i : Nat} {w : Worker} (here : s.workers[i]? = some w) : w.Holds i h := by
  refine (@worker_invariant s i config name host start Runtime.Steady h
    (fun w h => w.Tidy ∧ w.Holds i h) ?_ ?_ ?_ ?_ run w here).2
  · exact ⟨⟨nofun, fun _ _ => ⟨rfl, rfl⟩⟩, rfl⟩
  · rintro w h seen ⟨tidy, holds⟩ silent
    exact ⟨tidy, holds.silent silent⟩
  · rintro w h tag actor callback now call sender ⟨tidy, holds⟩ busy stays
    exact ⟨tidy.record busy stays, holds.record tidy busy stays⟩
  · rintro s h w wl input v output seen before kept known ⟨tidy, holds⟩ move hung
    have connects := runtime_connected before (Transition.connected_of_known known move.running)
    obtain ⟨unwound, ends⟩ := move.steady known kept hung connects
    refine ⟨move.tidy tidy, holds.move move tidy ?_⟩
    cases stage : v.stage with
    | exited => exact .inr (ends stage)
    | panicked => exact absurd stage unwound
    | _ => exact .inl rfl

/-- **Attribution.** In every run in which neither `on_fail` nor `on_stop` panics, log lines are
neither lost nor doubled, and keep their tags. -/
theorem logs_attributed (run : (runtimeMachine config name host start).Run Runtime.Steady s h) :
    s.LogsKept h name host where
  once := Spool.batches_perm (logSteps h)
  carried := runtime_carried run
  held := by
    intro record mem
    have known : record ∈ recorded h :=
      (Spool.batches_perm (logSteps h)).subset (List.mem_append_right _ mem)
    have here := List.getElem?_eq_getElem (recorded_lt run record known)
    have holds : (unflushed h).filter (fun other => other.worker = record.worker) =
        Worker.records record.worker _ := steady_records run here
    refine ⟨_, here, ?_⟩
    have mine : record ∈ Worker.records record.worker _ :=
      holds ▸ List.mem_filter.mpr ⟨mem, by simp⟩
    exact (runtime_tidy run here).served mine
  received := (runtime_received run).1
  reported := runtime_reported run

end Runs

/-- One worker serves two actors. The second one panics after it has logged, and the event loop
reports the lines of both. -/
def mixed : List Label :=
  [Label.call 0 (.spawn "a") 0] ++ turn (.spawn "a" ⟨0⟩) ++
  [Label.call 0 (.spawn "b") 0] ++ turn (.spawn "b" ⟨1⟩) ++
  [Label.call 0 (.send "a" (.of (.other 7))) 0] ++ turn (.queue "a" (letter 2 7)) ++
  [Label.call 0 (.send "b" (.of (.other 8))) 0] ++ turn (.queue "b" (letter 3 8)) ++
  [Label.worker 0 .take, .worker 0 (.call (.log "one") 5), .worker 0 (.finish true),
    .worker 0 .advance, .worker 0 .advance, .worker 0 .advance,
    .worker 0 .take, .worker 0 (.call (.log "two") 6), .worker 0 (.finish false),
    .worker 0 (.call (.log "three") 7), .worker 0 (.finish true), .worker 0 .advance,
    .worker 0 .advance] ++
  turn (.return "a" ⟨0⟩ true) ++ turn (.logs "a" [(5, "one")]) ++
  [Label.loop (.receive (.return "b" ⟨1⟩ false) true)] ++
  turn (.logs "b" [(6, "two"), (7, "three")])

theorem logs_attributed_mixed :
    ∃ s h, (runtimeMachine { SchedulerConfig.default with
        actorWorkerThreads := 1, metricReportingInterval := 0 } "app" "host" 0).Run
          Runtime.Steady s h ∧
      loggedEntries h = [⟨0, ⟨"host", "app", "a"⟩, "one"⟩, ⟨0, ⟨"host", "app", "b"⟩, "two"⟩,
        ⟨0, ⟨"host", "app", "b"⟩, "three"⟩] ∧
      sentBatches h = [("a", [(5, "one")]), ("b", [(6, "two"), (7, "three")])] ∧
      s.LogsKept h "app" "host" := by
  have run := Machine.run_replay
    (runtimeMachine { SchedulerConfig.default with
      actorWorkerThreads := 1, metricReportingInterval := 0 } "app" "host" 0)
    Runtime.Steady mixed (by decide)
  exact ⟨_, _, run, by decide, by decide, logs_attributed run⟩

end Uppercut
