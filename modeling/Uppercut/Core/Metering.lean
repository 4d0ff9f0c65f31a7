import Uppercut.Core.Isolation
import Uppercut.Core.Mailbox
import Uppercut.Data.Tally
import Uppercut.Machine.History

/-!
# What the scheduler counts

The event loop counts what it does in `SchedulerMetrics`. When the reporting interval is over, it
reports the counters and sets them back. So what was done is found in the reports together with the
counters that run, once each.
-/

namespace Uppercut

/-- The counters of `SchedulerMetrics`. -/
inductive Dial where
  | ticks | miss | hit | messages | queues | returns | spawns | delays | stops | drops | failures
  deriving DecidableEq

namespace Dial

def get : Dial → SchedulerMetrics → Nat
  | ticks, m => m.ticks
  | miss, m => m.miss
  | hit, m => m.hit
  | messages, m => m.messages
  | queues, m => m.queues
  | returns, m => m.returns
  | spawns, m => m.spawns
  | delays, m => m.delays
  | stops, m => m.stops
  | drops, m => m.drops
  | failures, m => m.failures

@[simp] theorem get_reset (d : Dial) (m : SchedulerMetrics) : d.get m.reset = 0 := by
  cases d <;> rfl

@[simp] theorem get_stamped (d : Dial) (m : SchedulerMetrics) («at» actors : Nat) :
    d.get { m with «at» := «at», actors := actors } = d.get m := by
  cases d <;> rfl

end Dial

/-- What the `match` counts for an action, when the tags in `active` are active. -/
def Action.dials (active : Finset Tag) : Action → List Dial
  | .return tag _ ok => if tag ∈ active then [if ok then .returns else .failures] else []
  | .queue tag _ => if tag ∈ active then [.queues, .messages] else [.drops]
  | .spawn tag _ => if tag ∈ active then [.drops] else [.spawns]
  | .delay _ => [.delays]
  | .stop tag => if tag ∈ active then [.stops] else [.drops]
  | .logs _ _ | .metrics _ | .shutdown => []

/-- The active tags, as what was seen tells them. -/
def Obs.alters (active : Finset Tag) : Obs → Finset Tag
  | .spawned tag _ => insert tag active
  | .stopped tag | .received (.return tag _ false) => active.erase tag
  | _ => active

def standing (h : List Obs) : Finset Tag := h.foldl Obs.alters ∅

/-- What one step of the event loop counts, when the tags in `active` are active. -/
def dialled (active : Finset Tag) : LoopLabel × List Obs → List Dial
  | (.receive action _, _ :: _) => .hit :: action.dials active
  | (.timeout, _) => [.miss]
  | (.tick _ _, _) => [.ticks]
  | _ => []

/-- All that is counted in a run. -/
def dials (k : List (LoopLabel × List Obs)) : List Dial :=
  History.gather (fun before => dialled (standing (before.flatMap Prod.snd))) k

/-- The loop has received or timed out, and its tick is still to come. -/
def Phase.inside : Phase → Nat
  | .reading | .releasing _ => 1
  | .receiving | .exited | .panicked => 0

def Report.scheduler? : Report → Option SchedulerMetrics
  | .metrics scheduler _ => some scheduler
  | .logs _ => none

/-- The counters that were reported. -/
def reported : List Obs → List SchedulerMetrics := List.flatMap fun
  | .ticked reports => reports.filterMap Report.scheduler?
  | _ => []

@[simp] theorem reported_append (h k : List Obs) : reported (h ++ k) = reported h ++ reported k :=
  List.flatMap_append

section Step

variable {l : EventLoop} {s s' : Scheduler} {action : Action} {event : Option Event} {flow : Flow}

theorem EventLoop.handle_dials {r : Handled} (handled : l.handle action = some r) (d : Dial) :
    d.get r.loop.schedulerMetrics =
      d.get l.schedulerMetrics + (action.dials l.scheduler.active).count d := by
  cases action with
  | «return» tag actor ok =>
      by_cases active : tag ∈ l.scheduler.active <;> cases ok <;>
        simp only [handle, active, if_true, if_false, Bool.not_true, Bool.not_false,
          Bool.false_eq_true] at handled
      case pos.true =>
        split at handled <;> cases handled <;> cases d <;> simp [Dial.get, Action.dials, active]
      all_goals cases handled
      all_goals cases d <;> simp [Dial.get, Action.dials, active]
  | queue tag envelope =>
      by_cases active : tag ∈ l.scheduler.active <;>
        simp only [handle, active, if_true, if_false] at handled
      · repeat' split at handled
        all_goals cases handled
        all_goals cases d <;> simp [Dial.get, Action.dials, active]
      · cases handled
        cases d <;> simp [Dial.get, Action.dials, active, drop]
  | spawn tag actor =>
      by_cases active : tag ∈ l.scheduler.active <;>
        simp only [handle, active, not_true, not_false_iff, if_true, if_false] at handled <;>
        cases handled <;> cases d <;> simp [Dial.get, Action.dials, active, drop]
  | stop tag =>
      by_cases active : tag ∈ l.scheduler.active <;>
        simp only [handle, active, if_true, if_false] at handled
      · split at handled <;> cases handled <;> cases d <;> simp [Dial.get, Action.dials, active]
      · cases handled
        cases d <;> simp [Dial.get, Action.dials, active, drop]
  | delay | logs | metrics | shutdown =>
      cases handled
      cases d <;> simp [Dial.get, Action.dials]

/-- A tick is counted, and the counters that are set back are reported. -/
theorem EventLoop.tick_dials (l : EventLoop) (instant time : Nat) (d : Dial) :
    d.get (l.tick instant time).1.schedulerMetrics +
        Tally.total d.get ((l.tick instant time).2.filterMap Report.scheduler?) =
      d.get l.schedulerMetrics + [Dial.ticks].count d := by
  have counted («at» actors : Nat) : d.get { l.schedulerMetrics with
      ticks := l.schedulerMetrics.ticks + 1, «at» := «at», actors := actors } =
        d.get l.schedulerMetrics + [Dial.ticks].count d := by
    cases d <;> simp [Dial.get]
  by_cases elapsed : l.scheduler.config.metricReportingInterval ≤ instant - l.start
  case neg =>
    simp only [tick, elapsed, if_false, List.filterMap_nil, Tally.total_nil]
    exact counted _ _
  cases measuring : l.scheduler.config.metricReportingEnabled <;>
    cases logging : l.scheduler.config.loggingEnabled <;>
    simp [tick, elapsed, measuring, logging, List.filterMap_cons, Report.scheduler?, counted]

/-- An arm makes the tags active that it shows. -/
theorem Arm.standing (arm : Arm s action s' event flow) :
    (s.shows action event).foldl Obs.alters s.active = s'.active := by
  cases arm <;> simp [Scheduler.accepts, Obs.alters, *]

/-- An arm counts who comes and who goes. -/
theorem Arm.dials_card (arm : Arm s action s' event flow) :
    s'.active.card + (action.dials s.active).count .stops +
        (action.dials s.active).count .failures =
      s.active.card + (action.dials s.active).count .spawns := by
  have removed {tag : Tag} (active : tag ∈ s.active) : (s.active.erase tag).card + 1 =
      s.active.card := Finset.card_erase_add_one active
  cases arm <;> simp [Action.dials, -Finset.card_erase_of_mem, *]

/-- What does not go on to the tick is a failed return or the shutdown. -/
theorem Arm.dials_flow (arm : Arm s action s' event flow) :
    (action.dials s.active).count .failures + [action].count .shutdown + flow.phase.inside = 1 := by
  cases arm <;> simp [Action.dials, Flow.phase, Phase.inside, *]

end Step

theorem reported_shows (s : Scheduler) (action : Action) (event : Option Event) :
    reported (s.shows action event) = [] := by
  rw [reported, s.shows_flatMap action event _ (fun _ _ => rfl) fun _ => rfl]
  cases event <;> rfl

/-- The `match` leaves the counters of the iteration alone. -/
theorem Action.dials_none (active : Finset Tag) (action : Action) {d : Dial}
    (outer : d = .hit ∨ d = .miss ∨ d = .ticks) : (action.dials active).count d = 0 := by
  rw [List.count_eq_zero]
  obtain rfl | rfl | rfl := outer <;> cases action <;> simp only [dials] <;>
    first | exact List.not_mem_nil | (repeat' split) <;> decide

section Moves

variable {s t : LoopState} {label : LoopLabel} {seen : List Obs}

/-- What the steps of the event loop do to the counters and the active tags. -/
theorem LoopStep.metered (step : LoopStep s label t seen) :
    (∀ d : Dial, d.get t.loop.schedulerMetrics + Tally.total d.get (reported seen) =
        d.get s.loop.schedulerMetrics +
          (dialled s.loop.scheduler.active (label, seen)).count d) ∧
    seen.foldl Obs.alters s.loop.scheduler.active = t.loop.scheduler.active := by
  cases step with
  | crashed | unsent | clock | release => exact ⟨fun d => rfl, rfl⟩
  | timeout =>
      refine ⟨fun d => ?_, rfl⟩
      cases d <;> simp [Dial.get, EventLoop.miss, dialled, reported]
  | @received action _ r _ handled =>
      have arm := EventLoop.handle_arm handled
      refine ⟨fun d => ?_, arm.standing⟩
      have counted := EventLoop.handle_dials handled d
      have hit : d.get s.loop.hit.schedulerMetrics =
          d.get s.loop.schedulerMetrics + [Dial.hit].count d := by
        cases d <;> simp [Dial.get, EventLoop.hit]
      rw [reported_shows, Tally.total_nil, counted, hit, Nat.add_zero, Nat.add_assoc]
      exact congrArg _ (List.count_append : ([Dial.hit] ++ _).count d = _).symm
  | tick instant time =>
      refine ⟨fun d => ?_, (s.loop.tick_scheduler instant time ▸ rfl)⟩
      simpa [reported, dialled] using s.loop.tick_dials instant time d

/-- What the steps of the event loop do to the number of active tags and to its phase. -/
theorem LoopStep.balanced (step : LoopStep s label t seen) :
    t.loop.scheduler.active.card +
          (dialled s.loop.scheduler.active (label, seen)).count .stops +
          (dialled s.loop.scheduler.active (label, seen)).count .failures =
        s.loop.scheduler.active.card +
          (dialled s.loop.scheduler.active (label, seen)).count .spawns ∧
      s.phase.inside + (dialled s.loop.scheduler.active (label, seen)).count .hit +
          (dialled s.loop.scheduler.active (label, seen)).count .miss =
        (dialled s.loop.scheduler.active (label, seen)).count .ticks +
          (dialled s.loop.scheduler.active (label, seen)).count .failures +
          (intake seen).count .shutdown + t.phase.inside := by
  cases step with
  | crashed at_head | unsent at_head | timeout at_head =>
      refine ⟨rfl, ?_⟩
      rw [at_head]
      rfl
  | clock reading =>
      refine ⟨rfl, ?_⟩
      rw [reading]
      rfl
  | release releasing =>
      refine ⟨rfl, ?_⟩
      rw [releasing]
      rfl
  | tick instant time releasing =>
      have inside : s.phase.inside = 1 := by rw [releasing]; rfl
      refine ⟨by simp [dialled], ?_⟩
      simp only [inside, dialled]
      split <;> rfl
  | @received action _ r at_head handled =>
      have arm := EventLoop.handle_arm handled
      have cards := arm.dials_card
      have flow := arm.dials_flow
      have outside : s.phase.inside = 0 := by rw [at_head]; rfl
      have plain {d : Dial} (other : Dial.hit ≠ d) :
          (Dial.hit :: action.dials s.loop.scheduler.active).count d =
            (action.dials s.loop.scheduler.active).count d := List.count_cons_of_ne other
      refine ⟨?_, ?_⟩
      · rw [dialled, plain (by decide), plain (by decide), plain (by decide)]
        exact cards
      · rw [intake_shows, outside, dialled, List.count_cons_self, plain (by decide),
          plain (by decide), plain (by decide), Action.dials_none _ _ (.inl rfl),
          Action.dials_none _ _ (.inr (.inl rfl)), Action.dials_none _ _ (.inr (.inr rfl))]
        have same : s.loop.hit.scheduler.active = s.loop.scheduler.active := rfl
        rw [same] at flow
        dsimp only
        omega

/-- Only a tick reports. -/
theorem LoopStep.reports (step : LoopStep s label t seen) :
    reported seen = [] ∨ ∃ instant time, seen = [.ticked (s.loop.tick instant time).2] := by
  cases step with
  | crashed | unsent | timeout | clock | release => exact .inl rfl
  | received => exact .inl (reported_shows ..)
  | tick instant time => exact .inr ⟨instant, time, rfl⟩

end Moves

variable {config : SchedulerConfig} {name host : String} {start : Nat}
variable {s : LoopState} {k : List (LoopLabel × List Obs)}

/-- The active tags are the ones that the history tells. -/
theorem loop_standing (run : (loopMachine config name host start).traced.Reached s k) :
    standing (k.flatMap Prod.snd) = s.loop.scheduler.active := by
  induction run with
  | start => rfl
  | step before _ taken ih =>
      obtain ⟨seen, step, rfl⟩ := Machine.traced_step taken
      rw [List.flatMap_append, List.flatMap_singleton, standing, List.foldl_append, ← standing, ih]
      exact (LoopState.step_cases step).metered.2

theorem dials_concat (k : List (LoopLabel × List Obs)) (x : LoopLabel × List Obs) :
    dials (k ++ [x]) = dials k ++ dialled (standing (k.flatMap Prod.snd)) x := by
  simp [dials]

theorem loop_metered (run : (loopMachine config name host start).traced.Reached s k) (d : Dial) :
    d.get s.loop.schedulerMetrics + Tally.total d.get (reported (k.flatMap Prod.snd)) =
      (dials k).count d := by
  induction run with
  | start => cases d <;> rfl
  | @step s t k label line before _ taken ih =>
      obtain ⟨seen, step, rfl⟩ := Machine.traced_step taken
      have law := (LoopState.step_cases step).metered.1 d
      rw [dials_concat, List.count_append, loop_standing before, ← ih, List.flatMap_append,
        List.flatMap_singleton, reported_append, Tally.total_append]
      dsimp only
      omega

theorem loop_balanced (run : (loopMachine config name host start).traced.Reached s k) :
    s.loop.scheduler.active.card + (dials k).count .stops + (dials k).count .failures =
      (dials k).count .spawns ∧
    (dials k).count .hit + (dials k).count .miss = (dials k).count .ticks +
      (dials k).count .failures + (intake (k.flatMap Prod.snd)).count .shutdown +
        s.phase.inside := by
  induction run with
  | start => exact ⟨rfl, rfl⟩
  | @step s t k label line before _ taken ih =>
      obtain ⟨seen, step, rfl⟩ := Machine.traced_step taken
      obtain ⟨cards, phases⟩ := (LoopState.step_cases step).balanced
      simp only [dials_concat, List.count_append, loop_standing before, List.flatMap_append,
        List.flatMap_singleton, intake_append]
      omega

/-- A report gives the number of active tags. -/
theorem EventLoop.tick_actors (l : EventLoop) (instant time : Nat) :
    ∀ m ∈ (l.tick instant time).2.filterMap Report.scheduler?,
      m.actors = l.scheduler.active.card := by
  intro m mem
  by_cases elapsed : l.scheduler.config.metricReportingInterval ≤ instant - l.start
  case neg => simp [tick, elapsed] at mem
  cases measuring : l.scheduler.config.metricReportingEnabled <;>
    cases logging : l.scheduler.config.loggingEnabled <;>
    simp [tick, elapsed, measuring, logging, List.filterMap_cons, Report.scheduler?] at mem
  all_goals rw [mem]

theorem loop_actors (run : (loopMachine config name host start).traced.Reached s k) :
    History.Always (fun before x => ∀ m ∈ reported [x], m.actors = (standing before).card)
      (k.flatMap Prod.snd) := by
  induction run with
  | start => exact History.always_nil
  | @step s t k label line before _ taken ih =>
      obtain ⟨seen, step, rfl⟩ := Machine.traced_step taken
      rw [List.flatMap_append, List.flatMap_singleton, History.always_append]
      refine ⟨ih, ?_⟩
      obtain none | ⟨instant, time, rfl⟩ := (LoopState.step_cases step).reports
      · rintro front x back rfl m mem
        have more : m ∈ reported (front ++ x :: back) := by
          rw [reported_append, reported, List.flatMap_cons]
          exact List.mem_append_right _ (List.mem_append_left _ (by simpa [reported] using mem))
        rw [none] at more
        cases more
      · rw [History.alwaysFrom_cons, loop_standing before]
        refine ⟨fun m mem => ?_, History.alwaysFrom_nil _⟩
        exact s.loop.tick_actors instant time m (by simpa [reported] using mem)

/-- **The metrics are exact.** In every run of the event loop, each counter, summed over all reports
and the one that runs, is the number of times that its kind of thing happened. Spawns that are
neither stopped nor failed are active. Each pass of the loop is a tick, a failed return or the
shutdown. Each report gives the number of tags that are active then. -/
theorem metrics_exact (run : (loopMachine config name host start).traced.Reached s k) :
    (∀ d : Dial, d.get s.loop.schedulerMetrics +
        Tally.total d.get (reported (k.flatMap Prod.snd)) = (dials k).count d) ∧
    (s.loop.scheduler.active.card + (dials k).count .stops + (dials k).count .failures =
      (dials k).count .spawns) ∧
    ((dials k).count .hit + (dials k).count .miss = (dials k).count .ticks +
      (dials k).count .failures + (intake (k.flatMap Prod.snd)).count .shutdown +
        s.phase.inside) ∧
    History.Always (fun before x => ∀ m ∈ reported [x], m.actors = (standing before).card)
      (k.flatMap Prod.snd) :=
  ⟨loop_metered run, (loop_balanced run).1, (loop_balanced run).2, loop_actors run⟩

/-- An actor is mailed, fails and is reported. -/
def metered : List LoopLabel :=
  [.receive (.spawn "a" ⟨0⟩) true, .clock 0, .tick 0 0, .receive (.queue "a" (.of (.other 1))) true,
    .clock 0, .tick 60000000000 0, .receive (.return "a" ⟨0⟩ false) true, .timeout, .clock 0]

theorem metrics_exact_metered : ∃ s k,
    (loopMachine { SchedulerConfig.default with metricReportingEnabled := true } "app" "host"
        0).traced.Reached s k ∧
      reported (k.flatMap Prod.snd) ≠ [] ∧
      ((dials k).count .hit + (dials k).count .miss = (dials k).count .ticks +
        (dials k).count .failures + (intake (k.flatMap Prod.snd)).count .shutdown +
          s.phase.inside) ∧ (dials k).count .hit = 3 := by
  have run := Machine.run_replay (loopMachine
      { SchedulerConfig.default with metricReportingEnabled := true } "app" "host" 0).traced
    (fun _ _ _ => True) metered (by decide)
  exact ⟨_, _, run, by decide, (metrics_exact run).2.2.1, by decide⟩

end Uppercut
