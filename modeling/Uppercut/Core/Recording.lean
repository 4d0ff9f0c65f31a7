import Uppercut.Core.ActionChannel
import Uppercut.Data.Spool

/-!
# What workers record

A worker lends one `Local` to all the actors that it serves. Lines and samples stay there
until the worker flushes them. The spools tell for each of them which worker recorded it, under
which tag and for which instance; the running system does not know.
-/

namespace Uppercut

/-! ## Workers and their senders -/

def Event.instance? : Event → Option (Tag × Actor)
  | .mail tag actor _ | .stop tag actor => some (tag, actor)
  | .shutdown => none

/-- The instance that a worker serves, until it has flushed what the instance recorded. -/
def Stage.instance? : Stage → Option (Tag × Actor)
  | .receiving tag actor _ | .failing tag actor _ | .returning tag actor _ _
  | .stopping tag actor => some (tag, actor)
  | .draining event => event.instance?
  | .waiting | .exited | .panicked => none

theorem Stage.instance_of_callback {stage : Stage} {tag : Tag} {actor : Actor}
    {callback : Callback} (busy : stage.callback? = some (tag, actor, callback)) :
    stage.instance? = some (tag, actor) := by
  cases stage <;> cases busy <;> rfl

/-- What an observation shows of worker `i` and its callbacks. -/
def Obs.shows (i : Nat) : Obs → Bool
  | .logged index _ _ _ | .measured index _ _ _ _ => index = i
  | x => x.of i

theorem recordObs_shows {i index : Nat} (other : index ≠ i) (tag : Tag) (actor : Actor)
    (now : Nat) (call : Call) : ∀ x ∈ Runtime.recordObs index tag actor now call,
    x.shows i = false := by
  cases call <;> simp [Runtime.recordObs, Obs.shows, other]

theorem Worker.Move.shows_other {index i : Nat} {connected : Bool} {w w' : Worker}
    {label : WorkerLabel} {input : Option Event} {output : Option Action} {seen : List Obs}
    (move : w.Move index connected label input w' output seen) (other : index ≠ i) :
    ∀ x ∈ seen, x.shows i = false := by
  cases move <;> simp [Obs.shows, Obs.of, other]

theorem LoopMove.shows_nothing {phase phase' : Phase} {s s' : Scheduler} {label : LoopLabel}
    {seen : List Obs} (move : LoopMove phase s label phase' s' seen) (i : Nat) :
    ∀ x ∈ seen, x.shows i = false := by
  intro x mem
  have shown := move.shown x mem
  cases x <;> first | rfl | exact absurd rfl shown

section Holder

variable {s t : Runtime} {label : Label} {seen : List Obs} {i : Nat} {w' : Worker}

/-- Seen from worker `i`, a step leaves it alone, or its callback records something, or it
moves. -/
theorem Transition.holder (transition : Transition s label t seen)
    (here : t.workers[i]? = some w') :
    (s.workers[i]? = some w' ∧ ∀ x ∈ seen, x.shows i = false) ∨
    (∃ w tag actor callback now call sender, s.workers[i]? = some w ∧
      w.stage.callback? = some (tag, actor, callback) ∧
      w.sender.record now call = some sender ∧ w' = { w with sender := sender } ∧
      seen = Runtime.recordObs i tag actor now call) ∨
    ∃ w wl input output, s.workers[i]? = some w ∧ label = .worker i wl ∧
      w.Move i s.actionsConnected wl input w' output seen ∧
      (wl = .hangUp → s.events = [] ∧ s.actionsConnected = false) := by
  cases transition with
  | posted | unposted | dropped | announced | unannounced | drained | finished =>
      exact .inl ⟨here, by simp [Obs.shows, Obs.of]⟩
  | @recorded index call now w tag actor callback sender known busy stays =>
      obtain ⟨rfl, rfl⟩ | ⟨other, kept⟩ := set_cases known here
      · exact .inr (.inl ⟨w, tag, actor, callback, now, call, sender, known, busy, stays, rfl, rfl⟩)
      · exact .inl ⟨kept, recordObs_shows other tag actor now call⟩
  | @worker index wl w input events v output seen known move popped hung =>
      obtain ⟨rfl, rfl⟩ | ⟨other, kept⟩ := set_cases known here
      · exact .inr (.inr ⟨w, wl, input, output, known, rfl, move, hung⟩)
      · exact .inl ⟨kept, move.shows_other other⟩
  | loop _ taken | crashed _ taken =>
      exact .inl ⟨here, (LoopState.step_move taken).shows_nothing i⟩

variable {config : SchedulerConfig} {name host : String} {start : Nat}
variable {allowed : Runtime → List Obs → Label → Prop} {h : List Obs}

/-- The induction principle of one worker and what its callbacks record. -/
theorem worker_invariant {P : Worker → List Obs → Prop} (begins : P .start [])
    (silent : ∀ {w h seen}, P w h → (∀ x ∈ seen, x.shows i = false) → P w (h ++ seen))
    (records : ∀ {w h tag actor callback now call sender}, P w h →
      w.stage.callback? = some (tag, actor, callback) → w.sender.record now call = some sender →
      P { w with sender := sender } (h ++ Runtime.recordObs i tag actor now call))
    (moves : ∀ {s h w wl input v output seen},
      (runtimeMachine config name host start).Run allowed s h →
      allowed s h (.worker i wl) → s.workers[i]? = some w → P w h →
      w.Move i s.actionsConnected wl input v output seen →
      (wl = .hangUp → s.events = [] ∧ s.actionsConnected = false) → P v (h ++ seen))
    (run : (runtimeMachine config name host start).Run allowed s h) {w : Worker}
    (here : s.workers[i]? = some w) : P w h := by
  induction run generalizing w with
  | start =>
      obtain rfl := List.eq_of_mem_replicate (List.mem_of_getElem? here)
      exact begins
  | @step s t h label seen before met taken ih =>
      obtain ⟨known, unseen⟩ | ⟨v, tag, actor, callback, now, call, sender, known, busy, stays, rfl,
        rfl⟩ | ⟨v, wl, input, output, known, rfl, move, hung⟩ :=
        (Runtime.step_transition taken).holder here
      · exact silent (ih known) unseen
      · exact records (ih known) busy stays
      · exact moves before met known (ih known) move hung

end Holder

/-! ## Tidy workers -/

/-- The sender carries the tag of the instance, and is empty between two events. -/
structure Worker.Tidy (w : Worker) : Prop where
  tagged : ∀ tag actor, w.stage.instance? = some (tag, actor) → w.sender.tag = tag
  empty : w.stage.instance? = none → w.stage.running = true →
    w.sender.logs = [] ∧ w.sender.metrics = []

theorem Local.record_tag {sender sender' : Local} {now : Nat} {call : Call}
    (stays : sender.record now call = some sender') : sender'.tag = sender.tag := by
  cases call <;> cases stays <;> rfl

theorem Worker.Move.tidy {index : Nat} {connected : Bool} {w w' : Worker} {label : WorkerLabel}
    {input : Option Event} {output : Option Action} {seen : List Obs}
    (move : w.Move index connected label input w' output seen) (tidy : w.Tidy) : w'.Tidy := by
  cases move with
  | received | stopped =>
      refine ⟨?_, nofun⟩
      intro tag actor same
      cases same
      rfl
  | finished | failed | recovered | released | returned =>
      exact ⟨tidy.tagged, nofun⟩
  | dismissed | lost | crashed | abandoned | unflushed | hungUp => exact ⟨nofun, nofun⟩
  | flushed connects next =>
      obtain ⟨logs, _, rfl⟩ | ⟨_, metrics, _, rfl⟩ := Local.drain_some next
      · exact ⟨tidy.tagged, fun idle _ => absurd (tidy.empty idle rfl).1 logs⟩
      · exact ⟨tidy.tagged, fun idle _ => absurd (tidy.empty idle rfl).2 metrics⟩
  | rested empty => exact ⟨nofun, fun _ _ => Local.drain_none empty⟩

theorem Worker.Tidy.record {w : Worker} {tag : Tag} {actor : Actor} {callback : Callback}
    {sender : Local} {now : Nat} {call : Call} (tidy : w.Tidy)
    (busy : w.stage.callback? = some (tag, actor, callback))
    (stays : w.sender.record now call = some sender) :
    Worker.Tidy { w with sender := sender } where
  tagged tag' actor' same := by
    rw [Local.record_tag stays]
    exact tidy.tagged tag' actor' same
  empty idle := by
    have served := Stage.instance_of_callback busy
    rw [show w.stage.instance? = none from idle] at served
    cases served

section Runs

variable {config : SchedulerConfig} {name host : String} {start : Nat}
variable {allowed : Runtime → List Obs → Label → Prop} {s : Runtime} {h : List Obs}
variable {i : Nat} {w : Worker}

theorem runtime_tidy (run : (runtimeMachine config name host start).Run allowed s h)
    (here : s.workers[i]? = some w) : w.Tidy := by
  refine @worker_invariant s i config name host start allowed h (fun w _ => w.Tidy) ?_ ?_ ?_ ?_ run
    w here
  · exact ⟨nofun, fun _ _ => ⟨rfl, rfl⟩⟩
  · exact fun tidy _ => tidy
  · exact fun tidy busy stays => tidy.record busy stays
  · exact fun _ _ _ tidy move _ => move.tidy tidy

end Runs

/-! ## Records -/

/-- A log line with where it comes from. -/
structure Record where
  worker : Nat
  tag : Tag
  actor : Actor
  line : Line
  deriving DecidableEq

/-- A metric sample with where it comes from. -/
structure Reading where
  worker : Nat
  tag : Tag
  actor : Actor
  name : String
  sample : Sample
  deriving DecidableEq

def Obs.logStep? : Obs → Option (Spool Nat Record)
  | .logged worker tag actor line => some (.put ⟨worker, tag, actor, line⟩)
  | .flushed worker (.logs _ _) => some (.flush worker)
  | _ => none

def Obs.metricStep? : Obs → Option (Spool Nat Reading)
  | .measured worker tag actor name sample => some (.put ⟨worker, tag, actor, name, sample⟩)
  | .flushed worker (.metrics _) => some (.flush worker)
  | _ => none

def logSteps (h : List Obs) : List (Spool Nat Record) := h.filterMap Obs.logStep?
def metricSteps (h : List Obs) : List (Spool Nat Reading) := h.filterMap Obs.metricStep?

@[simp] theorem logSteps_append (h k : List Obs) : logSteps (h ++ k) = logSteps h ++ logSteps k :=
  List.filterMap_append

@[simp] theorem metricSteps_append (h k : List Obs) :
    metricSteps (h ++ k) = metricSteps h ++ metricSteps k := List.filterMap_append

/-- The lines that were recorded, in that order. -/
def recorded (h : List Obs) : List Record := Spool.items (logSteps h)

/-- The samples that were recorded. -/
def measured (h : List Obs) : List Reading := Spool.items (metricSteps h)

/-- The lines that no worker has flushed. -/
def unflushed (h : List Obs) : List Record := Spool.held Record.worker (logSteps h)

/-- The samples that no worker has flushed. -/
def unmerged (h : List Obs) : List Reading := Spool.held Reading.worker (metricSteps h)

theorem logSteps_spares {i : Nat} {seen : List Obs} (silent : ∀ x ∈ seen, x.shows i = false) :
    ∀ step ∈ logSteps seen, Spool.Spares Record.worker i step := by
  intro step mem
  obtain ⟨x, shown, same⟩ := List.mem_filterMap.mp mem
  have other := silent x shown
  cases x with
  | logged => cases same; simpa [Obs.shows, Spool.Spares] using other
  | flushed index action =>
      cases action <;> cases same
      simpa [Obs.shows, Obs.of, Spool.Spares] using other
  | _ => cases same

theorem metricSteps_spares {i : Nat} {seen : List Obs} (silent : ∀ x ∈ seen, x.shows i = false) :
    ∀ step ∈ metricSteps seen, Spool.Spares Reading.worker i step := by
  intro step mem
  obtain ⟨x, shown, same⟩ := List.mem_filterMap.mp mem
  have other := silent x shown
  cases x with
  | measured => cases same; simpa [Obs.shows, Spool.Spares] using other
  | flushed index action =>
      cases action <;> cases same
      simpa [Obs.shows, Obs.of, Spool.Spares] using other
  | _ => cases same

/-- The lines in a worker's sender. -/
def Worker.records (i : Nat) (w : Worker) : List Record :=
  match w.stage.instance? with
  | some (_, actor) => w.sender.logs.map fun line => ⟨i, w.sender.tag, actor, line⟩
  | none => []

/-- The metrics that readings make. -/
def collect (readings : List Reading) : Metrics :=
  readings.foldl (fun metrics reading => metrics.append reading.name [reading.sample]) []

section Runs

variable {config : SchedulerConfig} {name host : String} {start : Nat}
variable {allowed : Runtime → List Obs → Label → Prop} {s : Runtime} {h : List Obs}
variable {i : Nat} {w : Worker}

@[simp] theorem unflushed_logged (h : List Obs) (i : Nat) (tag : Tag) (actor : Actor)
    (line : Line) :
    unflushed (h ++ [.logged i tag actor line]) = unflushed h ++ [⟨i, tag, actor, line⟩] := by
  rw [unflushed, logSteps_append]
  exact Spool.held_put ..

@[simp] theorem unflushed_flushed (h : List Obs) (i : Nat) (tag : Tag) (lines : List Line) :
    unflushed (h ++ [.flushed i (.logs tag lines)]) =
      (unflushed h).filter fun record => record.worker ≠ i := by
  rw [unflushed, logSteps_append]
  exact Spool.held_flush ..

theorem unflushed_silent (h : List Obs) {seen : List Obs} (silent : logSteps seen = []) :
    unflushed (h ++ seen) = unflushed h := by
  rw [unflushed, logSteps_append, silent, List.append_nil, unflushed]

/-- The sender of a worker that serves an instance holds the lines that are not flushed. -/
theorem Worker.records_of_instance {tag : Tag} {actor : Actor}
    (serves : w.stage.instance? = some (tag, actor)) :
    w.records i = w.sender.logs.map fun line => ⟨i, w.sender.tag, actor, line⟩ := by
  rw [records, serves]

theorem Worker.records_nil (empty : w.sender.logs = []) : w.records i = [] := by
  rw [records]
  split
  · rw [empty, List.map_nil]
  · rfl

/-- The lines in a sender come from the instance that the worker serves. -/
theorem Worker.Tidy.served {record : Record} (tidy : w.Tidy) (mem : record ∈ w.records i) :
    w.stage.instance? = some (record.tag, record.actor) ∧ record.line ∈ w.sender.logs := by
  cases serves : w.stage.instance? with
  | none =>
      rw [records, serves] at mem
      cases mem
  | some served =>
      obtain ⟨tag, actor⟩ := served
      rw [Worker.records_of_instance serves] at mem
      obtain ⟨line, logged, rfl⟩ := List.mem_map.mp mem
      exact ⟨by rw [tidy.tagged tag actor serves], logged⟩

/-- A worker keeps its lines until it flushes them, unless it ends before that. -/
theorem Worker.Move.records {connected : Bool} {w' : Worker} {label : WorkerLabel}
    {input : Option Event} {output : Option Action} {seen : List Obs}
    (move : w.Move i connected label input w' output seen) (tidy : w.Tidy)
    (kept : w'.stage.running = true ∨ input = some .shutdown) :
    (logSteps seen = [] ∧ w'.records i = w.records i) ∨
      ∃ tag lines, seen = [.flushed i (.logs tag lines)] ∧ w'.records i = [] := by
  cases move with
  | received | stopped =>
      have empty := (tidy.empty rfl rfl).1
      refine .inl ⟨rfl, ?_⟩
      rw [Worker.records_nil (by exact empty), Worker.records_nil (by exact empty)]
  | finished | failed | recovered | released | returned | dismissed => exact .inl ⟨rfl, rfl⟩
  | lost | crashed | abandoned | unflushed | hungUp =>
      obtain running | input := kept
      · cases running
      · cases input
  | flushed connects next =>
      obtain ⟨_, rfl, rfl⟩ | ⟨_, _, rfl, rfl⟩ := Local.drain_some next
      · exact .inr ⟨_, _, rfl, Worker.records_nil rfl⟩
      · exact .inl ⟨rfl, rfl⟩
  | rested empty =>
      have none := (Local.drain_none empty).1
      refine .inl ⟨rfl, ?_⟩
      rw [Worker.records_nil (by exact none), Worker.records_nil (by exact none)]

/-- What is in a worker's sender is what it has not flushed. -/
def Worker.Holds (i : Nat) (w : Worker) (h : List Obs) : Prop :=
  (unflushed h).filter (fun record => record.worker = i) = w.records i

theorem Worker.Holds.silent {seen : List Obs} (holds : w.Holds i h)
    (silent : ∀ x ∈ seen, x.shows i = false) : w.Holds i (h ++ seen) := by
  rw [Holds, unflushed, logSteps_append, Spool.held_spared (logSteps_spares silent)]
  exact holds

theorem Worker.Holds.record {tag : Tag} {actor : Actor} {callback : Callback} {now : Nat}
    {call : Call} {sender : Local} (holds : w.Holds i h) (tidy : w.Tidy)
    (busy : w.stage.callback? = some (tag, actor, callback))
    (stays : w.sender.record now call = some sender) :
    Worker.Holds i { w with sender := sender } (h ++ Runtime.recordObs i tag actor now call) := by
  have serves := Stage.instance_of_callback busy
  rw [Holds, Worker.records_of_instance serves] at holds
  rw [Holds, @Worker.records_of_instance i { w with sender := sender } tag actor serves]
  cases call with
  | log message =>
      cases stays
      have tagged := tidy.tagged tag actor serves
      simp [Runtime.recordObs, List.filter_append, holds, tagged]
  | metric name value =>
      cases stays
      rw [unflushed_silent h rfl, holds]
  | send | spawn | delay | stop => cases stays

theorem Worker.Holds.move {connected : Bool} {w' : Worker} {label : WorkerLabel}
    {input : Option Event} {output : Option Action} {seen : List Obs} (holds : w.Holds i h)
    (move : w.Move i connected label input w' output seen) (tidy : w.Tidy)
    (kept : w'.stage.running = true ∨ input = some .shutdown) : w'.Holds i (h ++ seen) := by
  rw [Holds] at holds ⊢
  obtain ⟨silent, same⟩ | ⟨tag, lines, rfl, empty⟩ := move.records tidy kept
  · rw [unflushed_silent h silent, holds, same]
  · rw [unflushed_flushed, empty, List.filter_filter]
    simp

/-- A worker loop that has not ended holds the lines that it has not flushed. -/
theorem runtime_records (run : (runtimeMachine config name host start).Run allowed s h)
    (here : s.workers[i]? = some w) (running : w.stage.running = true) : w.Holds i h := by
  refine (@worker_invariant s i config name host start allowed h (fun w h => w.Tidy ∧
    (w.stage.running = true → w.Holds i h)) ?_ ?_ ?_ ?_ run w here).2 running
  · exact ⟨⟨nofun, fun _ _ => ⟨rfl, rfl⟩⟩, fun _ => rfl⟩
  · rintro w h seen ⟨tidy, holds⟩ silent
    exact ⟨tidy, fun running => (holds running).silent silent⟩
  · rintro w h tag actor callback now call sender ⟨tidy, holds⟩ busy stays
    exact ⟨tidy.record busy stays, fun running => (holds running).record tidy busy stays⟩
  · rintro s h w wl input v output seen _ _ _ ⟨tidy, holds⟩ move _
    exact ⟨move.tidy tidy, fun running => (holds move.running).move move tidy (.inl running)⟩

/-! ## Readings -/

theorem unmerged_silent (h : List Obs) {seen : List Obs} (silent : metricSteps seen = []) :
    unmerged (h ++ seen) = unmerged h := by
  rw [unmerged, metricSteps_append, silent, List.append_nil, unmerged]

@[simp] theorem unmerged_measured (h : List Obs) (i : Nat) (tag : Tag) (actor : Actor)
    (name : String) (sample : Sample) : unmerged (h ++ [.measured i tag actor name sample]) =
      unmerged h ++ [⟨i, tag, actor, name, sample⟩] := by
  rw [unmerged, metricSteps_append]
  exact Spool.held_put ..

@[simp] theorem unmerged_flushed (h : List Obs) (i : Nat) (map : Metrics) :
    unmerged (h ++ [.flushed i (.metrics map)]) =
      (unmerged h).filter fun reading => reading.worker ≠ i := by
  rw [unmerged, metricSteps_append]
  exact Spool.held_flush ..

theorem collect_append (readings : List Reading) (reading : Reading) :
    collect (readings ++ [reading]) = (collect readings).append reading.name [reading.sample] := by
  rw [collect, List.foldl_append]
  rfl

/-- A worker keeps its metrics until it flushes them. -/
theorem Worker.Move.metrics {connected : Bool} {w' : Worker} {label : WorkerLabel}
    {input : Option Event} {output : Option Action} {seen : List Obs}
    (move : w.Move i connected label input w' output seen) :
    (metricSteps seen = [] ∧ w'.sender.metrics = w.sender.metrics) ∨
      seen = [.flushed i (.metrics w.sender.metrics)] ∧ w'.sender.metrics = [] := by
  cases move with
  | flushed connects next =>
      obtain ⟨_, rfl, rfl⟩ | ⟨_, _, rfl, rfl⟩ := Local.drain_some next
      · exact .inl ⟨rfl, rfl⟩
      · exact .inr ⟨rfl, rfl⟩
  | _ => exact .inl ⟨rfl, rfl⟩

/-- A worker holds the metrics that its unflushed readings make. -/
theorem runtime_readings (run : (runtimeMachine config name host start).Run allowed s h)
    (here : s.workers[i]? = some w) :
    collect ((unmerged h).filter fun reading => reading.worker = i) = w.sender.metrics := by
  refine @worker_invariant s i config name host start allowed h (fun w h =>
    collect ((unmerged h).filter fun reading => reading.worker = i) = w.sender.metrics)
    ?_ ?_ ?_ ?_ run w here
  · rfl
  · intro w h seen holds silent
    rw [unmerged, metricSteps_append, Spool.held_spared (metricSteps_spares silent)]
    exact holds
  · intro w h tag actor callback now call sender holds busy stays
    cases call with
    | log message =>
        cases stays
        rw [unmerged_silent h rfl, holds]
    | metric name value =>
        cases stays
        simp [Runtime.recordObs, List.filter_append, collect_append, holds]
    | send | spawn | delay | stop => cases stays
  · intro s h w wl input v output seen _ _ _ holds move _
    obtain ⟨silent, same⟩ | ⟨rfl, empty⟩ := move.metrics
    · rw [unmerged_silent h silent, holds, same]
    · rw [unmerged_flushed, empty, List.filter_filter]
      simp [collect]

end Runs

end Uppercut
