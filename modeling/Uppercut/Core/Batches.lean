import Uppercut.Core.Recording

/-!
# Batches on the action channel

A worker flushes the lines of its sender as one action that carries a tag, and its metrics as
one action that does not. Nothing else puts lines or metrics on the action channel.
-/

namespace Uppercut

/-- The log batch that an action carries. -/
def Action.batch? : Action → Option (Tag × List Line)
  | .logs tag lines => some (tag, lines)
  | _ => none

/-- The metrics that an action carries. -/
def Action.map? : Action → Option Metrics
  | .metrics map => some map
  | _ => none

/-- An observation that puts neither lines nor metrics on the action channel. -/
structure Obs.Plain (x : Obs) : Prop where
  unflushed : ∀ i action, x ≠ .flushed i action
  posted : ∀ action, x.posted? = some action → action.batch? = none ∧ action.map? = none

theorem Obs.plain_of_unposted {x : Obs} (unposted : x.posted? = none) : x.Plain where
  unflushed i action same := by
    subst same
    cases unposted
  posted action same := by
    rw [unposted] at same
    cases same

/-- Callers send neither lines nor metrics. -/
theorem Runtime.Calls.plain {s : Runtime} {label : Label} {sender : Sender} {action : Action}
    (calls : s.Calls label sender action) : action.batch? = none ∧ action.map? = none := by
  have sends {call : Call} {fresh now : Nat} (sends : call.action fresh now = some action) :
      action.batch? = none ∧ action.map? = none := by
    cases call <;> cases sends <;> exact ⟨rfl, rfl⟩
  cases calls with
  | thread _ sent => exact sends sent
  | shutdown => exact ⟨rfl, rfl⟩
  | actor _ _ sent => exact sends sent

theorem recordObs_plain (index : Nat) (tag : Tag) (actor : Actor) (now : Nat) (call : Call) :
    ∀ x ∈ Runtime.recordObs index tag actor now call, x.Plain := by
  intro x mem
  apply Obs.plain_of_unposted
  revert x mem
  cases call <;> simp [Runtime.recordObs, Obs.posted?]

theorem LoopMove.plain {phase phase' : Phase} {s s' : Scheduler} {label : LoopLabel}
    {seen : List Obs} (move : LoopMove phase s label phase' s' seen) : ∀ x ∈ seen, x.Plain := by
  intro x mem
  have shown := move.shown x mem
  cases x with
  | released =>
      refine ⟨nofun, ?_⟩
      rintro _ ⟨⟩
      exact ⟨rfl, rfl⟩
  | flushed | sent | returned => exact absurd rfl shown
  | _ => exact Obs.plain_of_unposted rfl

/-- Only a worker that drains its sender puts lines or metrics on the action channel. -/
theorem Transition.flushes {s t : Runtime} {label : Label} {seen : List Obs}
    (transition : Transition s label t seen) :
    (∀ x ∈ seen, x.Plain) ∨ ∃ i w event action sender, label = .worker i .advance ∧
      s.workers[i]? = some w ∧ w.stage = .draining event ∧ s.actionsConnected = true ∧
      w.sender.drain = some (action, sender) ∧ seen = [.flushed i action] := by
  have single {x : Obs} (plain : x.Plain) : ∀ y ∈ [x], y.Plain := by simpa using plain
  have plain (silent : ∀ x ∈ seen, x.posted? = none) : ∀ x ∈ seen, x.Plain :=
    fun x mem => Obs.plain_of_unposted (silent x mem)
  cases transition with
  | posted calls =>
      refine .inl (single ⟨nofun, ?_⟩)
      rintro _ ⟨⟩
      exact calls.plain
  | unposted | dropped | unannounced | drained | finished | announced =>
      exact .inl (plain (by simp [Obs.posted?]))
  | recorded => exact .inl (recordObs_plain _ _ _ _ _)
  | loop _ taken | crashed _ taken => exact .inl (LoopState.step_move taken).plain
  | @worker i wl w input events w' output seen known move =>
      cases move with
      | flushed connects next => exact .inr ⟨i, _, _, _, _, rfl, known, rfl, connects, next, rfl⟩
      | returned =>
          refine .inl (single ⟨nofun, ?_⟩)
          rintro _ ⟨⟩
          exact ⟨rfl, rfl⟩
      | _ => exact .inl (plain (by simp [Obs.posted?]))

/-- The batches of lines that workers have flushed. -/
def sentRecords (h : List Obs) : List (List Record) := Spool.batches Record.worker (logSteps h)

/-- The log batches on the action channel. -/
def sentBatches (h : List Obs) : List (Tag × List Line) := (posts h).filterMap Action.batch?

/-- The metrics on the action channel. -/
def sentMaps (h : List Obs) : List Metrics := (posts h).filterMap Action.map?

/-- The batches of samples that workers have flushed. -/
def sentReadings (h : List Obs) : List (List Reading) :=
  Spool.batches Reading.worker (metricSteps h)

/-- The action with this tag and these lines carries the records. -/
def Record.Carried (records : List Record) (batch : Tag × List Line) : Prop :=
  records.map Record.line = batch.2 ∧ ∀ record ∈ records, record.tag = batch.1

@[simp] theorem sentBatches_append (h k : List Obs) :
    sentBatches (h ++ k) = sentBatches h ++ sentBatches k := by
  rw [sentBatches, posts_append, List.filterMap_append, sentBatches, sentBatches]

@[simp] theorem sentMaps_append (h k : List Obs) :
    sentMaps (h ++ k) = sentMaps h ++ sentMaps k := by
  rw [sentMaps, posts_append, List.filterMap_append, sentMaps, sentMaps]

section Flushed

variable (h : List Obs) (i : Nat) (tag : Tag) (lines : List Line) (map : Metrics)

theorem sentRecords_flushed : sentRecords (h ++ [.flushed i (.logs tag lines)]) =
    sentRecords h ++ [(unflushed h).filter fun record => record.worker = i] := by
  rw [sentRecords, logSteps_append]
  exact Spool.batches_flush ..

theorem sentRecords_merged :
    sentRecords (h ++ [.flushed i (.metrics map)]) = sentRecords h := by
  rw [sentRecords, logSteps_append]
  exact congrArg _ (List.append_nil _)

theorem sentReadings_flushed : sentReadings (h ++ [.flushed i (.metrics map)]) =
    sentReadings h ++ [(unmerged h).filter fun reading => reading.worker = i] := by
  rw [sentReadings, metricSteps_append]
  exact Spool.batches_flush ..

theorem sentReadings_logs :
    sentReadings (h ++ [.flushed i (.logs tag lines)]) = sentReadings h := by
  rw [sentReadings, metricSteps_append]
  exact congrArg _ (List.append_nil _)

end Flushed

/-- What a worker flushes was recorded under the tag of its sender. -/
theorem Worker.carried {w : Worker} (i : Nat) (tidy : w.Tidy) (running : w.stage.running = true)
    (lines : w.sender.logs ≠ []) :
    Record.Carried (w.records i) (w.sender.tag, w.sender.logs) := by
  cases serves : w.stage.instance? with
  | none => exact absurd (tidy.empty serves running).1 lines
  | some served =>
      rw [Worker.records_of_instance serves]
      refine ⟨?_, ?_⟩
      · rw [List.map_map]
        exact List.map_id _
      · intro record mem
        obtain ⟨line, _, rfl⟩ := List.mem_map.mp mem
        rfl

section Plain

variable {h seen : List Obs} (plain : ∀ x ∈ seen, x.Plain)
include plain

theorem sent_plain : sentBatches seen = [] ∧ sentMaps seen = [] := by
  constructor <;>
  · apply List.filterMap_eq_nil_iff.mpr
    intro action mem
    obtain ⟨x, shown, same⟩ := List.mem_filterMap.mp mem
    obtain ⟨none, nothing⟩ := (plain x shown).posted action same
    assumption

theorem logSteps_plain : ∀ step ∈ logSteps seen, ∃ record, step = .put record := by
  intro step mem
  obtain ⟨x, shown, same⟩ := List.mem_filterMap.mp mem
  cases x with
  | logged => exact ⟨_, (Option.some.inj same).symm⟩
  | flushed i action => exact absurd rfl ((plain _ shown).unflushed i action)
  | _ => cases same

theorem sentRecords_plain : sentRecords (h ++ seen) = sentRecords h := by
  rw [sentRecords, logSteps_append, sentRecords]
  exact Spool.batches_puts _ _ (logSteps_plain plain)

theorem sentReadings_plain : sentReadings (h ++ seen) = sentReadings h := by
  rw [sentReadings, metricSteps_append, sentReadings]
  apply Spool.batches_puts
  intro step mem
  obtain ⟨x, shown, same⟩ := List.mem_filterMap.mp mem
  cases x with
  | measured => exact ⟨_, (Option.some.inj same).symm⟩
  | flushed i action => exact absurd rfl ((plain _ shown).unflushed i action)
  | _ => cases same

end Plain

section Runs

variable {config : SchedulerConfig} {name host : String} {start : Nat}
variable {allowed : Runtime → List Obs → Label → Prop} {s : Runtime} {h : List Obs}

/-- Each log batch on the action channel carries what its worker has recorded for one instance
since its last flush. -/
theorem runtime_carried (run : (runtimeMachine config name host start).Run allowed s h) :
    List.Forall₂ Record.Carried (sentRecords h) (sentBatches h) := by
  induction run with
  | start => exact .nil
  | @step s t h label seen before _ taken ih =>
      rw [sentBatches_append]
      obtain plain | ⟨i, w, event, action, sender, _, known, stage, _, next, rfl⟩ :=
        (Runtime.step_transition taken).flushes
      · rw [(sent_plain plain).1, sentRecords_plain plain, List.append_nil]
        exact ih
      · have running : w.stage.running = true := by rw [stage]; rfl
        obtain ⟨lines, rfl, _⟩ | ⟨_, _, rfl, _⟩ := Local.drain_some next
        · have held : (unflushed h).filter (fun record => record.worker = i) = w.records i :=
            runtime_records before known running
          rw [sentRecords_flushed, held]
          have carried := w.carried i (runtime_tidy before known) running lines
          exact List.rel_append ih (.cons carried .nil)
        · rw [sentRecords_merged]
          exact (List.append_nil _).symm ▸ ih

/-- Each metrics map on the action channel is made of the samples that its worker has recorded
since its last flush. -/
theorem runtime_collected (run : (runtimeMachine config name host start).Run allowed s h) :
    sentMaps h = (sentReadings h).map collect := by
  induction run with
  | start => rfl
  | @step s t h label seen before _ taken ih =>
      rw [sentMaps_append, ih]
      obtain plain | ⟨i, w, event, action, sender, _, known, _, _, next, rfl⟩ :=
        (Runtime.step_transition taken).flushes
      · rw [(sent_plain plain).2, sentReadings_plain plain, List.append_nil]
      · obtain ⟨_, rfl, _⟩ | ⟨_, _, rfl, _⟩ := Local.drain_some next
        · rw [sentReadings_logs]
          simp [sentMaps, posts, Obs.posted?, Action.map?]
        · rw [sentReadings_flushed, List.map_append, List.map_singleton,
            runtime_readings before known]
          rfl

end Runs
end Uppercut
