import Uppercut.Core.Attribution

/-!
# The order of log lines

A worker sends the actor back before it flushes the lines of the actor. The event loop may hand
the actor to another worker, and that one may flush first. Then later lines are received before
earlier ones.
-/

namespace Uppercut

/-- The next step of worker `i` flushes lines. -/
def Runtime.flushes (s : Runtime) (i : Nat) : Bool :=
  s.actionsConnected && (s.workers[i]?).any fun w =>
    match w.stage with
    | .draining _ => decide (w.sender.logs ≠ [])
    | _ => false

/-- When a worker flushes lines of an instance, no other worker holds older ones. -/
def Runtime.FlushesInTurn (s : Runtime) (h : List Obs) : Label → Prop
  | .worker i .advance => s.flushes i = true → (unflushed h).Pairwise fun earlier later =>
      later.worker = i → earlier.actor = later.actor → earlier.worker = i
  | _ => True

instance (s : Runtime) (h : List Obs) : ∀ label, Decidable (s.FlushesInTurn h label)
  | .worker _ .advance => inferInstanceAs (Decidable (_ → List.Pairwise _ _))
  | .worker _ .take | .worker _ (.call _ _) | .worker _ (.finish _) | .worker _ .hangUp
  | .call _ _ _ | .shutdown _ | .dropRun | .loop _ | .sendShutdown | .drain | .finish =>
      isTrue trivial

/-- The records behind the batches that were received. -/
def receivedRecords (h : List Obs) : List (List Record) :=
  (sentRecords h).take (receivedBatches h).length

section Runs

variable {config : SchedulerConfig} {name host : String} {start : Nat} {s : Runtime}
variable {allowed : Runtime → List Obs → Label → Prop} {h : List Obs}

theorem runtime_received_records
    (run : (runtimeMachine config name host start).Run allowed s h) :
    List.Forall₂ Record.Carried (receivedRecords h) (receivedBatches h) := by
  have front := List.prefix_iff_eq_take.mp (runtime_received run).1
  have taken := List.forall₂_take (receivedBatches h).length (runtime_carried run)
  rw [← front] at taken
  exact taken

/-- Each instance's lines are flushed in turn. -/
theorem runtime_in_turn
    (run : (runtimeMachine config name host start).Run Runtime.FlushesInTurn s h) (actor : Actor) :
    History.Always (Spool.InTurn Record.worker fun record => record.actor = actor)
      (logSteps h) := by
  induction run with
  | start => exact History.always_nil
  | @step s t h label seen before turns taken ih =>
      rw [logSteps_append, History.always_append]
      refine ⟨ih, ?_⟩
      obtain plain | ⟨i, w, event, action, sender, rfl, known, stage, connects, next, rfl⟩ :=
        (Runtime.step_transition taken).flushes
      · rintro front step back split
        obtain ⟨record, rfl⟩ := logSteps_plain plain step (by rw [split]; simp)
        trivial
      · obtain ⟨lines, rfl, _⟩ | ⟨_, _, rfl, _⟩ := Local.drain_some next
        · have flushes : s.flushes i = true := by
            simp [Runtime.flushes, connects, known, stage, lines]
          refine (History.alwaysFrom_cons ..).mpr ⟨?_, History.alwaysFrom_nil _⟩
          show ((unflushed h).filter _).filter _ <+: (unflushed h).filter _
          apply Spool.front_of_pairwise
          rw [List.pairwise_filter]
          apply (turns flushes).imp
          intro earlier later turn one other mine
          simp only [decide_eq_true_eq] at one other mine ⊢
          exact turn mine (one.trans other.symm)
        · exact History.alwaysFrom_nil _

/-- What leaves in order is received in order. -/
theorem received_in_order {p : Record → Bool} (order : (sentRecords h).flatten.filter p ++
      (unflushed h).filter p = (recorded h).filter p) :
    (receivedRecords h).flatten.filter p <+: (recorded h).filter p := by
  have received : receivedRecords h <+: sentRecords h := List.take_prefix _ _
  exact (received.flatten.filter _).trans ⟨_, order⟩

/-- The lines of one worker are received in the order in which they were recorded. -/
theorem worker_lines_in_order (h : List Obs) (i : Nat) :
    (receivedRecords h).flatten.filter (fun record => record.worker = i) <+:
      (recorded h).filter fun record => record.worker = i :=
  received_in_order (Spool.batches_owner (logSteps h) i)

/-- **Order of log lines.** In every run in which no worker flushes lines of an instance while
another worker holds older ones: the lines of each instance are received in the order in which
they were recorded. -/
theorem lines_in_order
    (run : (runtimeMachine config name host start).Run Runtime.FlushesInTurn s h) :
    List.Forall₂ Record.Carried (receivedRecords h) (receivedBatches h) ∧
      ∀ actor, (receivedRecords h).flatten.filter (fun record => record.actor = actor) <+:
        (recorded h).filter fun record => record.actor = actor := by
  refine ⟨runtime_received_records run, ?_⟩
  intro actor
  exact received_in_order (Spool.batches_in_turn (runtime_in_turn run actor))

end Runs

/-- An actor has two messages. Worker 0 receives the first one and sends the actor back, and
worker 1 receives the second one. -/
def handover : List Label :=
  [Label.call 0 (.spawn "a") 0] ++ turn (.spawn "a" ⟨0⟩) ++
  [Label.call 0 (.send "a" (.of (.other 7))) 0, .call 0 (.send "a" (.of (.other 8))) 0] ++
  turn (.queue "a" (letter 1 7)) ++ turn (.queue "a" (letter 2 8)) ++
  [Label.worker 0 .take, .worker 0 (.call (.log "one") 5), .worker 0 (.finish true),
    .worker 0 .advance] ++ turn (.return "a" ⟨0⟩ true) ++
  [Label.worker 1 .take, .worker 1 (.call (.log "two") 6), .worker 1 (.finish true),
    .worker 1 .advance] ++ turn (.return "a" ⟨0⟩ true)

/-- Worker 0 flushes first. -/
def inTurn : List Label :=
  handover ++ [Label.worker 0 .advance, .worker 1 .advance] ++ turn (.logs "a" [(5, "one")]) ++
  turn (.logs "a" [(6, "two")])

theorem lines_in_order_handover :
    ∃ s h, (runtimeMachine { SchedulerConfig.default with actorWorkerThreads := 2 } "app" "host"
        0).Run Runtime.FlushesInTurn s h ∧
      receivedBatches h = [("a", [(5, "one")]), ("a", [(6, "two")])] ∧
      List.Forall₂ Record.Carried (receivedRecords h) (receivedBatches h) ∧
      ∀ actor, (receivedRecords h).flatten.filter (fun record => record.actor = actor) <+:
        (recorded h).filter fun record => record.actor = actor := by
  have run := Machine.run_replay
    (runtimeMachine { SchedulerConfig.default with actorWorkerThreads := 2 } "app" "host" 0)
    Runtime.FlushesInTurn inTurn (by decide)
  exact ⟨_, _, run, by decide, lines_in_order run⟩

/-- Worker 1 flushes first. -/
def overtaking : List Label :=
  handover ++ [Label.worker 1 .advance, .worker 0 .advance] ++ turn (.logs "a" [(6, "two")]) ++
  turn (.logs "a" [(5, "one")])

theorem lines_out_of_order :
    ∃ s h, (runtimeMachine { SchedulerConfig.default with actorWorkerThreads := 2 } "app" "host"
        0).Reached s h ∧
      recorded h = [⟨0, "a", ⟨0⟩, (5, "one")⟩, ⟨1, "a", ⟨0⟩, (6, "two")⟩] ∧
      receivedBatches h = [("a", [(6, "two")]), ("a", [(5, "one")])] ∧
      ¬ (receivedRecords h).flatten.filter (fun record => record.actor = ⟨0⟩) <+:
        (recorded h).filter fun record => record.actor = ⟨0⟩ :=
  ⟨_, _, Machine.run_replay
    (runtimeMachine { SchedulerConfig.default with actorWorkerThreads := 2 } "app" "host" 0)
    (fun _ _ _ => True) overtaking (by decide), by decide, by decide, by decide⟩

end Uppercut
