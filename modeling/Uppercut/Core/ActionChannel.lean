import Uppercut.Core.System

/-!
# The action channel

The event loop receives actions in the order in which workers, threads and the loop itself have
sent them. What is left in the channel when the loop ends is not received any more.
-/

namespace Uppercut

/-- The action that an observation puts on the action channel. -/
def Obs.posted? : Obs → Option Action
  | .sent _ action | .flushed _ action => some action
  | .returned _ tag actor ok => some (.return tag actor ok)
  | .released entry => some (.queue entry.tag entry.envelope)
  | _ => none

/-- The actions that were put on the action channel. -/
def posts (h : List Obs) : List Action := h.filterMap Obs.posted?

@[simp] theorem posts_append (h k : List Obs) : posts (h ++ k) = posts h ++ posts k :=
  List.filterMap_append

theorem Worker.Move.posts {index : Nat} {connected : Bool} {w w' : Worker}
    {label : WorkerLabel} {input : Option Event} {output : Option Action} {seen : List Obs}
    (move : w.Move index connected label input w' output seen) :
    posts seen = output.toList ∧ intake seen = [] := by
  cases move <;> exact ⟨rfl, rfl⟩

theorem recordObs_posts (index : Nat) (tag : Tag) (actor : Actor) (now : Nat) (call : Call) :
    posts (Runtime.recordObs index tag actor now call) = [] ∧
      intake (Runtime.recordObs index tag actor now call) = [] := by
  cases call <;> exact ⟨rfl, rfl⟩

variable {s t : Runtime} {label : Label} {seen : List Obs}

/-- The event loop receives the oldest action, and puts back what it releases. -/
theorem LoopMove.actions {phase phase' : Phase} {sched sched' : Scheduler} {label : LoopLabel}
    (move : LoopMove phase sched label phase' sched' seen) (offered : s.offers label = true) :
    ∃ rest, s.actions = intake seen ++ rest ∧ (phase' ≠ .panicked → rest = s.unread label) ∧
      posts seen = seen.filterMap Obs.requeued? := by
  cases move with
  | crashed | unsent => exact ⟨s.actions, rfl, fun alive => absurd rfl alive, rfl⟩
  | @received action connected s' event flow =>
      obtain ⟨rest, split⟩ := (Runtime.offers_receive offered).1
      refine ⟨rest, ?_, fun _ => ?_, ?_⟩
      · rw [intake, sched.shows_filterMap action event _ (fun _ _ => rfl) fun _ => rfl, split]
        cases event <;> rfl
      · rw [Runtime.unread, split, List.tail_cons]
      · rw [requeued_shows, posts, sched.shows_filterMap action event _ (fun _ _ => rfl)
          fun _ => rfl]
        cases event <;> rfl
  | timeout | clock | release | tick => exact ⟨s.actions, rfl, fun _ => rfl, rfl⟩

/-- What is received was the head of the channel, and what is posted was put behind it. -/
theorem Transition.actions (transition : Transition s label t seen)
    (running : s.loop.phase.running = true) :
    ∃ rest, s.actions ++ posts seen = intake seen ++ rest ∧
      (t.loop.phase.running = true → t.actions = rest) := by
  cases transition with
  | posted => exact ⟨_, rfl, fun _ => rfl⟩
  | unposted | dropped => exact ⟨_, rfl, fun _ => (List.append_nil _).symm⟩
  | @recorded index call now w tag actor =>
      obtain ⟨none, nothing⟩ := recordObs_posts index tag actor now call
      exact ⟨s.actions, by rw [none, nothing, List.append_nil, List.nil_append], fun _ => rfl⟩
  | worker _ move =>
      obtain ⟨sent, nothing⟩ := move.posts
      exact ⟨_, by rw [sent, nothing, List.nil_append], fun _ => rfl⟩
  | loop offered taken alive =>
      obtain ⟨rest, split, same, posted⟩ := (LoopState.step_move taken).actions offered
      refine ⟨rest ++ posts seen, by rw [split, List.append_assoc], fun _ => ?_⟩
      rw [same alive, posted]
  | crashed offered taken panicked =>
      obtain ⟨rest, split, _⟩ := (LoopState.step_move taken).actions offered
      refine ⟨rest ++ posts seen, by rw [split, List.append_assoc], fun still => ?_⟩
      rw [panicked] at still
      cases still
  | announced closing | unannounced closing | drained closing | finished closing =>
      rw [s.exited_of_closing closing] at running
      cases running

/-- A loop that has ended receives nothing. -/
theorem Transition.deaf (transition : Transition s label t seen)
    (ended : s.loop.phase.running = false) : intake seen = [] := by
  cases transition with
  | posted | unposted | dropped | announced | unannounced | drained | finished => rfl
  | recorded => exact (recordObs_posts ..).2
  | worker _ move => exact move.posts.2
  | loop _ taken | crashed _ taken =>
      rw [(LoopState.step_move taken).running] at ended
      cases ended

variable {config : SchedulerConfig} {name host : String} {start : Nat}
variable {allowed : Runtime → List Obs → Label → Prop} {h : List Obs}

/-- The action channel is a queue, too. -/
theorem runtime_actions (run : (runtimeMachine config name host start).Run allowed s h) :
    ∃ rest, posts h = intake h ++ rest ∧ (s.loop.phase.running = true → s.actions = rest) := by
  induction run with
  | start => exact ⟨[], rfl, fun _ => rfl⟩
  | @step s t h label seen before _ taken ih =>
      obtain ⟨rest, past, kept⟩ := ih
      have transition := Runtime.step_transition taken
      rw [posts_append, intake_append, past]
      cases running : s.loop.phase.running with
      | true =>
          obtain ⟨rest', law, kept'⟩ := transition.actions running
          rw [kept running] at law
          exact ⟨rest', by rw [List.append_assoc, law, List.append_assoc], kept'⟩
      | false =>
          rw [transition.deaf running, List.append_nil]
          refine ⟨rest ++ posts seen, List.append_assoc .., fun still => ?_⟩
          rw [transition.running still] at running
          cases running

end Uppercut
