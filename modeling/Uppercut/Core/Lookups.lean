import Uppercut.Core.System

/-!
# The lookups of the event loop

`active`, `queue` and `actors` are three maps that the arms of the event loop update one
after the other. `active` stays the set of the keys of `queue`, whatever is received, so the
loop finds what it looks up.
-/

namespace Uppercut

theorem Scheduler.WellFormed.keys {s : Scheduler} (wf : s.WellFormed) (tag : Tag) :
    tag ∈ s.active ↔ (s.queue tag).isSome = true := by
  constructor
  · intro active
    obtain ⟨mailbox, waiting⟩ := wf.queue_of_active active
    rw [waiting, Option.isSome_some]
  · intro waiting
    by_contra inactive
    rw [wf.queue_of_inactive inactive] at waiting
    cases waiting

variable {config : SchedulerConfig} {name host : String} {start : Nat}
variable {s : LoopState} {h : List Obs}

/-- **Lookups succeed.** After every sequence of received actions, releases and timeouts,
`active` is the key set of `queue`, every action that may come next is handled, and only an
event that nobody can receive ends the loop with a panic. -/
theorem lookups_succeed (run : (loopMachine config name host start).Reached s h) :
    (∀ tag, tag ∈ s.loop.scheduler.active ↔ (s.loop.scheduler.queue tag).isSome = true) ∧
    (∀ action, (s.loop.hit.handle action).isSome = true) ∧
    ∀ label t seen, s.step label = some (t, seen) → t.phase = .panicked →
      ∃ action event, label = .receive action false ∧
        (s.loop.hit.handle action).bind Handled.event = some event := by
  have wf := loop_wellFormed run
  refine ⟨wf.keys, fun action => EventLoop.handle_isSome (l := s.loop.hit) wf action, ?_⟩
  intro label t seen taken panicked
  cases LoopState.step_cases taken with
  | @crashed action _ _ failed =>
      -- The lookups that the arms rely on do not fail.
      have handled := EventLoop.handle_isSome (l := s.loop.hit) wf action
      rw [failed] at handled
      cases handled
  | @unsent action r event _ handled some_event =>
      exact ⟨action, event, rfl, by rw [handled, Option.bind_some, some_event]⟩
  | @received _ _ r =>
      cases flow : r.flow <;> rw [flow] at panicked <;> cases panicked
  | timeout | clock => cases panicked
  | release releasing => cases releasing.symm.trans panicked
  | tick =>
      dsimp only at panicked
      split at panicked <;> cases panicked

/-- The tag is spawned again before the first instance comes back. -/
def respawn : List LoopLabel :=
  let turn (action : Action) : List LoopLabel := [.receive action true, .clock 0, .tick 0 0]
  turn (.spawn "a" ⟨0⟩) ++ turn (.queue "a" ⟨.other 1, "", "", 1⟩) ++ turn (.stop "a") ++
    turn (.spawn "a" ⟨2⟩) ++ turn (.return "a" ⟨0⟩ true)

theorem lookups_succeed_respawn :
    ∃ s h, (loopMachine { SchedulerConfig.default with eagerShutdownEnabled := false } "app" "host"
        0).Reached s h ∧
      s.loop.scheduler.active = {"a"} ∧
      (∀ tag, tag ∈ s.loop.scheduler.active ↔ (s.loop.scheduler.queue tag).isSome = true) ∧
      (∀ action, (s.loop.hit.handle action).isSome = true) ∧
      ∀ label t seen, s.step label = some (t, seen) → t.phase = .panicked →
        ∃ action event, label = .receive action false ∧
          (s.loop.hit.handle action).bind Handled.event = some event := by
  have run := Machine.run_replay
    (loopMachine { SchedulerConfig.default with eagerShutdownEnabled := false } "app" "host" 0)
    (fun _ _ _ => True) respawn (by decide)
  exact ⟨_, _, run, by decide, lookups_succeed run⟩

end Uppercut
