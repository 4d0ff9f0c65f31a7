import Uppercut.Core.Instances

/-!
# No instance is lost silently

An accepted instance that has left every place has seen `on_fail` or `on_stop`, and
only one of them. The one way to lose an instance without either is an insertion
into `actors` that replaces another instance: an `ok` return, or a spawn, of a tag
that already has an idle instance.
-/

namespace Uppercut

namespace Runtime

/-- The instances that are in a channel or with a worker. -/
def travelling (s : Runtime) : List Token :=
  s.events.filterMap Event.token? ++ s.workers.filterMap (·.stage.token?) ++
    s.actions.filterMap Action.token?

/-- The instance is in `actors`, in a channel or with a worker. -/
def Holds (s : Runtime) (tag : Tag) (actor : Actor) : Prop :=
  s.scheduler.actors tag = some actor ∨
    ∃ token ∈ s.travelling, token.tag = tag ∧ token.actor = actor

instance (s : Runtime) (tag : Tag) (actor : Actor) : Decidable (s.Holds tag actor) :=
  inferInstanceAs (Decidable (_ ∨ _))

/-- The step inserts into `actors` at a tag that already has an instance there. -/
def overwrites (s : Runtime) : Label → Bool
  | .loop (.receive (.return tag _ true) _) =>
      tag ∈ s.scheduler.active && s.scheduler.queue tag = some [] &&
        (s.scheduler.actors tag).isSome
  | .loop (.receive (.spawn tag _) _) =>
      tag ∉ s.scheduler.active && (s.scheduler.actors tag).isSome
  | _ => false

/-- No instance is replaced, and neither `on_fail` nor `on_stop` panics. -/
def KeepsInstances (s : Runtime) (_ : List Obs) (label : Label) : Prop :=
  s.overwrites label = false ∧ s.unwinds label = none

instance (s : Runtime) (h : List Obs) (label : Label) : Decidable (s.KeepsInstances h label) :=
  inferInstanceAs (Decidable (_ ∧ _))

end Runtime

variable {s t : Runtime} {label : Label} {gone come : List (Option Token)} {h seen : List Obs}
variable {tag : Tag} {actor : Actor} {P : Place → Bool}

/-- What no token has is not counted. -/
theorem census_eq_zero (tag : Tag) (f : Actor → Place → Nat) (s : Runtime) :
    census tag f s = 0 ↔ weight tag f (s.scheduler.token? tag) = 0 ∧
      ∀ token ∈ s.travelling, weight tag f (some token) = 0 := by
  have total {α : Type} (token? : α → Option Token) (l : List α) :
      Tally.total (fun a => weight tag f (token? a)) l = 0 ↔
        ∀ token ∈ l.filterMap token?, weight tag f (some token) = 0 := by
    rw [Tally.total_eq_zero]
    constructor
    · intro all token mem
      obtain ⟨a, here, known⟩ := List.mem_filterMap.mp mem
      exact known ▸ all a here
    · intro all a here
      cases known : token? a with
      | none => rfl
      | some token => exact all token (List.mem_filterMap.mpr ⟨a, here, known⟩)
  simp only [census, Nat.add_eq_zero_iff, total Event.token?, total Action.token?,
    total fun w : Worker => w.stage.token?, Runtime.travelling, List.forall_mem_append, and_assoc]

/-- Nothing is counted of an instance that is nowhere. -/
theorem census_of_not_holds (dropped : ¬ s.Holds tag actor) :
    census tag (one actor P) s = 0 := by
  simp only [Runtime.Holds, not_or, not_exists, not_and] at dropped
  obtain ⟨idle, travels⟩ := dropped
  refine (census_eq_zero tag (one actor P) s).mpr ⟨?_, fun token mem => ?_⟩
  · cases bound : s.scheduler.actors tag with
    | none => simp [Scheduler.token?, bound]
    | some other =>
        have ne : other ≠ actor := fun eq => idle (bound.trans (congrArg some eq))
        simp [Scheduler.token?, bound, ne]
  · rw [weight_one, if_neg fun held => travels token mem held.1 held.2.1]

/-- While no instance is replaced, an arm loses none. -/
theorem Arm.burial {s s' : Scheduler} {action : Action} {event : Option Event} {flow : Flow}
    (arm : Arm s action s' event flow) (tag : Tag) (actor : Actor)
    (kept : ∀ tag actor, action = .return tag actor true → tag ∈ s.active →
      s.queue tag = some [] → s.actors tag = none)
    (kept' : ∀ tag actor, action = .spawn tag actor → tag ∉ s.active → s.actors tag = none) :
    weight tag (one actor Place.unburied) action.token? +
        weight tag (one actor Place.unburied) (s.idleFor action) +
        (s.shows action event).countP (Obs.admits tag actor) ≤
      weight tag (one actor Place.unburied) (event.bind Event.token?) +
        weight tag (one actor Place.unburied) (s'.idleFor action) +
        (s.shows action event).countP (Obs.buries tag actor) := by
  cases arm
  case rested active waiting =>
    simp [Action.token?, Scheduler.idleFor, Scheduler.token?, Action.tag?, Place.unburied,
      kept _ _ rfl active waiting, Scheduler.accepts, Obs.admits]
  case spawned inactive =>
    simp [Action.token?, Scheduler.idleFor, Scheduler.token?, Action.tag?, Place.unburied,
      kept' _ _ rfl inactive, Scheduler.accepts, Obs.admits, inactive]
  all_goals simp [Event.token?, Action.token?, Scheduler.idleFor, Scheduler.token?,
      Action.tag?, Scheduler.accepts, Place.unburied, Obs.admits, Obs.buries, *]

/-- A worker that goes on hands an instance over or invokes its last callback. -/
theorem Worker.Move.burial {index : Nat} {connected : Bool} {w w' : Worker}
    {label : WorkerLabel} {input : Option Event} {output : Option Action}
    (move : w.Move index connected label input w' output seen) (tag : Tag) (actor : Actor)
    (connects : connected = true) :
    weight tag (one actor Place.unburied) (input.bind Event.token?) +
        weight tag (one actor Place.unburied) w.stage.token? +
        seen.countP (Obs.admits tag actor) ≤
      weight tag (one actor Place.unburied) w'.stage.token? +
        weight tag (one actor Place.unburied) (output.bind Action.token?) +
        seen.countP (Obs.buries tag actor) := by
  cases move
  case abandoned closed => simp [connects] at closed
  case flushed next => simp [Worker.Local.drain_token next, Stage.token?, Obs.admits]
  case returned ok _ =>
    cases ok <;> simp [Stage.token?, Action.token?, Place.unburied, Obs.admits]
  all_goals simp [Event.token?, Stage.token?, Action.token?, Place.unburied, Obs.admits,
    Obs.buries]

theorem Carry.burial (carry : Carry s label gone come seen t) (tag : Tag) (actor : Actor)
    (sound : s.Sound) (running : s.loop.phase.running = true) (still : t.loop.phase.running = true)
    (kept : s.KeepsInstances h label) :
    Tally.total (weight tag (one actor Place.unburied)) gone +
        seen.countP (Obs.admits tag actor) ≤
      Tally.total (weight tag (one actor Place.unburied)) come +
        seen.countP (Obs.buries tag actor) := by
  obtain ⟨replaces, unwinds⟩ := kept
  cases carry with
  | quiet _ _ quiet =>
      have unseen : seen.countP (Obs.admits tag actor) = 0 :=
        List.countP_eq_zero.mpr fun x mem => by
          have := quiet x mem
          cases x <;> first | exact Bool.false_ne_true | cases this
      simp [unseen]
  | sent => simp [Obs.admits]
  | @worker _ _ _ input _ _ _ _ _ known move popped hung _ workers lost discards =>
      have connects := sound.connected running
      have going := move.stays known unwinds hung connects (sound.untaken running popped)
      obtain rfl := lost_nil_of_running known workers going discards
      have := move.burial tag actor connects
      simp only [List.map_nil, Tally.total_cons, Tally.total_nil]
      omega
  | received _ _ _ arm =>
      have := arm.burial tag actor
        (fun tag actor eq active waiting => by
          subst eq
          simpa [Runtime.overwrites, active, waiting] using replaces)
        fun tag actor eq inactive => by
          subst eq
          simpa [Runtime.overwrites, inactive] using replaces
      simp only [Tally.total_cons, Tally.total_nil]
      omega
  | discarded ceased =>
      obtain ceased | ceased := ceased
      · simp [running] at ceased
      · simp [still] at ceased

variable {config : SchedulerConfig} {name host : String} {start : Nat}

/-- While the event loop runs, an accepted instance is still owned, or it was buried. -/
theorem accepted_le (run : (runtimeMachine config name host start).Run Runtime.KeepsInstances s h)
    (running : s.loop.phase.running = true) (tag : Tag) (actor : Actor) :
    h.countP (Obs.admits tag actor) ≤
      census tag (one actor Place.unburied) s + h.countP (Obs.buries tag actor) := by
  induction run with
  | start => exact Nat.zero_le _
  | step before kept taken ih =>
      have transition := Runtime.step_transition taken
      have sound := runtime_sound before
      have ran := transition.running running
      obtain ⟨gone, come, carry, sums⟩ := transition.carry sound
      have step := carry.burial tag actor sound ran running kept
      have sum := sums tag (one actor Place.unburied)
      have past := ih ran
      simp only [List.countP_append]
      omega

/-- **No silent loss.** In every run in which no instance is replaced in `actors` and
neither `on_fail` nor `on_stop` panics: while the event loop runs, an accepted
instance that is nowhere any more has seen exactly one of `on_fail` and `on_stop`. -/
theorem no_silent_loss
    (run : (runtimeMachine config name host start).Run Runtime.KeepsInstances s h)
    (running : s.loop.phase.running = true) (accepted : Obs.spawned tag actor ∈ h)
    (dropped : ¬ s.Holds tag actor) : h.countP (Obs.buries tag actor) = 1 := by
  have least := accepted_le run running tag actor
  have most := (burial tag actor).run run
  have once := admitted_once run tag actor
  have some : 0 < h.countP (Obs.admits tag actor) :=
    List.countP_pos_iff.mpr ⟨_, accepted, by simp [Obs.admits]⟩
  rw [census_of_not_holds dropped] at least
  omega

/-- The event loop receives an action and comes back to its head. -/
def turn (action : Action) : List Label :=
  [Label.loop (.receive action true), .loop (.clock 0), .loop (.tick 0 0)]

/-- The envelope of the message `value` as the `stamp`-th call sends it. -/
def letter (stamp value : Nat) : Envelope := { Envelope.of (.other value) with stamp := stamp }

/-- An idle actor is stopped, and a worker runs its `on_stop`. -/
def farewell : List Label :=
  [Label.call 0 (.spawn "b") 0] ++ turn (.spawn "b" ⟨0⟩) ++
  [Label.call 0 (.spawn "a") 0] ++ turn (.spawn "a" ⟨1⟩) ++
  [Label.call 0 (.stop "a") 0] ++ turn (.stop "a") ++
  [Label.worker 0 .take, .worker 0 (.finish true)]

theorem no_silent_loss_farewell :
    ∃ s h, (runtimeMachine .default "app" "host" 0).Run Runtime.KeepsInstances s h ∧
      Obs.spawned "a" ⟨1⟩ ∈ h ∧ ¬ s.Holds "a" ⟨1⟩ ∧ h.countP (Obs.buries "a" ⟨1⟩) = 1 :=
  have run := Machine.run_replay (runtimeMachine .default "app" "host" 0)
    Runtime.KeepsInstances farewell (by decide)
  ⟨_, _, run, by decide, by decide, no_silent_loss run (by decide) (by decide) (by decide)⟩

/-- The actor at `a` is stopped while it receives and `a` is spawned again. The return
of the stopped instance then replaces the new one. -/
def replacement : List Label :=
  [Label.call 0 (.spawn "b") 0] ++ turn (.spawn "b" ⟨0⟩) ++
  [Label.call 0 (.spawn "a") 0] ++ turn (.spawn "a" ⟨1⟩) ++
  [Label.call 0 (.send "a" (.of (.other 7))) 0] ++ turn (.queue "a" (letter 2 7)) ++
  [Label.worker 0 .take, .call 0 (.stop "a") 0, .call 0 (.spawn "a") 0] ++
  turn (.stop "a") ++ turn (.spawn "a" ⟨4⟩) ++
  [Label.worker 0 (.finish true), .worker 0 .advance] ++ turn (.return "a" ⟨1⟩ true)

/-- The instance that was replaced is gone without a callback. -/
theorem replaced_lost :
    ∃ s h, (runtimeMachine .default "app" "host" 0).Run
        (fun s _ label => s.unwinds label = none) s h ∧
      s.loop.phase.running = true ∧ Obs.spawned "a" ⟨4⟩ ∈ h ∧ ¬ s.Holds "a" ⟨4⟩ ∧
      h.countP (Obs.buries "a" ⟨4⟩) = 0 :=
  ⟨_, _, Machine.run_replay _ _ replacement (by decide), by decide, by decide, by decide, by decide⟩

end Uppercut
