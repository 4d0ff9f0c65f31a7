import Uppercut.Core.Closing
import Uppercut.Core.Stop

/-!
# No wake-up is lost

Behind every active tag there is an instance: it is idle, or it was mailed and its
return is still to come. So whatever waits in a mailbox is drained. The argument
counts, for each tag, the instances at these places; every step of the event loop
and of a worker hands the instance over.

The exception is a panic of `on_stop` that ends the last worker loop, for the mails
that wait in the events channel are discarded then.
-/

namespace Uppercut

/-- The places of an instance that keeps its tag going. -/
def Place.behind : Place → Bool
  | .idle => true
  | place => place.inFlight

/-- Counts every instance at the places in `P`. -/
def anyone (P : Place → Bool) : Actor → Place → Nat := fun _ place => (P place).toNat

@[simp] theorem weight_anyone (tag : Tag) (P : Place → Bool) (token : Token) :
    weight tag (anyone P) (some token) =
      if token.tag = tag ∧ P token.place = true then 1 else 0 := by
  cases among : P token.place <;> simp [weight_some, anyone, among]

namespace Runtime

/-- An instance of `tag` is idle, or in a mail, with a worker or in a return. -/
def Backed (s : Runtime) (tag : Tag) : Prop :=
  (s.scheduler.actors tag).isSome = true ∨
    ∃ token ∈ s.travelling, token.tag = tag ∧ token.place.inFlight = true

/-- An instance of `tag` is idle or in a return. -/
def Anchored (s : Runtime) (tag : Tag) : Prop :=
  (s.scheduler.actors tag).isSome = true ∨
    ∃ token ∈ s.actions.filterMap Action.token?, token.tag = tag ∧ token.place.inFlight = true

instance (s : Runtime) (tag : Tag) : Decidable (s.Backed tag) :=
  inferInstanceAs (Decidable (_ ∨ _))

instance (s : Runtime) (tag : Tag) : Decidable (s.Anchored tag) :=
  inferInstanceAs (Decidable (_ ∨ _))

/-- `on_fail` does not panic. When `on_stop` panics in the last worker loop, no active tag
has all its instances in the events channel. -/
def KeepsMails (s : Runtime) (_ : List Obs) (label : Label) : Prop :=
  s.unwinds label ≠ some .onFail ∧
    (s.unwinds label = some .onStop → s.loop.phase.running = true → s.live = 1 →
      ∀ tag ∈ s.scheduler.active, s.Anchored tag)

instance (s : Runtime) (h : List Obs) (label : Label) : Decidable (s.KeepsMails h label) :=
  inferInstanceAs (Decidable (_ ∧ _))

end Runtime

variable {s t : Runtime} {label : Label} {gone come : List (Option Token)} {h seen : List Obs}
variable {tag : Tag}

/-- An instance keeps its tag going exactly when it is counted. -/
theorem Runtime.backed_iff : s.Backed tag ↔ 0 < census tag (anyone Place.behind) s := by
  rw [Nat.pos_iff_ne_zero, Ne, census_eq_zero, not_and_or]
  refine or_congr ?_ ?_
  · cases bound : s.scheduler.actors tag <;> simp [Scheduler.token?, bound, Place.behind]
  · push Not
    refine exists_congr fun token => and_congr_right fun mem => ?_
    have away : token.place ≠ .idle := by
      simp only [travelling, List.mem_append, List.mem_filterMap] at mem
      obtain (⟨event, _, known⟩ | ⟨w, _, known⟩) | ⟨action, _, known⟩ := mem
      · cases event <;> cases known <;> simp
      · cases stage : w.stage <;> rw [stage] at known <;> cases known <;> simp
      · cases action <;> cases known <;> simp
    have same : token.place.behind = token.place.inFlight := by
      cases place : token.place <;> first | rfl | exact absurd place away
    simp [same]

/-- An instance that is not in the events channel is counted without it. -/
theorem Runtime.Anchored.without_events (anchored : s.Anchored tag) :
    Tally.total (fun event => weight tag (anyone Place.behind) (Event.token? event)) s.events <
      census tag (anyone Place.behind) s := by
  obtain idle | ⟨token, mem, rfl, out⟩ := anchored
  · obtain ⟨actor, idle⟩ := Option.isSome_iff_exists.mp idle
    have rests : weight tag (anyone Place.behind) (s.scheduler.token? tag) = 1 := by
      simp [Scheduler.token?, idle, Place.behind]
    simp only [census, rests]
    omega
  · obtain ⟨action, waits, known⟩ := List.mem_filterMap.mp mem
    have behind : token.place.behind = true := by
      cases place : token.place <;> first | rfl | (rw [place] at out; exact out)
    have own : weight token.tag (anyone Place.behind) action.token? = 1 := by
      simp [known, behind]
    have here := Tally.weight_le_total
      (fun action => weight token.tag (anyone Place.behind) (Action.token? action)) waits
    simp only [own] at here
    simp only [census]
    omega

/-- An active tag was active before and its instances were handed over, or it has just
been spawned. -/
theorem Arm.behind {s s' : Scheduler} {action : Action} {event : Option Event} {flow : Flow}
    (arm : Arm s action s' event flow) (active : tag ∈ s'.active) :
    tag ∈ s.active ∧
        weight tag (anyone Place.behind) action.token? +
            weight tag (anyone Place.behind) (s.idleFor action) ≤
          weight tag (anyone Place.behind) (event.bind Event.token?) +
            weight tag (anyone Place.behind) (s'.idleFor action) ∨
      0 < weight tag (anyone Place.behind) (event.bind Event.token?) +
        weight tag (anyone Place.behind) (s'.idleFor action) := by
  by_cases named : action.tag? = some tag
  · cases arm <;> simp only [Action.tag?, Option.some.injEq, reduceCtorEq] at named <;>
      subst named
    case failed | stoppedIdle | stoppedBusy => simp at active
    case stale inactive | spent inactive => exact absurd active inactive
    case undelivered inactive | unstopped inactive => exact absurd active inactive
    case queued => exact .inl ⟨active, le_rfl⟩
    case refused =>
      refine .inl ⟨active, ?_⟩
      simp [Action.token?, Place.behind, Place.inFlight]
    case resumed | woken =>
      refine .inr (Nat.add_pos_left ?_ _)
      simp [Event.token?, Place.behind, Place.inFlight]
    case rested | spawned =>
      refine .inr (Nat.add_pos_right _ ?_)
      simp [Scheduler.idleFor, Scheduler.token?, Action.tag?, Place.behind]
  · obtain ⟨same, apart⟩ := arm.address_other named
    left
    constructor
    · have still := congrArg Address.active same
      simpa [Scheduler.address, active] using still.symm
    · rw [weight_of_action_other named, weight_idleFor_other named]
      exact Nat.zero_le _

/-- A worker hands over the instance that it holds. -/
theorem Worker.Move.behind {index : Nat} {connected : Bool} {w w' : Worker}
    {label : WorkerLabel} {input : Option Event} {output : Option Action}
    (move : w.Move index connected label input w' output seen) (connects : connected = true)
    (known : s.workers[index]? = some w) (kept : s.unwinds (.worker index label) ≠ some .onFail)
    (tag : Tag) :
    weight tag (anyone Place.behind) (input.bind Event.token?) +
        weight tag (anyone Place.behind) w.stage.token? ≤
      weight tag (anyone Place.behind) w'.stage.token? +
        weight tag (anyone Place.behind) (output.bind Action.token?) := by
  cases move
  case lost => simp [Runtime.unwinds, known, Stage.callback?] at kept
  case abandoned closed => simp [connects] at closed
  case flushed next => simp [Worker.Local.drain_token next, Stage.token?]
  all_goals simp [Event.token?, Stage.token?, Action.token?, Place.behind, Place.inFlight]

/-- While the event loop runs, a worker loop goes on, or `on_stop` panics in it. -/
theorem Worker.Move.goes_on {index : Nat} {w w' : Worker} {label : WorkerLabel}
    {input : Option Event} {output : Option Action}
    (move : w.Move index s.actionsConnected label input w' output seen)
    (known : s.workers[index]? = some w) (kept : s.unwinds (.worker index label) ≠ some .onFail)
    (hung : label = .hangUp → s.events = [] ∧ s.actionsConnected = false)
    (connects : s.actionsConnected = true) (stays : input ≠ some .shutdown) :
    w'.stage.running = true ∨
      s.unwinds (.worker index label) = some .onStop ∧ w'.stage.running = false ∧
        input = none := by
  by_cases quiet : s.unwinds (.worker index label) = none
  · exact .inl (move.stays known quiet hung connects stays)
  · right
    cases move
    case crashed => exact ⟨by simp [Runtime.unwinds, known, Stage.callback?], rfl, rfl⟩
    all_goals simp [Runtime.unwinds, known, Stage.callback?] at quiet kept

theorem Carry.backed (carry : Carry s label gone come seen t) (sound : s.Sound)
    (sums : census tag (anyone Place.behind) t +
        Tally.total (weight tag (anyone Place.behind)) gone =
      census tag (anyone Place.behind) s + Tally.total (weight tag (anyone Place.behind)) come)
    (kept : s.KeepsMails h label) (running : s.loop.phase.running = true)
    (still : t.loop.phase.running = true)
    (past : tag ∈ s.scheduler.active → 0 < census tag (anyone Place.behind) s)
    (active : tag ∈ t.scheduler.active) : 0 < census tag (anyone Place.behind) t := by
  cases carry with
  | quiet same =>
      have := past (same ▸ active)
      simp only [Tally.total_nil] at sums
      omega
  | sent _ loop =>
      have := past (by rwa [Runtime.scheduler, loop] at active)
      simp only [Tally.total_nil] at sums
      omega
  | @worker index label w input events w' output _ _ known move popped hung loop workers lost
      discards =>
      have connects := sound.connected running
      have handed := move.behind connects known kept.1 tag
      have here : tag ∈ s.scheduler.active := by rwa [Runtime.scheduler, loop] at active
      have before := past here
      simp only [Tally.total_cons, Tally.total_nil, total_weight_map] at sums
      obtain going | ⟨panics, ceased, rfl⟩ :=
        move.goes_on known kept.1 hung connects (sound.untaken running popped)
      · obtain rfl := lost_nil_of_running known workers going discards
        simp only [Tally.total_nil] at sums
        omega
      · obtain rfl | ⟨rfl, none⟩ := discards
        · simp only [Tally.total_nil] at sums
          omega
        · -- The last worker loop ends, and only what is elsewhere remains.
          have last : s.live = 1 := by
            have count := live_set known w'
            rw [move.running, ceased, ← workers] at count
            have empty : ¬ 0 < t.live := by simp [← Runtime.eventsConnected_iff, none]
            simp only [Runtime.live, Bool.toNat_true, Bool.toNat_false] at empty count ⊢
            omega
          have elsewhere := (kept.2 panics running last tag here).without_events
          obtain rfl : s.events = lost := popped
          omega
  | @received action _ _ _ _ head _ _ arm =>
      simp only [Tally.total_cons, Tally.total_nil] at sums
      obtain ⟨here, handed⟩ | new := arm.behind active
      · have := past here
        omega
      · have idle := weight_idleFor_le tag (anyone Place.behind) s.scheduler action
        have waits := Tally.weight_le_total
          (fun action => weight tag (anyone Place.behind) (Action.token? action)) head
        simp only [census] at sums ⊢
        omega
  | discarded ceased =>
      obtain ceased | ceased := ceased
      · simp [running] at ceased
      · simp [still] at ceased

variable {config : SchedulerConfig} {name host : String} {start : Nat}

/-- In every run that keeps the mails, an active tag has an instance behind it. -/
theorem runtime_backed (run : (runtimeMachine config name host start).Run Runtime.KeepsMails s h)
    (running : s.loop.phase.running = true) (active : tag ∈ s.scheduler.active) :
    s.Backed tag := by
  rw [Runtime.backed_iff]
  induction run with
  | start => exact absurd active (Finset.notMem_empty tag)
  | step before kept taken ih =>
      have transition := Runtime.step_transition taken
      have sound := runtime_sound before
      have ran := transition.running running
      obtain ⟨gone, come, carry, sums⟩ := transition.carry sound
      exact carry.backed sound (sums tag _) kept ran running (ih ran) active

/-- **No lost wake-up.** In every run in which `on_fail` does not panic, and `on_stop` does
not panic in the last worker loop while an active tag has all its instances in the events
channel: as long as the event loop runs, an active tag whose instance is idle has an empty
mailbox, and every active tag has an instance that is idle, in a mail, with a worker or
in a return. So a tag with waiting envelopes has an instance whose return drains them. -/
theorem no_lost_wakeup
    (run : (runtimeMachine config name host start).Run Runtime.KeepsMails s h)
    (running : s.loop.phase.running = true) (active : tag ∈ s.scheduler.active) :
    ((s.scheduler.actors tag).isSome = true → s.scheduler.queue tag = some []) ∧
      s.Backed tag ∧
      ∀ envelope mailbox, s.scheduler.queue tag = some (envelope :: mailbox) →
        ∃ token ∈ s.travelling, token.tag = tag ∧ token.place.inFlight = true := by
  have wf := (runtime_sound run).wellFormed
  have rested (idle : (s.scheduler.actors tag).isSome = true) :
      s.scheduler.queue tag = some [] := by
    obtain ⟨actor, idle⟩ := Option.isSome_iff_exists.mp idle
    exact wf.queue_of_idle active idle
  have backed := runtime_backed run running active
  refine ⟨rested, backed, ?_⟩
  intro envelope mailbox waiting
  apply backed.resolve_left
  intro idle
  cases waiting.symm.trans (rested idle)

/-- An actor is busy with one envelope while the next one waits. -/
def crowd : List Label :=
  [Label.call 0 (.spawn "a") 0] ++ turn (.spawn "a" ⟨0⟩) ++
  [Label.call 0 (.send "a" (.of (.other 7))) 0] ++ turn (.queue "a" (letter 1 7)) ++
  [Label.call 0 (.send "a" (.of (.other 8))) 0] ++ turn (.queue "a" (letter 2 8)) ++
  [Label.worker 0 .take, .worker 0 (.finish false)]

theorem no_lost_wakeup_crowd :
    ∃ s h, (runtimeMachine .default "app" "host" 0).Run Runtime.KeepsMails s h ∧
      ∃ token ∈ s.travelling, token.tag = "a" ∧ token.place.inFlight = true := by
  have run := Machine.run_replay (runtimeMachine .default "app" "host" 0) Runtime.KeepsMails
    crowd (by decide)
  refine ⟨_, _, run, ?_⟩
  exact (@no_lost_wakeup _ _ "a" _ _ _ _ run (by decide) (by decide)).2.2 (letter 2 8) []
    (by decide)

/-- The actor at `a` is stopped while the actor at `b` is mailed. The only worker panics
in `on_stop`. -/
def lastWorker : List Label :=
  [Label.call 0 (.spawn "a") 0] ++ turn (.spawn "a" ⟨0⟩) ++
  [Label.call 0 (.spawn "b") 0] ++ turn (.spawn "b" ⟨1⟩) ++
  [Label.call 0 (.stop "a") 0] ++ turn (.stop "a") ++
  [Label.worker 0 .take, .call 0 (.send "b" (.of (.other 7))) 0] ++
  turn (.queue "b" (letter 3 7)) ++ [Label.worker 0 (.finish false)]

/-- The mail to `b` is discarded with the channel, and nobody is left behind `b`. -/
theorem wakeup_lost :
    ∃ s h, (runtimeMachine { SchedulerConfig.default with actorWorkerThreads := 1 } "app" "host"
        0).Run (fun s _ label => s.unwinds label ≠ some .onFail) s h ∧
      s.loop.phase.running = true ∧ "b" ∈ s.scheduler.active ∧ ¬ s.Backed "b" :=
  ⟨_, _, Machine.run_replay _ _ lastWorker (by decide), by decide, by decide, by decide⟩

end Uppercut
