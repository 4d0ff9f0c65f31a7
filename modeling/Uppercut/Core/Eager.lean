import Uppercut.Core.Owed

/-!
# The eager end is quiet

The event loop ends by itself when nothing is active at the end of an iteration. The
check looks at `active` only. Instances that were stopped while they were away and
spawns that wait in the action channel escape it, so the rule asks that neither is
there when nothing is active. Then nobody is on the way any more when the loop ends,
and each instance that was stopped gets its `on_stop`.
-/

namespace Uppercut

def Action.spawns : Action → Bool
  | .spawn _ _ => true
  | _ => false

def Event.dismisses : Event → Bool
  | .stop _ _ => true
  | _ => false

def Obs.begins : Obs → Bool
  | .spawned _ _ => true
  | _ => false

/-- A spawn was accepted. -/
def began (h : List Obs) : Bool := h.any Obs.begins

/-- With this action the event loop comes to the rest of its iteration, and nothing is
active then. -/
def Scheduler.deserts (s : Scheduler) : Action → Bool
  | .stop tag => decide (s.active.erase tag = ∅)
  | .spawn _ _ | .shutdown => false
  | .return _ _ ok => ok && decide (s.active = ∅)
  | .queue _ _ | .delay _ | .logs _ _ | .metrics _ => decide (s.active = ∅)

namespace Runtime

/-- The event loop is past the `match` with nothing active, after something was. -/
def lastRound (s : Runtime) (h : List Obs) : Bool :=
  match s.loop.phase with
  | .reading | .releasing _ => began h && decide (s.scheduler.active = ∅)
  | .receiving | .exited | .panicked => false

/-- The rule for received actions: no spawn of a tag whose instance is owed, no failed
return of a stopped instance, and no spawn behind the action that deserts the loop. -/
def Orderly (s : Runtime) (h : List Obs) (action : Action) : Prop :=
  s.scheduler.InTurn h action ∧
    (match action with
      | .return tag _ false => tag ∈ s.scheduler.active
      | _ => True) ∧
    (began h = true → s.scheduler.deserts action = true →
      ∀ waiting ∈ s.actions.tail, waiting.spawns = false)

instance (s : Runtime) (h : List Obs) (action : Action) : Decidable (s.Orderly h action) := by
  unfold Orderly
  have : Decidable (match action with
      | .return tag _ false => tag ∈ s.scheduler.active
      | _ => True) := by split <;> infer_instance
  infer_instance

/-- Nobody calls `shutdown` or spawns in the last round, the received actions are orderly,
nobody is owed when the loop finds nothing active, and the last worker loop is not unwound
while a stop event waits for it. -/
def Quiesces (s : Runtime) (h : List Obs) : Label → Prop
  | .shutdown _ => False
  | .call _ (.spawn _) _ | .worker _ (.call (.spawn _) _) => s.lastRound h = false
  | .loop (.receive action _) => s.Orderly h action
  | .loop (.tick _ _) =>
      s.scheduler.active = ∅ → ∀ tag ∈ h.filterMap Obs.ends?, owed tag h = false
  | .worker index (.finish ok) =>
      (s.unwinds (.worker index (.finish ok))).isSome = true → s.live = 1 →
        ∀ event ∈ s.events, event.dismisses = false
  | _ => True

instance (s : Runtime) (h : List Obs) (label : Label) : Decidable (s.Quiesces h label) := by
  unfold Quiesces
  split <;> infer_instance

end Runtime

variable {s t : Runtime} {label : Label} {h seen : List Obs} {tag : Tag} {actor : Actor}

@[simp] theorem began_append (h seen : List Obs) :
    began (h ++ seen) = (began h || seen.any Obs.begins) := List.any_append

section Arm

variable {l l' : Scheduler} {action : Action} {event : Option Event} {flow : Flow}

/-- An arm that goes on with nothing active accepts no spawn. -/
theorem Arm.deserts (arm : Arm l action l' event flow) (next : flow = .next)
    (empty : l'.active = ∅)
    (steady : ∀ tag actor, action = .return tag actor false → tag ∈ l.active) :
    l.deserts action = true ∧ (l.shows action event).any Obs.begins = false := by
  cases arm <;> simp_all [Scheduler.deserts, Scheduler.accepts, Obs.begins]

/-- What an accepted stop adds to the stopped instances. -/
theorem mem_retired_shows
    (mem : actor ∈ retired tag (h ++ l.shows action event)) :
    actor ∈ retired tag h ∨
      action = .stop tag ∧ tag ∈ l.active ∧ bound tag h = some actor := by
  rw [retired, History.gather_append, List.mem_append, ← retired] at mem
  refine mem.imp id fun new => ?_
  cases action with
  | stop tag' =>
      by_cases active : tag' ∈ l.active
      · obtain ⟨rfl, known⟩ : tag' = tag ∧
            bound tag (h ++ [.received (.stop tag')]) = some actor := by
          cases event <;> simpa [Scheduler.accepts, active, Obs.mem_retires] using new
        rw [bound_settled tag' h _ (by simp)] at known
        exact ⟨rfl, active, known⟩
      · cases event <;> simp [Scheduler.accepts, active, Obs.mem_retires] at new
  | spawn tag' other =>
      by_cases active : tag' ∈ l.active <;> cases event <;>
        simp [Scheduler.accepts, active, Obs.mem_retires] at new
  | _ => cases event <;> simp [Scheduler.accepts, Obs.mem_retires] at new

/-- A stopped instance is handed to its stop event, or it is owed from now on. -/
theorem Arm.farewell (arm : Arm l action l' event flow) (turn : l.InTurn h action)
    (steady : ∀ tag actor, action = .return tag actor false → tag ∈ l.active)
    (apart : tag ∈ l.active → owed tag h = false)
    (idle : ∀ actor, l.actors tag = some actor → bound tag h = some actor)
    (back : ∀ actor ok, action = .return tag actor ok → bound tag h = some actor)
    (ended : owed tag h = true ∧ bound tag h = some actor ∨
      action = .stop tag ∧ tag ∈ l.active ∧ bound tag h = some actor) :
    event = some (.stop tag actor) ∨
      owed tag (h ++ l.shows action event) = true ∧
        bound tag (h ++ l.shows action event) = some actor := by
  have known : bound tag h = some actor := by
    obtain ⟨_, known⟩ | ⟨_, _, known⟩ := ended <;> exact known
  by_cases named : action.tag? = some tag
  · cases arm <;> simp only [Action.tag?, Option.some.injEq, reduceCtorEq] at named <;>
      subst named
    case stale other _ =>
      left
      rw [Option.some.inj (known.symm.trans (back other true rfl))]
    case stoppedIdle other _ rests =>
      left
      rw [Option.some.inj (known.symm.trans (idle other rests))]
    case stoppedBusy active busy =>
      refine .inr ⟨by simp [owed_append, Obs.owes, Scheduler.accepts, active], ?_⟩
      rw [bound_settled _ _ _ (by simp [Scheduler.accepts, active])]
      exact known
    case failed active | rested active _ | queued active _ _ | refused active =>
      obtain ⟨away, _⟩ := ended.resolve_right (by simp)
      cases away.symm.trans (apart active)
    case resumed active _ | woken active _ _ _ =>
      obtain ⟨away, _⟩ := ended.resolve_right (by simp)
      cases away.symm.trans (apart active)
    case spent inactive => exact absurd (steady _ _ rfl) inactive
    case spawned inactive =>
      obtain ⟨away, _⟩ := ended.resolve_right (by simp)
      cases away.symm.trans (turn inactive)
    case undelivered inactive | unstopped inactive =>
      obtain ⟨away, _⟩ := ended.resolve_right fun stop => inactive stop.2.1
      refine .inr ⟨by simp [owed_append, Obs.owes, Scheduler.accepts, inactive, away], ?_⟩
      rw [bound_settled _ _ _ (by simp [Scheduler.accepts, inactive])]
      exact known
  · obtain ⟨away, _⟩ := ended.resolve_right fun stop => named (stop.1 ▸ rfl)
    refine .inr ⟨?_, ?_⟩
    · rw [owed_settled (arm.owes_other named)]
      exact away
    · rw [bound_settled _ _ _ fun other mem => ?_]
      · exact known
      · exact named (by rw [(Scheduler.spawned_mem_shows.mp mem).1]; rfl)

end Arm

theorem Runtime.lastRound_iff : s.lastRound h = true ↔
    (s.loop.phase = .reading ∨ ∃ now, s.loop.phase = .releasing now) ∧ began h = true ∧
      s.scheduler.active = ∅ := by
  cases phase : s.loop.phase <;> simp [lastRound, phase]

/-- A call that sends a spawn is a spawn. -/
theorem Runtime.Calls.spawns {sender : Sender} {action : Action}
    (calls : s.Calls label sender action) (spawn : action.spawns = true)
    (rule : s.Quiesces h label) : s.lastRound h = false := by
  cases calls with
  | shutdown => cases spawn
  | @thread _ call _ _ _ sends | @actor _ call _ _ _ _ _ _ _ _ sends =>
      cases call with
      | spawn => exact rule
      | send | delay | stop =>
          cases sends
          cases spawn
      | log | metric => cases sends

theorem Worker.Move.unspawned {index : Nat} {connected : Bool} {w w' : Worker}
    {label : WorkerLabel} {input : Option Event} {output : Option Action}
    (move : w.Move index connected label input w' output seen) :
    (∀ action ∈ output, action.spawns = false ∧ action ≠ .shutdown) ∧
      seen.any Obs.begins = false := by
  cases move
  case flushed next =>
    obtain ⟨_, rfl, _⟩ | ⟨_, _, rfl, _⟩ := Local.drain_some next <;>
      simp [Action.spawns, Obs.begins]
  all_goals simp [Action.spawns, Obs.begins]

/-- How the event loop comes to the rest of its iteration, or goes on there. -/
theorem LoopMove.round {phase phase' : Phase} {l l' : Scheduler} {label : LoopLabel}
    (move : LoopMove phase l label phase' l' seen)
    (round : phase' = .reading ∨ ∃ now, phase' = .releasing now) :
    (∃ action connected event, label = .receive action connected ∧
      Arm l action l' event .next ∧ seen = l.shows action event) ∨
    label = .timeout ∧ seen = [] ∨
    (∀ action connected, label ≠ .receive action connected) ∧
      (phase = .reading ∨ ∃ now, phase = .releasing now) ∧ l'.active = l.active ∧
      seen.any Obs.begins = false ∧
      ∀ action ∈ seen.filterMap Obs.requeued?, action.spawns = false := by
  cases move with
  | crashed | unsent => simp at round
  | @received action connected _ event flow _ arm =>
      refine .inl ⟨action, connected, event, rfl, ?_, rfl⟩
      cases flow with
      | next => exact arm
      | «continue» | «break» => simp [Flow.phase] at round
  | timeout => exact .inr (.inl ⟨rfl, rfl⟩)
  | clock reading => exact .inr (.inr ⟨by simp, .inl reading, rfl, rfl, by simp⟩)
  | release releasing =>
      exact .inr (.inr ⟨by simp, .inr ⟨_, releasing⟩, rfl, rfl, by
        simp [Obs.requeued?, Action.spawns]⟩)
  | tick => split at round <;> simp at round

/-- In the last round no spawn waits in the action channel. -/
theorem Transition.unspawned (transition : Transition s label t seen) (rule : s.Quiesces h label)
    (past : s.lastRound h = true → ∀ action ∈ s.actions, action.spawns = false)
    (last : t.lastRound (h ++ seen) = true) : ∀ action ∈ t.actions, action.spawns = false := by
  obtain ⟨phase, started, empty⟩ := Runtime.lastRound_iff.mp last
  simp only [began_append, Bool.or_eq_true] at started
  -- A step that leaves the event loop alone and accepts nothing is in the round already.
  have within (loop : t.loop = s.loop) (none : seen.any Obs.begins = false) :
      ∀ action ∈ s.actions, action.spawns = false := by
    refine past (Runtime.lastRound_iff.mpr ?_)
    rw [Runtime.scheduler, ← loop]
    exact ⟨phase, started.resolve_right (by simp [none]), empty⟩
  cases transition with
  | @posted _ _ action _ calls =>
      have old := within rfl rfl
      intro action' mem
      obtain waits | new := List.mem_append.mp mem
      · exact old action' waits
      · obtain rfl := List.mem_singleton.mp new
        by_contra spawn
        have before := calls.spawns (by simpa using spawn) rule
        have here : s.lastRound h = true := Runtime.lastRound_iff.mpr
          ⟨phase, started.resolve_right (by simp [Obs.begins]), empty⟩
        simp [here] at before
  | unposted | dropped => exact within rfl rfl
  | @recorded index call now _ tag actor =>
      apply within rfl
      cases call <;> rfl
  | worker _ move =>
      obtain ⟨kept, none⟩ := move.unspawned
      have old := within rfl none
      intro action mem
      obtain waits | new := List.mem_append.mp mem
      · exact old action waits
      · exact (kept action (by simpa using new)).1
  | @loop step _ _ offered taken running =>
      obtain ⟨action, connected, event, rfl, arm, rfl⟩ | ⟨rfl, rfl⟩ |
        ⟨unread, round, same, none, kept⟩ := (LoopState.step_move taken).round phase
      · obtain ⟨_, steady, alone⟩ := rule
        obtain ⟨deserts, none⟩ := arm.deserts rfl empty fun tag actor eq => by
          subst eq
          exact steady
        rw [requeued_shows, List.append_nil]
        exact alone (started.resolve_right (by rw [none]; exact Bool.false_ne_true)) deserts
      · have drained : s.actions = [] := by simpa [Runtime.offers] using offered
        simp [Runtime.unread, drained]
      · have here : s.lastRound h = true := Runtime.lastRound_iff.mpr
          ⟨round, started.resolve_right (by simp [none]), same ▸ empty⟩
        rw [Runtime.unread_eq unread]
        intro action mem
        obtain waits | new := List.mem_append.mp mem
        · exact past here action waits
        · exact kept action new
  | crashed _ _ panicked =>
      simp only at phase
      obtain reading | ⟨now, releasing⟩ := phase
      · cases reading.symm.trans panicked
      · cases releasing.symm.trans panicked
  | announced closing | unannounced closing | drained closing | finished closing =>
      have exited := s.exited_of_closing closing
      obtain reading | ⟨now, releasing⟩ := phase
      · cases reading.symm.trans exited
      · cases releasing.symm.trans exited

/-- Without a call of `shutdown` no shutdown action is sent. -/
theorem Transition.unclosed (transition : Transition s label t seen) (rule : s.Quiesces h label)
    (past : Action.shutdown ∉ s.actions) : Action.shutdown ∉ t.actions := by
  intro mem
  cases transition with
  | posted calls =>
      obtain waits | new := List.mem_append.mp mem
      · exact past waits
      · obtain rfl := List.mem_singleton.mp new
        cases calls with
        | shutdown => exact rule
        | thread _ sends | actor _ _ sends => cases ‹Call› <;> cases sends
  | unposted | dropped | recorded | announced => exact past mem
  | worker _ move =>
      obtain waits | new := List.mem_append.mp mem
      · exact past waits
      · exact (move.unspawned.1 _ (by simpa using new)).2 rfl
  | @loop step =>
      obtain waits | new := List.mem_append.mp mem
      · cases step with
        | receive => exact past (List.mem_of_mem_tail waits)
        | timeout | clock | release | tick => exact past waits
      · obtain ⟨x, _, requeues⟩ := List.mem_filterMap.mp new
        cases x <;> cases requeues
  | crashed | unannounced => cases mem
  | drained => exact past (List.mem_of_mem_tail mem)
  | finished => exact past mem

/-- The event loop is left by a shutdown action or by the eager check. -/
theorem LoopMove.exits {phase phase' : Phase} {l l' : Scheduler} {label : LoopLabel}
    (move : LoopMove phase l label phase' l' seen) (exited : phase' = .exited) :
    (∃ connected, label = .receive .shutdown connected) ∨
      (∃ instant time, label = .tick instant time) ∧ (∃ now, phase = .releasing now) ∧
        l.active = ∅ ∧ l' = l ∧ ∃ reports, seen = [.ticked reports] := by
  cases move with
  | crashed | unsent | timeout | clock => cases exited
  | @received action connected _ event flow _ arm =>
      cases arm <;> cases exited
      exact .inl ⟨connected, rfl⟩
  | release releasing => cases releasing.symm.trans exited
  | @tick _ reports instant time releasing =>
      split at exited
      case isTrue empty =>
        exact .inr ⟨⟨instant, time, rfl⟩, ⟨_, releasing⟩, empty.2, rfl, reports, rfl⟩
      case isFalse => cases exited

/-- Without shutdown actions the event loop is left by the eager check only. -/
theorem Transition.exits (transition : Transition s label t seen)
    (unclosed : Action.shutdown ∉ s.actions) (before : s.loop.phase ≠ .exited)
    (exited : t.loop.phase = .exited) :
    (∃ instant time, label = .loop (.tick instant time)) ∧
      (∃ now, s.loop.phase = .releasing now) ∧ s.scheduler.active = ∅ ∧
      t.scheduler = s.scheduler ∧ t.events = s.events ∧ t.workers = s.workers ∧
      t.actions = s.actions ∧ ∃ reports, seen = [.ticked reports] := by
  cases transition with
  | posted | unposted | dropped | recorded | worker | announced | unannounced | drained
  | finished => exact absurd exited before
  | crashed _ _ panicked => cases exited.symm.trans panicked
  | @loop step loop seen offered taken running =>
      obtain ⟨connected, rfl⟩ | ⟨⟨instant, time, rfl⟩, round, empty, same, reports, rfl⟩ :=
        (LoopState.step_move taken).exits exited
      · exact absurd (Runtime.mem_of_offers offered) unclosed
      · exact ⟨⟨instant, time, rfl⟩, round, empty, same, List.append_nil _, rfl,
          List.append_nil _, reports, rfl⟩

/-- The last worker loop is not unwound while a stop event waits. -/
theorem Runtime.Quiesces.spares (rule : s.Quiesces h label) (unwinds : s.unwinds label ≠ none) :
    s.live = 1 → ∀ event ∈ s.events, event.dismisses = false := by
  cases label with
  | worker index wl =>
      cases wl with
      | finish ok => exact rule (Option.isSome_iff_ne_none.mpr unwinds)
      | take | call | advance | hangUp => exact absurd rfl unwinds
  | call | shutdown | dropRun | loop | sendShutdown | drain | finish => exact absurd rfl unwinds

/-- A stop event waits until a worker calls `on_stop`. -/
theorem Transition.stop_waits (transition : Transition s label t seen) (rule : s.Quiesces h label)
    (open' : s.eventsConnected = true → s.actionsConnected = true)
    (last : ∀ events, s.events = .shutdown :: events → ∀ event ∈ events, event = .shutdown)
    (waits : Event.stop tag actor ∈ s.events) :
    Event.stop tag actor ∈ t.events ∨ ∃ i, Obs.called i tag actor .onStop ∈ seen := by
  cases transition with
  | posted | unposted | dropped | recorded | crashed | unannounced | drained | finished =>
      exact .inl waits
  | loop | announced => exact .inl (List.mem_append_left _ waits)
  | @worker index wl w input events w' _ seen known move popped hung =>
      rw [popped] at waits
      obtain taken | stays := List.mem_append.mp waits
      · obtain rfl : input = some (.stop tag actor) := by simpa using taken
        cases move
        exact .inr ⟨index, by simp⟩
      · left
        simp only
        split
        case isTrue => exact stays
        case isFalse gone =>
          have ended : w'.stage.running = false := by
            by_contra goes
            exact gone (Runtime.any_running_set known (by simpa using goes))
          have connects := open' (connected_of_known known move.running)
          by_cases steady : s.unwinds (.worker index wl) = none
          · obtain ⟨unwound, ends⟩ := move.steady known steady hung connects
            have exited : w'.stage = .exited := by
              cases stage : w'.stage <;> simp_all [Stage.running]
            obtain rfl := ends exited
            cases last events popped _ stays
          · have rule := rule.spares steady
            have last : s.live = 1 := by
              have count := live_set known w'
              have none : (s.workers.set index w').countP (·.stage.running) = 0 := by
                rw [List.countP_eq_zero]
                intro v mem running
                exact gone (List.any_eq_true.mpr ⟨v, mem, running⟩)
              rw [move.running, ended, none] at count
              simp only [Bool.toNat_true, Bool.toNat_false] at count
              rw [Runtime.live]
              omega
            cases rule last (.stop tag actor) (popped ▸ List.mem_append_right _ stays)

/-- What the event loop sends waits in the channel. -/
theorem Transition.emits {step : LoopLabel} (transition : Transition s (.loop step) t seen)
    (sound : s.Sound) : ∀ event ∈ output seen, event ∈ t.events := by
  intro event sent
  cases transition with
  | posted calls | unposted calls => cases calls
  | loop => exact List.mem_append_right _ sent
  | crashed _ taken panicked =>
      obtain ⟨rfl, _⟩ := (LoopState.step_move taken).panics sound.wellFormed panicked
      cases sent

/-- An idle instance is behind its tag. -/
theorem census_behind_of_idle (idle : s.scheduler.actors tag = some actor) :
    0 < census tag (one actor Place.behind) s := by
  have rests : weight tag (one actor Place.behind) (s.scheduler.token? tag) = 1 := by
    simp [Scheduler.token?, idle, Place.behind]
  simp only [census, rests]
  omega

variable {config : SchedulerConfig} {name host : String} {start : Nat}
variable {allowed : Runtime → List Obs → Label → Prop}

/-- When a shutdown event is next, only others of its kind are behind it. -/
theorem runtime_last (run : (runtimeMachine config name host start).Run allowed s h)
    (events : List Event) (next : s.events = .shutdown :: events) :
    ∀ event ∈ events, event = .shutdown := by
  obtain ⟨rest, split, kept⟩ := runtime_events run
  have here : s.events = rest := kept.resolve_right fun gone => by simp [gone.1] at next
  have passed : output h = (intakeEvents h ++ [.shutdown]) ++ events := by
    rw [split, ← here, next, List.append_assoc, List.singleton_append]
  exact shutdowns_behind run passed (by simp)

theorem Runtime.Quiesces.inTurn (rule : s.Quiesces h label) : s.SpawnsInTurn h label := by
  cases label with
  | loop step =>
      cases step with
      | receive => exact rule.1
      | timeout | clock | release | tick => trivial
  | call | shutdown | dropRun | worker | sendShutdown | drain | finish => trivial

section Run

variable (run : (runtimeMachine config name host start).Run Runtime.Quiesces s h)
include run

theorem runtime_unclosed : Action.shutdown ∉ s.actions := by
  induction run with
  | start => exact List.not_mem_nil
  | step _ rule taken ih => exact (Runtime.step_transition taken).unclosed rule ih

theorem runtime_unspawned (last : s.lastRound h = true) :
    ∀ action ∈ s.actions, action.spawns = false := by
  induction run with
  | start => cases last
  | step _ rule taken ih => exact (Runtime.step_transition taken).unspawned rule ih last

/-- Nobody is owed when the event loop has ended. -/
theorem runtime_unowed (exited : s.loop.phase = .exited) (tag : Tag) : owed tag h = false := by
  induction run with
  | start => rfl
  | @step s t h label seen before rule taken ih =>
      have transition := Runtime.step_transition taken
      by_cases ceased : s.loop.phase = .exited
      · obtain ⟨gone, come, carry, _⟩ := transition.carry (runtime_sound before)
        obtain ⟨_, _, _, _, _, _, _, _, _, _, at_head⟩ | ⟨calm, _⟩ := carry.received_or_calm
        · cases ceased.symm.trans at_head
        · rw [owed_settled fun x mem => Obs.owes_of_calm (calm x mem)]
          exact ih ceased
      · obtain ⟨⟨_, _, rfl⟩, _, empty, _, _, _, _, reports, rfl⟩ :=
          transition.exits (runtime_unclosed before) ceased exited
        rw [owed_settled (by simp [Obs.owes])]
        by_contra away
        have away : owed tag h = true := by simpa using away
        simp [rule empty tag (mem_of_owed away)] at away

theorem runtime_inTurn : (runtimeMachine config name host start).Run Runtime.SpawnsInTurn s h :=
  run.mono fun _ rule => rule.inTurn

/-- Whoever was stopped has seen `on_stop`, is about to, or is owed. -/
theorem runtime_farewell (ended : actor ∈ retired tag h) :
    (∃ i, Obs.called i tag actor .onStop ∈ h) ∨ Event.stop tag actor ∈ s.events ∨
      owed tag h = true ∧ bound tag h = some actor := by
  induction run with
  | start => cases ended
  | @step s t h label seen before rule taken ih =>
      have transition := Runtime.step_transition taken
      have keep (past : (∃ i, Obs.called i tag actor .onStop ∈ h) ∨
          Event.stop tag actor ∈ s.events) :
          (∃ i, Obs.called i tag actor .onStop ∈ h ++ seen) ∨ Event.stop tag actor ∈ t.events := by
        obtain ⟨i, called⟩ | waits := past
        · exact .inl ⟨i, List.mem_append_left _ called⟩
        · obtain stays | ⟨i, called⟩ :=
            transition.stop_waits rule (runtime_connected before) (runtime_last before) waits
          · exact .inr stays
          · exact .inl ⟨i, List.mem_append_right _ called⟩
      obtain ⟨gone, come, carry, _⟩ := transition.carry (runtime_sound before)
      obtain ⟨action, connected, event, flow, rfl, head, arm, rfl, _, _, _⟩ | ⟨calm, _⟩ :=
        carry.received_or_calm
      · have behind {other : Actor} (here : 0 < census tag (one other Place.behind) s) :
            bound tag h = some other := runtime_newcomer (runtime_inTurn before) here
        have away (ceased : owed tag h = true ∧ bound tag h = some actor ∨
            action = .stop tag ∧ tag ∈ s.scheduler.active ∧ bound tag h = some actor) :
            Event.stop tag actor ∈ t.events ∨
              owed tag (h ++ s.scheduler.shows action event) = true ∧
                bound tag (h ++ s.scheduler.shows action event) = some actor := by
          refine (arm.farewell rule.1 ?_ ?_ ?_ ?_ ceased).imp_left ?_
          · rintro owner other rfl
            exact rule.2.1
          · exact (runtime_room (runtime_inTurn before) tag).1
          · exact fun other idle => behind (census_behind_of_idle idle)
          · rintro other ok rfl
            exact behind (census_action_pos head rfl rfl)
          · rintro rfl
            exact transition.emits (runtime_sound before) _ (by rw [output_shows]; simp)
        obtain old | new := mem_retired_shows ended
        · obtain called | waits | owes := ih old
          · exact (keep (.inl called)).imp id .inl
          · exact (keep (.inr waits)).imp id .inl
          · exact .inr (away (.inl owes))
        · exact .inr (away (.inr new))
      · obtain ⟨same, kept⟩ := settled_of_calm tag h calm
        rw [kept] at ended
        rw [same, owed_settled fun x mem => Obs.owes_of_calm (calm x mem)]
        obtain called | waits | away := ih ended
        · exact (keep (.inl called)).imp id .inl
        · exact (keep (.inr waits)).imp id .inl
        · exact .inr (.inr away)

/-- Nobody is behind a tag any more when the eager check ends the loop. -/
theorem runtime_vacant (transition : Transition s label t seen) (rule : s.Quiesces h label)
    (before : s.loop.phase ≠ .exited) (exited : t.loop.phase = .exited) (tag : Tag) :
    census tag (anyone Place.behind) t = 0 := by
  obtain ⟨⟨_, _, rfl⟩, _, empty, scheduler, events, workers, actions, _⟩ :=
    transition.exits (runtime_unclosed run) before exited
  have unowed : owed tag h = false := by
    by_contra away
    have away : owed tag h = true := by simpa using away
    simp [rule empty tag (mem_of_owed away)] at away
  have fits := (runtime_room (runtime_inTurn run) tag).2
  simp only [room, empty, unowed, Finset.notMem_empty, decide_false, Bool.toNat_false] at fits
  have same : census tag (anyone Place.behind) t = census tag (anyone Place.behind) s := by
    simp only [census, scheduler, events, workers, actions]
  omega

/-- **Eager end.** In every run that obeys the rule: when the event loop ends after a spawn
was accepted, nobody is in a mail, with a worker that receives, in a return or in a spawn
action, for only stops are under way; and from then on, each instance whose stop was
accepted has seen `on_stop`, or its stop event waits and a worker loop is left for it. -/
theorem eager_at_rest :
    (∀ label t seen, began h = true → s.Quiesces h label →
      s.step label = some (t, seen) → s.loop.phase ≠ .exited → t.loop.phase = .exited →
        ∀ token ∈ t.travelling, token.place = .stopMailed ∨ token.place = .stopping) ∧
    (s.loop.phase = .exited → ∀ tag actor, actor ∈ retired tag h →
      (∃ i, Obs.called i tag actor .onStop ∈ h) ∨
        Event.stop tag actor ∈ s.events ∧ 0 < s.live) := by
  constructor
  · intro label t seen started rule taken before exited token mem
    have transition := Runtime.step_transition taken
    have gone := runtime_vacant run transition rule before exited token.tag
    obtain ⟨_, round, empty, _, _, _, actions, _⟩ :=
      transition.exits (runtime_unclosed run) before exited
    have unspawned := runtime_unspawned run
      (Runtime.lastRound_iff.mpr ⟨.inr round, started, empty⟩)
    have away := ((census_eq_zero token.tag (anyone Place.behind) t).mp gone).2 token mem
    cases place : token.place with
    | stopMailed => exact .inl rfl
    | stopping => exact .inr rfl
    | spawning =>
        simp only [Runtime.travelling, List.mem_append, List.mem_filterMap] at mem
        obtain (⟨event, _, known⟩ | ⟨w, _, known⟩) | ⟨action, waits, known⟩ := mem
        · cases event <;> cases known <;> cases place
        · cases stage : w.stage <;> rw [stage] at known <;> cases known <;> cases place
        · cases action with
          | spawn => cases unspawned _ (actions ▸ waits)
          | «return» =>
              cases known
              cases place
          | _ => cases known
    | idle | mailed | receiving | failing | returning | returned =>
        simp [place, Place.behind, Place.inFlight] at away
  · intro exited tag actor ended
    obtain called | waits | ⟨away, _⟩ := runtime_farewell run ended
    · exact .inl called
    · refine .inr ⟨waits, ?_⟩
      rw [← Runtime.eventsConnected_iff]
      by_contra gone
      simp [runtime_emptied run (by simpa using gone)] at waits
    · cases away.symm.trans (runtime_unowed run exited tag)

end Run

/-- The only actor is stopped when it is idle. -/
def dusk : List Label :=
  [Label.call 0 (.spawn "a") 0] ++ turn (.spawn "a" ⟨0⟩) ++ [Label.call 0 (.stop "a") 0,
    .loop (.receive (.stop "a") true), .loop (.clock 0)]

theorem eager_at_rest_dusk :
    ∃ s h, (runtimeMachine .default "app" "host" 0).Run Runtime.Quiesces s h ∧
      (s.step (.loop (.tick 0 0))).isSome ∧
      ∀ t seen, s.step (.loop (.tick 0 0)) = some (t, seen) → t.loop.phase = .exited →
        ∀ token ∈ t.travelling, token.place = .stopMailed ∨ token.place = .stopping := by
  have run := Machine.run_replay (runtimeMachine .default "app" "host" 0) Runtime.Quiesces
    dusk (by decide)
  refine ⟨_, _, run, by decide, fun t seen taken exited => ?_⟩
  exact (eager_at_rest run).1 _ t seen (by decide) (by decide) taken (by decide) exited

/-- The only actor is stopped while it receives. -/
def nightfall : List Label :=
  [Label.call 0 (.spawn "a") 0] ++ turn (.spawn "a" ⟨0⟩) ++
  [Label.call 0 (.send "a" (.of (.other 7))) 0] ++ turn (.queue "a" (letter 1 7)) ++
  [Label.worker 0 .take, .worker 0 (.call (.stop "a") 0), .worker 0 (.call (.spawn "b") 0)] ++
  turn (.stop "a")

/-- The loop ends while the actor still receives and its spawn waits. Its return is drained,
and it never sees `on_stop`. -/
theorem eager_too_early :
    (∃ s h, (runtimeMachine .default "app" "host" 0).Reached s h ∧ s.loop.phase = .exited ∧
      began h = true ∧ Obs.received .shutdown ∉ h ∧ s.workers.map (·.stage) =
        .receiving "a" ⟨0⟩ (letter 1 7) :: List.replicate 3 .waiting ∧
      Action.spawn "b" ⟨3⟩ ∈ s.actions) ∧
    ∃ s h, (runtimeMachine .default "app" "host" 0).Reached s h ∧ s.loop.phase = .exited ∧
      ⟨0⟩ ∈ retired "a" h ∧ ¬ s.Holds "a" ⟨0⟩ ∧ h.countP (Obs.buries "a" ⟨0⟩) = 0 :=
  ⟨⟨_, _, Machine.run_replay _ _ nightfall (by decide), by decide, by decide, by decide,
      by decide, by decide⟩,
    ⟨_, _, Machine.run_replay _ _ (nightfall ++ List.replicate 4 .sendShutdown ++
      [.worker 0 (.finish true), .worker 0 .advance, .drain, .drain]) (by decide),
      by decide, by decide, by decide, by decide⟩⟩

end Uppercut
