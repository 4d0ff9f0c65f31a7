import Uppercut.Core.Conservation
import Uppercut.Machine.History

/-!
# A stop is final

The event loop knows a late return by its tag alone: a returned actor counts as
stopped when its tag is not active. That is right as long as the tag is not spawned
again before the return arrives. Under this condition an instance that was stopped
never receives mail again and its return changes nothing.

The invariant ties what is in flight to history: an instance that was mailed and has
not come back was either stopped, or it is the one bound to its active tag.
-/

namespace Uppercut

/-- The instance that an accepted spawn binds to `tag`. -/
def Obs.binds (tag : Tag) : Obs → Option Actor
  | .spawned tag' actor => if tag' = tag then some actor else none
  | _ => none

/-- The instance of the latest accepted spawn of `tag`. -/
def bound (tag : Tag) (h : List Obs) : Option Actor := (h.filterMap (Obs.binds tag)).getLast?

/-- The instance that an accepted stop of `tag` ends. -/
def Obs.retires (tag : Tag) (before : List Obs) : Obs → List Actor
  | .stopped tag' => if tag' = tag then (bound tag before).toList else []
  | _ => []

/-- The instances that were bound to `tag` when a stop of `tag` was accepted. -/
def retired (tag : Tag) (h : List Obs) : List Actor := History.gather (Obs.retires tag) h

/-- The places of an instance between its mail and the end of its return. -/
def Place.inFlight : Place → Bool
  | .mailed | .receiving | .failing | .returning _ | .returned _ => true
  | _ => false

/-- No return of a stopped instance is received while its tag is active again. -/
def Runtime.ReturnsInTime (s : Runtime) (h : List Obs) : Label → Prop
  | .loop (.receive (.return tag actor _) _) => actor ∈ retired tag h → tag ∉ s.scheduler.active
  | _ => True

instance (s : Runtime) (h : List Obs) (label : Label) : Decidable (s.ReturnsInTime h label) := by
  unfold Runtime.ReturnsInTime
  split <;> infer_instance

/-- What is known of a tag: the instance in `actors` and every instance in flight are the
bound one, or they were stopped. -/
structure Finality (address : Address) (flight : Actor → Nat) (tag : Tag) (h : List Obs) :
    Prop where
  idle : ∀ actor, address.idle = some actor → address.active = true ∧ bound tag h = some actor
  current : ∀ actor, address.active = true → bound tag h = some actor → actor ∉ retired tag h
  flight : ∀ actor, 0 < flight actor →
    actor ∈ retired tag h ∨ address.active = true ∧ bound tag h = some actor

section History

variable {tag : Tag} {actor : Actor} {h seen : List Obs}

theorem Obs.binds_eq_some {x : Obs} : x.binds tag = some actor ↔ x = .spawned tag actor := by
  cases x <;> simp [binds]

theorem Obs.mem_retires {x : Obs} {before : List Obs} :
    actor ∈ x.retires tag before ↔ x = .stopped tag ∧ bound tag before = some actor := by
  cases x <;> simp [retires]

theorem bound_append (tag : Tag) (h seen : List Obs) :
    bound tag (h ++ seen) = (bound tag seen).or (bound tag h) := by
  simp [bound, List.getLast?_append]

theorem spawned_of_bound (known : bound tag h = some actor) : Obs.spawned tag actor ∈ h := by
  obtain ⟨x, mem, binds⟩ := List.mem_filterMap.mp (List.mem_of_getLast? known)
  exact Obs.binds_eq_some.mp binds ▸ mem

/-- Whoever was stopped had been accepted. -/
theorem spawned_of_retired (mem : actor ∈ retired tag h) : Obs.spawned tag actor ∈ h := by
  obtain ⟨front, x, back, rfl, here⟩ := History.mem_gather.mp mem
  exact List.mem_append_left _ (spawned_of_bound (Obs.mem_retires.mp here).2)

theorem bound_settled (tag : Tag) (h seen : List Obs)
    (unbound : ∀ actor, Obs.spawned tag actor ∉ seen) : bound tag (h ++ seen) = bound tag h := by
  have none : bound tag seen = none := by
    by_contra known
    obtain ⟨actor, known⟩ := Option.ne_none_iff_exists'.mp known
    exact unbound actor (spawned_of_bound known)
  rw [bound_append, none, Option.none_or]

/-- What neither accepts a spawn nor a stop of the tag leaves both readings as they are. -/
theorem settled (tag : Tag) (h seen : List Obs) (unbound : ∀ actor, Obs.spawned tag actor ∉ seen)
    (kept : Obs.stopped tag ∉ seen) :
    bound tag (h ++ seen) = bound tag h ∧ retired tag (h ++ seen) = retired tag h := by
  refine ⟨bound_settled tag h seen unbound, ?_⟩
  have same : History.gatherFrom (Obs.retires tag) h seen = [] := by
    clear unbound
    induction seen generalizing h with
    | nil => rfl
    | cons x seen ih =>
        have head : x.retires tag h = [] :=
          List.eq_nil_iff_forall_not_mem.mpr fun actor mem =>
            kept (by simp [(Obs.mem_retires.mp mem).1])
        rw [History.gatherFrom_cons, head, List.nil_append]
        exact ih _ fun mem => kept (List.mem_cons_of_mem x mem)
  rw [retired, History.gather_append, same, List.append_nil, ← retired]

end History

section Step

variable {s s' : Scheduler} {action : Action} {event : Option Event} {flow : Flow}
variable {c c' : Address} {tag : Tag} {h h' : List Obs} {flight flight' : Actor → Nat}

/-- Instances may leave, and the bound one may become idle or leave from there. -/
theorem Finality.keep (final : Finality c flight tag h) (active : c'.active = c.active)
    (idle : ∀ actor, c'.idle = some actor → c.active = true ∧ bound tag h = some actor)
    (out : ∀ actor, 0 < flight' actor → 0 < flight actor ∨ c.idle = some actor)
    (same : bound tag h' = bound tag h ∧ retired tag h' = retired tag h) :
    Finality c' flight' tag h' := by
  constructor <;> simp only [active, same.1, same.2]
  · exact idle
  · exact final.current
  · intro actor away
    obtain before | rested := out actor away
    · exact final.flight actor before
    · exact .inr (final.idle actor rested)

/-- The bound instance fails on its way. -/
theorem Finality.fail (final : Finality c flight tag h) {actor : Actor}
    (known : bound tag h = some actor) (busy : c.idle ≠ some actor)
    (inactive : c'.active = false) (idle : c'.idle = c.idle) (gone : flight' actor = 0)
    (less : ∀ other, flight' other ≤ flight other)
    (same : bound tag h' = bound tag h ∧ retired tag h' = retired tag h) :
    Finality c' flight' tag h' := by
  constructor <;> simp only [inactive, idle, same.1, same.2]
  · intro other here
    have bound := (final.idle other here).2
    rw [known] at bound
    cases bound
    exact absurd here busy
  · intro other now
    cases now
  · intro other out
    obtain old | ⟨_, bound⟩ := final.flight other (out.trans_le (less other))
    · exact .inl old
    · rw [known] at bound
      cases bound
      omega

/-- A stop retires the bound instance, wherever it is. -/
theorem Finality.stop (final : Finality c flight tag h) (inactive : c'.active = false)
    (idle : c'.idle = none) (less : ∀ actor, flight' actor ≤ flight actor)
    (ended : retired tag h' = retired tag h ++ (bound tag h).toList) :
    Finality c' flight' tag h' where
  idle actor here := by simp [idle] at here
  current actor now := by simp [inactive] at now
  flight actor out := by
    rw [ended]
    obtain old | ⟨_, known⟩ := final.flight actor (out.trans_le (less actor))
    · exact .inl (List.mem_append_left _ old)
    · exact .inl (List.mem_append_right _ (by simp [known]))

/-- A new instance is bound to a tag that had none. -/
theorem Finality.spawn (final : Finality c flight tag h) {actor : Actor}
    (inactive : c.active ≠ true) (active : c'.active = true) (idle : c'.idle = some actor)
    (binds : bound tag h' = some actor) (new : actor ∉ retired tag h)
    (less : ∀ other, flight' other ≤ flight other) (same : retired tag h' = retired tag h) :
    Finality c' flight' tag h' := by
  constructor <;> simp only [active, idle, binds, same]
  · intro other here
    exact ⟨trivial, here⟩
  · rintro other _ ⟨⟩
    exact new
  · intro other out
    apply Or.inl
    apply (final.flight other (out.trans_le (less other))).resolve_right
    intro here
    exact inactive here.1

/-- How an arm keeps the invariant, given that every instance is in flight once and then
not idle, and that an instance which is only now accepted is new. -/
theorem Arm.finality (arm : Arm s action s' event flow)
    (final : Finality (s.address tag) flight tag h)
    (sums : ∀ actor, flight' actor + weight tag (one actor Place.inFlight) action.token? =
      flight actor + weight tag (one actor Place.inFlight) (event.bind Event.token?))
    (single : ∀ actor, flight actor ≤ 1 ∧ (s.actors tag = some actor → flight actor = 0))
    (new : ∀ actor, action = .spawn tag actor → Obs.spawned tag actor ∉ h)
    (inTime : ∀ actor ok, action = .return tag actor ok → actor ∈ retired tag h →
      tag ∉ s.active) :
    Finality (s'.address tag) flight' tag (h ++ s.shows action event) := by
  by_cases named : action.tag? = some tag
  · cases arm <;> simp only [Action.tag?, Option.some.injEq, reduceCtorEq] at named <;>
      subst named
    all_goals simp [Action.token?, Event.token?, Place.inFlight] at sums
    case failed tag actor active =>
      have own := sums actor
      simp only [if_true] at own
      have known : bound tag h = some actor :=
        ((final.flight actor (by omega)).resolve_left fun mem =>
          inTime actor false rfl mem active).2
      have once := (single actor).1
      refine final.fail known ?_ (by simp [Scheduler.address]) rfl (by omega) ?_
        (settled tag h _ (by simp [Scheduler.accepts]) (by simp [Scheduler.accepts]))
      · intro here
        have alone := (single actor).2 here
        omega
      · intro other
        have count := sums other
        omega
    case rested tag actor active waiting =>
      have own := sums actor
      simp only [if_true] at own
      have known := (final.flight actor (by omega)).resolve_left fun mem =>
        inTime actor true rfl mem active
      refine final.keep rfl ?_ ?_
        (settled tag h _ (by simp [Scheduler.accepts]) (by simp [Scheduler.accepts]))
      · intro other here
        obtain rfl : actor = other := by simpa using here
        exact known
      · intro other out
        have count := sums other
        exact .inl (by omega)
    case woken tag actor envelope mailbox front rest active waiting idle pushed =>
      refine final.keep rfl (fun other here => by simp at here) ?_
        (settled tag h _ (by simp [Scheduler.accepts]) (by simp [Scheduler.accepts]))
      intro other out
      by_cases eq : actor = other
      · exact .inr (eq ▸ idle)
      · have count := sums other
        simp only [eq, if_false] at count
        exact .inl (by omega)
    case spawned tag actor inactive =>
      refine final.spawn (by simpa using inactive) (by simp [Scheduler.address])
        (by simp) ?_ (fun mem => new actor rfl (spawned_of_retired mem))
        (fun other => (sums other).le) ?_
      · simp [bound, Scheduler.accepts, inactive, Obs.binds]
      · simp [retired, Scheduler.accepts, inactive, Obs.retires]
    case stoppedIdle active _ =>
      refine final.stop (by simp [Scheduler.address]) (by simp) (fun actor => (sums actor).le) ?_
      simp [retired, bound, Scheduler.accepts, active, Obs.retires, Obs.binds]
    case stoppedBusy active busy =>
      refine final.stop (by simp [Scheduler.address]) busy (fun actor => (sums actor).le) ?_
      simp [retired, bound, Scheduler.accepts, active, Obs.retires, Obs.binds]
    all_goals
      refine final.keep (by simp [Scheduler.address]) final.idle ?_
        (settled _ _ _ (by simp [Scheduler.accepts, *]) (by simp [Scheduler.accepts, *]))
      intro actor out
      have count := sums actor
      exact .inl (by omega)
  · obtain ⟨same, apart⟩ := arm.address_other named
    rw [same]
    refine final.keep rfl final.idle ?_ (settled _ _ _ ?_ ?_)
    · intro actor out
      have count := sums actor
      rw [weight_of_action_other named, weight_of_event_other apart] at count
      exact .inl (by omega)
    · intro actor mem
      exact named (by rw [(Scheduler.spawned_mem_shows.mp mem).1]; rfl)
    · intro mem
      exact named (by rw [(Scheduler.stopped_mem_shows.mp mem).1]; rfl)

end Step

variable {s t : Runtime} {label : Label} {gone come : List (Option Token)} {h seen : List Obs}

/-- Weighs an instance in flight the same wherever it is, and nobody else except for those
that are idle. -/
structure Portable (f : Actor → Place → Nat) : Prop where
  receiving : ∀ actor, f actor .receiving = f actor .mailed
  failing : ∀ actor, f actor .failing = f actor .mailed
  returning : ∀ actor ok, f actor (.returning ok) = f actor .mailed
  returned : ∀ actor ok, f actor (.returned ok) = f actor .mailed
  stopMailed : ∀ actor, f actor .stopMailed = 0
  stopping : ∀ actor, f actor .stopping = 0
  spawning : ∀ actor, f actor .spawning = 0

theorem portable_one (actor : Actor) : Portable (one actor Place.inFlight) := by
  constructor <;> intros <;> simp [one, Place.inFlight]

/-- A worker brings nobody in flight that it did not take from there. -/
theorem Worker.Move.portable {index : Nat} {connected : Bool} {w w' : Worker}
    {label : WorkerLabel} {input : Option Event} {output : Option Action}
    {f : Actor → Place → Nat} (move : w.Move index connected label input w' output seen)
    (port : Portable f) (tag : Tag) :
    weight tag f w'.stage.token? + weight tag f (output.bind Action.token?) ≤
      weight tag f (input.bind Event.token?) + weight tag f w.stage.token? := by
  cases move
  case flushed next => simp [Worker.Local.drain_token next, Stage.token?]
  all_goals simp [Event.token?, Stage.token?, Action.token?, weight_some, port.receiving,
    port.failing, port.returning, port.returned, port.stopMailed, port.stopping]

/-- Observations that neither start nor end anything. -/
def Obs.calm : Obs → Bool
  | .received _ | .spawned _ _ | .stopped _ | .emitted (.mail _ _ _) | .emitted (.stop _ _) => false
  | _ => true

/-- A step receives an action, or it accepts nothing, leaves the scheduler's view of the
actors alone and puts nobody in flight. -/
theorem Carry.received_or_calm (carry : Carry s label gone come seen t) :
    (∃ action connected event flow, label = .loop (.receive action connected) ∧
      action ∈ s.actions ∧ Arm s.scheduler action t.scheduler event flow ∧
      seen = s.scheduler.shows action event ∧
      gone = [action.token?, s.scheduler.idleFor action] ∧
      come = [event.bind Event.token?, t.scheduler.idleFor action] ∧
      s.loop.phase = .receiving) ∨
    ((∀ x ∈ seen, x.calm = true) ∧ t.scheduler.active = s.scheduler.active ∧
      t.scheduler.actors = s.scheduler.actors ∧
      ∀ f tag, Portable f → Tally.total (weight tag f) come ≤ Tally.total (weight tag f) gone) := by
  cases carry with
  | quiet active actors still =>
      refine .inr ⟨fun x mem => ?_, active, actors, fun _ _ _ => le_rfl⟩
      have quiet := still x mem
      cases x with
      | emitted event => cases event <;> first | rfl | cases quiet
      | received | spawned | stopped => cases quiet
      | _ => rfl
  | sent calls loop =>
      refine .inr ⟨by simp [Obs.calm], by rw [Runtime.scheduler, loop],
        by rw [Runtime.scheduler, loop], fun f tag port => ?_⟩
      obtain ⟨tag', actor', rfl, _⟩ | none := calls.token
      · simp [Action.token?, weight_some, port.spawning]
      · simp [none]
  | worker _ move _ _ loop =>
      refine .inr ⟨?_, by rw [Runtime.scheduler, loop], by rw [Runtime.scheduler, loop],
        fun f tag port => ?_⟩
      · cases move <;> simp [Obs.calm]
      · have := move.portable port tag
        simp only [Tally.total_cons, Tally.total_nil]
        omega
  | received head at_head _ arm =>
      exact .inl ⟨_, _, _, _, rfl, head, arm, rfl, rfl, rfl, at_head⟩
  | discarded _ active actors => exact .inr ⟨by simp, active, actors, fun _ _ _ => by simp⟩

/-- What is calm leaves both readings of the history as they are. -/
theorem settled_of_calm (tag : Tag) (h : List Obs) (calm : ∀ x ∈ seen, x.calm = true) :
    bound tag (h ++ seen) = bound tag h ∧ retired tag (h ++ seen) = retired tag h :=
  settled tag h seen (fun _ mem => Bool.false_ne_true (calm _ mem))
    fun mem => Bool.false_ne_true (calm _ mem)

variable {config : SchedulerConfig} {name host : String} {start : Nat}
variable {allowed : Runtime → List Obs → Label → Prop}

/-- Whoever is idle is not in flight. -/
theorem single_flight (run : (runtimeMachine config name host start).Run allowed s h)
    (tag : Tag) (actor : Actor) :
    census tag (one actor Place.inFlight) s ≤ 1 ∧
      (s.scheduler.actors tag = some actor → census tag (one actor Place.inFlight) s = 0) := by
  have placed := (admission tag actor).run run
  have once := admitted_once run tag actor
  have apart : ∀ place, (Place.inFlight place).toNat + (decide (place = .idle)).toNat ≤
      (Place.admitted place).toNat := by
    intro place
    cases place <;> simp [Place.inFlight, Place.admitted]
  have split := census_one_add_le apart tag actor s
  refine ⟨by omega, fun idle => ?_⟩
  have rests := census_idle_pos idle
  omega

/-- An instance whose spawn still waits was not accepted before. -/
theorem new_of_waiting (run : (runtimeMachine config name host start).Run allowed s h)
    {tag : Tag} {actor : Actor} (waits : .spawn tag actor ∈ s.actions) :
    Obs.spawned tag actor ∉ h := by
  intro accepted
  have once := (acceptance tag actor).run run
  have born := (born_once run tag actor).1
  have before : 0 < h.countP (Obs.admits tag actor) :=
    List.countP_pos_iff.mpr ⟨_, accepted, by simp [Obs.admits]⟩
  have here : 1 ≤ census tag (one actor (· = .spawning)) s :=
    census_action_pos waits rfl (by simp)
  omega

theorem weight_idleFor (tag : Tag) (actor : Actor) (s : Scheduler) (action : Action) :
    weight tag (one actor Place.inFlight) (s.idleFor action) = 0 := by
  cases action <;> simp [Scheduler.idleFor, Action.tag?, Scheduler.token?]
  all_goals cases s.actors _ <;> simp [Place.inFlight]

/-- The invariant of stops, in every run in which no return of a stopped instance meets
its tag active again. -/
theorem finality (run : (runtimeMachine config name host start).Run Runtime.ReturnsInTime s h)
    (tag : Tag) :
    Finality (s.scheduler.address tag)
      (fun actor => census tag (one actor Place.inFlight) s) tag h := by
  induction run with
  | start =>
      constructor
      · intro actor idle
        cases idle
      · intro actor active
        cases active
      · intro actor out
        exact absurd (census_start tag _) out.ne'
  | @step s t h label seen before inTime taken ih =>
      obtain ⟨gone, come, carry, sums⟩ :=
        (Runtime.step_transition taken).carry (runtime_sound before)
      obtain ⟨action, connected, event, flow, rfl, head, arm, rfl, rfl, rfl, _⟩ |
        ⟨calm, active, actors, fewer⟩ := carry.received_or_calm
      · refine arm.finality ih (fun actor => ?_) (single_flight before tag) ?_ ?_
        · have sum := sums tag (one actor Place.inFlight)
          simp only [Tally.total_cons, Tally.total_nil, weight_idleFor] at sum
          omega
        · rintro actor rfl
          exact new_of_waiting before head
        · rintro actor ok rfl
          exact inTime
      · refine ih.keep ?_ ?_ ?_ (settled_of_calm tag h calm)
        · simp only [Scheduler.address, active]
        · simp only [Scheduler.address, actors]
          exact ih.idle
        · intro actor out
          have sum := sums tag (one actor Place.inFlight)
          have less := fewer _ tag (portable_one actor)
          exact .inl (by omega)

/-- A mail goes to the returned instance or to the idle one. -/
theorem Arm.mail {s s' : Scheduler} {action : Action} {flow : Flow} {tag : Tag} {actor : Actor}
    {envelope : Envelope} (arm : Arm s action s' (some (.mail tag actor envelope)) flow) :
    tag ∈ s.active ∧ s'.active = s.active ∧ (action = .return tag actor true ∨
      (∃ pushed, action = .queue tag pushed) ∧ s.actors tag = some actor) := by
  cases arm with
  | resumed active => exact ⟨active, rfl, .inl rfl⟩
  | woken active _ idle => exact ⟨active, rfl, .inr ⟨⟨_, rfl⟩, idle⟩⟩

/-- A return that finds its tag inactive only releases the instance, with a stop event when it came
back well. -/
theorem Arm.late {s s' : Scheduler} {tag : Tag} {actor : Actor} {ok : Bool}
    {event : Option Event} {flow : Flow} (arm : Arm s (.return tag actor ok) s' event flow)
    (wf : s.WellFormed) (inactive : tag ∉ s.active) :
    s'.active = s.active ∧ s'.actors = s.actors ∧ s'.queue = s.queue ∧
      event = if ok = true then some (.stop tag actor) else none := by
  have same := Table.remove_of_none (wf.queue_of_inactive inactive)
  cases arm with
  | failed active | resumed active | rested active => exact absurd active inactive
  | stale | spent => exact ⟨rfl, rfl, same, rfl⟩

/-- A return that finds its tag active changes what the scheduler holds, or it mails the
returned instance. -/
theorem Arm.early {s s' : Scheduler} {tag : Tag} {actor : Actor} {ok : Bool}
    {event : Option Event} {flow : Flow} (arm : Arm s (.return tag actor ok) s' event flow)
    (active : tag ∈ s.active) (away : s.actors tag ≠ some actor) :
    s'.active ≠ s.active ∨ s'.actors ≠ s.actors ∨
      ∃ envelope, event = some (.mail tag actor envelope) := by
  cases arm with
  | failed =>
      apply Or.inl
      intro same
      have erased : s.active.erase tag = s.active := same
      rw [← erased] at active
      exact Finset.notMem_erase tag s.active active
  | resumed => exact .inr (.inr ⟨_, rfl⟩)
  | rested =>
      refine .inr (.inl fun same => away ?_)
      rw [← same]
      exact Table.insert_self ..
  | stale inactive | spent inactive => exact absurd active inactive

/-- The stop event is sent, or the loop panics because nobody can receive it. -/
theorem LoopMove.late {phase phase' : Phase} {s s' : Scheduler} {tag : Tag} {actor : Actor}
    {ok connected : Bool}
    (move : LoopMove phase s (.receive (.return tag actor ok) connected) phase' s' seen)
    (wf : s.WellFormed) (inactive : tag ∉ s.active) :
    s'.active = s.active ∧ s'.actors = s.actors ∧ s'.queue = s.queue ∧
      if ok = true ∧ connected = false then phase' = .panicked ∧ output seen = []
      else output seen = if ok = true then [.stop tag actor] else [] := by
  cases move with
  | crashed _ l same failed =>
      have handled := EventLoop.handle_isSome (l := l) (same ▸ wf) (.return tag actor ok)
      rw [failed] at handled
      cases handled
  | unsent _ arm =>
      obtain ⟨_, _, _, sent⟩ := arm.late wf inactive
      have well : ok = true := by
        by_contra ill
        rw [if_neg ill] at sent
        cases sent
      refine ⟨rfl, rfl, rfl, ?_⟩
      rw [if_pos ⟨well, rfl⟩]
      exact ⟨rfl, rfl⟩
  | received _ arm connects =>
      obtain ⟨active, actors, queue, rfl⟩ := arm.late wf inactive
      refine ⟨active, actors, queue, ?_⟩
      cases ok with
      | true =>
          rw [connects rfl, if_neg (by simp), output_shows]
          rfl
      | false =>
          rw [if_neg (by simp), output_shows]
          rfl

/-- A step of the event loop is one that the runtime offers. -/
theorem Transition.loopMove {label : LoopLabel} (transition : Transition s (.loop label) t seen) :
    s.offers label = true ∧
      LoopMove s.loop.phase s.scheduler label t.loop.phase t.scheduler seen := by
  cases transition with
  | posted calls | unposted calls => cases calls
  | loop offered taken | crashed offered taken => exact ⟨offered, LoopState.step_move taken⟩

/-- A received action is handled by an arm, unless the loop panics and nothing changes. -/
theorem Transition.received {action : Action} {connected : Bool}
    (transition : Transition s (.loop (.receive action connected)) t seen) (sound : s.Sound) :
    (action ∈ s.actions ∧ ∃ event flow, Arm s.scheduler action t.scheduler event flow ∧
      output seen = event.toList) ∨
    t.loop.phase = .panicked ∧ t.scheduler = s.scheduler ∧ output seen = [] := by
  cases transition with
  | posted calls | unposted calls => cases calls
  | loop offered taken running =>
      obtain ⟨action, _, event, flow, eq, _, _, arm, rfl⟩ | ⟨unread, _⟩ :=
        (LoopState.step_move taken).cases running
      · cases eq
        exact .inl ⟨Runtime.mem_of_offers offered, event, flow, arm, output_shows _ _ _⟩
      · exact absurd rfl (unread _ _)
  | crashed _ taken panicked =>
      obtain ⟨rfl, same, _⟩ := (LoopState.step_move taken).panics sound.wellFormed panicked
      exact .inr ⟨panicked, same, rfl⟩

/-- A mail is for the bound instance, which was not stopped. -/
theorem mails_bound (run : (runtimeMachine config name host start).Run Runtime.ReturnsInTime s h) :
    History.Always (fun before x => ∀ tag actor envelope,
      x = .emitted (.mail tag actor envelope) →
        bound tag before = some actor ∧ actor ∉ retired tag before) h := by
  induction run with
  | start => exact History.always_nil
  | @step s t h label seen before inTime taken ih =>
      refine (History.always_append h seen).mpr ⟨ih, ?_⟩
      rintro front x back split tag actor envelope rfl
      have sent : Obs.emitted (.mail tag actor envelope) ∈ seen := by simp [split]
      have final := finality before tag
      obtain ⟨gone, come, carry, _⟩ :=
        (Runtime.step_transition taken).carry (runtime_sound before)
      obtain ⟨action, connected, event, flow, rfl, head, arm, rfl, _, _⟩ | ⟨calm, _⟩ :=
        carry.received_or_calm
      · obtain rfl := Scheduler.emitted_mem_shows.mp sent
        obtain ⟨active, _, origin⟩ := arm.mail
        have same := settled tag h front
          (fun other mem => by
            have spawn := (Scheduler.spawned_mem_shows.mp (split ▸ List.mem_append_left _ mem)).1
            obtain rfl | ⟨⟨_, rfl⟩, _⟩ := origin <;> cases spawn)
          (fun mem => by
            have stop := (Scheduler.stopped_mem_shows.mp (split ▸ List.mem_append_left _ mem)).1
            obtain rfl | ⟨⟨_, rfl⟩, _⟩ := origin <;> cases stop)
        rw [same.1, same.2]
        have current (known : bound tag h = some actor) : actor ∉ retired tag h :=
          final.current actor (by simpa using active) known
        obtain rfl | ⟨_, idle⟩ := origin
        · have out : 1 ≤ census tag (one actor Place.inFlight) s :=
            census_action_pos head rfl rfl
          have known := (final.flight actor out).resolve_left fun mem => inTime mem active
          exact ⟨known.2, current known.2⟩
        · have known := (final.idle actor idle).2
          exact ⟨known, current known⟩
      · cases calm _ sent

/-- **Stop finality.** In every run in which no return of a stopped instance is received
while its tag is active again: each mail is for the instance of the latest accepted
spawn of its tag, and that instance was not stopped; at most one stop event is sent
for an instance; and the return of a stopped instance changes nothing and leads to
that event, if the instance has returned well and anybody can receive it. A return that
does come too early breaks the law. -/
theorem stop_final
    (run : (runtimeMachine config name host start).Run Runtime.ReturnsInTime s h) :
    History.Always (fun before x => ∀ tag actor envelope,
      x = .emitted (.mail tag actor envelope) →
        bound tag before = some actor ∧ actor ∉ retired tag before) h ∧
    (∀ tag actor, h.countP (Obs.dismisses tag actor) ≤ 1) ∧
    ∀ tag actor ok connected t seen, actor ∈ retired tag h →
      s.step (.loop (.receive (.return tag actor ok) connected)) = some (t, seen) →
      if tag ∉ s.scheduler.active then
        t.scheduler.active = s.scheduler.active ∧ t.scheduler.actors = s.scheduler.actors ∧
          t.scheduler.queue = s.scheduler.queue ∧
          if ok = true ∧ s.eventsConnected = false then
            t.loop.phase = .panicked ∧ output seen = []
          else output seen = if ok = true then [.stop tag actor] else []
      else
        t.loop.phase = .panicked ∨ t.scheduler.active ≠ s.scheduler.active ∨
          t.scheduler.actors ≠ s.scheduler.actors ∨
          ∃ envelope, output seen = [.mail tag actor envelope] := by
  refine ⟨mails_bound run, fun tag actor => ?_, fun tag actor ok connected t seen ended taken => ?_⟩
  · have sent := (dismissal tag actor).run run
    have once := admitted_once run tag actor
    omega
  · have sound := runtime_sound run
    have transition := Runtime.step_transition taken
    split
    case isTrue inactive =>
      obtain ⟨offered, move⟩ := transition.loopMove
      rw [← (Runtime.offers_receive offered).2]
      exact move.late sound.wellFormed inactive
    case isFalse again =>
      obtain ⟨waits, event, flow, arm, sent⟩ | ⟨panicked, _⟩ := transition.received sound
      · apply Or.inr
        have active : tag ∈ s.scheduler.active := not_not.mp again
        have away : s.scheduler.actors tag ≠ some actor := by
          intro idle
          have alone := (single_flight run tag actor).2 idle
          have out : 1 ≤ census tag (one actor Place.inFlight) s :=
            census_action_pos waits rfl rfl
          omega
        rw [sent]
        obtain changed | changed | ⟨envelope, rfl⟩ := arm.early active away
        · exact .inl changed
        · exact .inr (.inl changed)
        · exact .inr (.inr ⟨envelope, rfl⟩)
      · exact .inl panicked

/-- An actor is stopped while it receives. Its tag is spawned again only after its return. -/
def lateStop : List Label :=
  [Label.call 0 (.spawn "b") 0] ++ turn (.spawn "b" ⟨0⟩) ++
  [Label.call 0 (.spawn "a") 0] ++ turn (.spawn "a" ⟨1⟩) ++
  [Label.call 0 (.send "a" (.of (.other 7))) 0] ++ turn (.queue "a" (letter 2 7)) ++
  [Label.worker 0 .take, .call 0 (.stop "a") 0] ++ turn (.stop "a") ++
  [Label.worker 0 (.finish true), .worker 0 .advance]

theorem stop_final_lateStop :
    ∃ s h, (runtimeMachine .default "app" "host" 0).Run Runtime.ReturnsInTime s h ∧
      ⟨1⟩ ∈ retired "a" h ∧
      (s.step (.loop (.receive (.return "a" ⟨1⟩ true) true))).isSome ∧
      ∀ t seen, s.step (.loop (.receive (.return "a" ⟨1⟩ true) true)) = some (t, seen) →
        t.scheduler.actors = s.scheduler.actors ∧ t.scheduler.active = s.scheduler.active ∧
          output seen = [.stop "a" ⟨1⟩] := by
  have run := Machine.run_replay (runtimeMachine .default "app" "host" 0) Runtime.ReturnsInTime
    lateStop (by decide)
  refine ⟨_, _, run, by decide, by decide, fun t seen taken => ?_⟩
  have late := (stop_final run).2.2 "a" ⟨1⟩ true true t seen (by decide) taken
  rw [if_pos (by decide)] at late
  obtain ⟨active, actors, _, sent⟩ := late
  rw [if_neg (by decide)] at sent
  exact ⟨actors, active, sent⟩

/-- The stopped instance comes back after its tag was spawned again, and gets the next
envelope. -/
def revival : List Label :=
  replacement ++
  [Label.call 0 (.send "a" (.of (.other 8))) 0, .loop (.receive (.queue "a" (letter 5 8)) true)]

/-- The run ends with a mail for an instance that was stopped before. -/
theorem stopped_mailed :
    ∃ s h, (runtimeMachine .default "app" "host" 0).Reached s h ∧
      h.getLast? = some (.emitted (.mail "a" ⟨1⟩ (letter 5 8))) ∧
      ⟨1⟩ ∈ retired "a" h.dropLast ∧ bound "a" h.dropLast = some ⟨4⟩ :=
  ⟨_, _, Machine.run_replay _ _ revival (by decide), by decide, by decide, by decide⟩

end Uppercut
