import Uppercut.Core.Census

/-!
# An instance is at one place

Every actor that is spawned gets an identity of its own, its spawn is accepted at
most once, and from then on it is at no more than one place. Nothing here depends
on which callbacks panic or in which order actions arrive.

The argument is bookkeeping. An `Account` follows one instance through some of the
places: whenever it comes to one of them, it left another one or an observation of
the step gave it, and each observation that is paid for takes it away.
-/

namespace Uppercut

namespace Obs

/-- The instance `actor` is built for `tag`. -/
def bears (tag : Tag) (actor : Actor) : Obs → Bool
  | .sent _ (.spawn tag' actor') => tag' = tag && actor' = actor
  | _ => false

/-- The spawn of `actor` under `tag` is accepted. -/
def admits (tag : Tag) (actor : Actor) : Obs → Bool
  | .spawned tag' actor' => tag' = tag && actor' = actor
  | _ => false

/-- A stop event is sent for `actor`. -/
def dismisses (tag : Tag) (actor : Actor) : Obs → Bool
  | .emitted (.stop tag' actor') => tag' = tag && actor' = actor
  | _ => false

/-- `on_fail` or `on_stop` is invoked on `actor`. -/
def buries (tag : Tag) (actor : Actor) : Obs → Bool
  | .called _ tag' actor' .onFail | .called _ tag' actor' .onStop => tag' = tag && actor' = actor
  | _ => false

def nothing : Obs → Bool := fun _ => false

end Obs

/-- Counts `actor` at the places in `P`. -/
def one (actor : Actor) (P : Place → Bool) : Actor → Place → Nat :=
  fun actor' place => if actor' = actor && P place then 1 else 0

@[simp] theorem weight_one (tag : Tag) (actor : Actor) (P : Place → Bool) (token : Token) :
    weight tag (one actor P) (some token) =
      if token.tag = tag ∧ token.actor = actor ∧ P token.place = true then 1 else 0 := by
  simp only [weight_some, one, Bool.and_eq_true, decide_eq_true_eq, ← ite_and]

namespace Place

/-- The places of an instance whose spawn was accepted. -/
def admitted : Place → Bool
  | .spawning => false
  | _ => true

/-- The places of an instance that no stop event was sent for. -/
def serving : Place → Bool
  | .spawning | .stopMailed | .stopping => false
  | _ => true

/-- The places of an instance that saw neither `on_fail` nor `on_stop`. -/
def unburied : Place → Bool
  | .idle | .mailed | .receiving | .returning true | .returned true | .stopMailed => true
  | _ => false

end Place

/-- Disjoint places are counted separately. -/
theorem census_one_add_le {P Q R : Place → Bool}
    (apart : ∀ place, (P place).toNat + (Q place).toNat ≤ (R place).toNat) (tag : Tag)
    (actor : Actor) (s : Runtime) :
    census tag (one actor P) s + census tag (one actor Q) s ≤ census tag (one actor R) s := by
  refine census_add_le (fun actor' place => ?_) s
  have places := apart place
  by_cases own : actor' = actor
  · cases p : P place <;> cases q : Q place <;> cases r : R place <;> simp_all [one]
  · simp [one, own]

theorem census_action_pos {s : Runtime} {tag : Tag} {actor : Actor} {P : Place → Bool}
    {action : Action} (waits : action ∈ s.actions) {place : Place}
    (token : action.token? = some ⟨tag, actor, place⟩) (among : P place = true) :
    1 ≤ census tag (one actor P) s := by
  have own : weight tag (one actor P) action.token? = 1 := by simp [token, among]
  have here := Tally.weight_le_total
    (fun action => weight tag (one actor P) (Action.token? action)) waits
  simp only [own] at here
  simp only [census]
  omega

theorem census_idle_pos {s : Runtime} {tag : Tag} {actor : Actor}
    (idle : s.scheduler.actors tag = some actor) :
    1 ≤ census tag (one actor (· = .idle)) s := by
  have rests : weight tag (one actor (· = .idle)) (s.scheduler.token? tag) = 1 := by
    simp [Scheduler.token?, idle]
  simp only [census, rests]
  omega

/-- What each kind of step does to the instance `actor` at the places in `P`. -/
structure Account (tag : Tag) (actor : Actor) (P : Place → Bool) (paid owed : Obs → Bool) :
    Prop where
  received : ∀ {s s' : Scheduler} {action event flow}, Arm s action s' event flow →
    weight tag (one actor P) (event.bind Event.token?) +
        weight tag (one actor P) (s'.idleFor action) + (s.shows action event).countP paid ≤
      weight tag (one actor P) action.token? + weight tag (one actor P) (s.idleFor action) +
        (s.shows action event).countP owed
  moved : ∀ {index connected w w' label input output seen},
    Worker.Move index connected w label input w' output seen →
    weight tag (one actor P) w'.stage.token? +
        weight tag (one actor P) (output.bind Action.token?) + seen.countP paid ≤
      weight tag (one actor P) (input.bind Event.token?) +
        weight tag (one actor P) w.stage.token? + seen.countP owed
  spawned : ∀ sender tag' actor',
    weight tag (one actor P) (Action.spawn tag' actor').token? +
        [Obs.sent sender (.spawn tag' actor')].countP paid ≤
      [Obs.sent sender (.spawn tag' actor')].countP owed
  sent : ∀ {sender action}, paid (.sent sender action) = true →
    ∃ tag' actor', action = .spawn tag' actor'
  still : ∀ {x : Obs}, x.still = true → paid x = false

variable {s t : Runtime} {label : Label} {gone come : List (Option Token)} {h seen : List Obs}
variable {tag : Tag} {actor : Actor} {P : Place → Bool} {paid owed : Obs → Bool}

/-- A call builds an actor or it sends no actor at all. -/
theorem Runtime.Calls.token {sender : Sender} {action : Action}
    (calls : s.Calls label sender action) :
    (∃ tag actor, action = .spawn tag actor ∧ actor.id = s.fresh) ∨ action.token? = none := by
  cases calls with
  | shutdown => exact .inr rfl
  | thread _ sends | actor _ _ sends =>
      cases ‹Call› <;> simp only [Call.action, sendAction, delayAction, Option.some.injEq,
        reduceCtorEq] at sends <;> subst sends
      case spawn => exact .inl ⟨_, _, rfl, rfl⟩
      all_goals exact .inr rfl

theorem Account.carry (account : Account tag actor P paid owed)
    (carry : Carry s label gone come seen t) :
    Tally.total (weight tag (one actor P)) come + seen.countP paid ≤
      Tally.total (weight tag (one actor P)) gone + seen.countP owed := by
  cases carry with
  | quiet _ _ still =>
      have unpaid : seen.countP paid = 0 :=
        List.countP_eq_zero.mpr fun x mem => by simp [account.still (still x mem)]
      simp [unpaid]
  | @sent label sender action t calls =>
      obtain ⟨tag', actor', rfl, _⟩ | none := calls.token
      · have := account.spawned sender tag' actor'
        simp only [Tally.total_cons, Tally.total_nil]
        omega
      · have unpaid : paid (.sent sender action) = false := by
          by_contra pays
          obtain ⟨_, _, rfl⟩ := account.sent (by simpa using pays)
          cases none
        simp [none, unpaid]
  | worker _ move =>
      have := account.moved move
      simp only [Tally.total_cons, Tally.total_nil]
      omega
  | received _ _ _ arm =>
      have := account.received arm
      simp only [Tally.total_cons, Tally.total_nil]
      omega
  | discarded => simp

variable {config : SchedulerConfig} {name host : String} {start : Nat}
variable {allowed : Runtime → List Obs → Label → Prop}

theorem census_start (tag : Tag) (f : Actor → Place → Nat) :
    census tag f (.start config name host start) = 0 := by
  have workers : ∀ n, Tally.total (fun worker : Worker => weight tag f worker.stage.token?)
      (List.replicate n .start) = 0 := by
    intro n
    induction n with
    | zero => rfl
    | succ n ih => simpa [List.replicate_succ] using ⟨rfl, ih⟩
  simp only [census, Runtime.start, workers]
  rfl

/-- The rule of accounts: in every run, what is there and what was paid for does not
exceed what was owed. -/
theorem Account.run (account : Account tag actor P paid owed)
    (run : (runtimeMachine config name host start).Run allowed s h) :
    census tag (one actor P) s + h.countP paid ≤ h.countP owed := by
  induction run with
  | start => exact (census_start tag (one actor P)).le
  | step before _ taken ih =>
      obtain ⟨gone, come, carry, sums⟩ :=
        (Runtime.step_transition taken).carry (runtime_sound before)
      have step := account.carry carry
      have sum := sums tag (one actor P)
      simp only [List.countP_append]
      omega

/-- An accepted spawn puts the instance at one place. -/
theorem admission (tag : Tag) (actor : Actor) :
    Account tag actor Place.admitted Obs.nothing (Obs.admits tag actor) where
  received arm := by
    cases arm <;> simp [Event.token?, Action.token?, Scheduler.idleFor, Scheduler.token?,
      Action.tag?, Scheduler.accepts, Place.admitted, Obs.admits, Obs.nothing, *]
  moved move := by
    cases move
    case flushed next => simp [Worker.Local.drain_token next, Stage.token?, Obs.nothing]
    all_goals simp [Event.token?, Stage.token?, Action.token?, Place.admitted, Obs.nothing]
  spawned _ _ _ := by simp [Action.token?, Place.admitted, Obs.nothing]
  sent paid := by cases paid
  still _ := rfl

/-- A spawn is accepted at most once for each instance that was built. -/
theorem acceptance (tag : Tag) (actor : Actor) :
    Account tag actor (· = .spawning) (Obs.admits tag actor)
    (Obs.bears tag actor) where
  received arm := by
    cases arm <;> simp [Event.token?, Action.token?, Scheduler.idleFor, Scheduler.token?,
      Action.tag?, Scheduler.accepts, Obs.admits, Obs.bears, *]
  moved move := by
    cases move
    case flushed next => simp [Worker.Local.drain_token next, Stage.token?, Obs.admits]
    all_goals simp [Event.token?, Stage.token?, Action.token?, Obs.admits]
  spawned _ _ _ := by simp [Action.token?, Obs.admits, Obs.bears]
  sent paid := by cases paid
  still {x} still := by cases x <;> first | rfl | cases still

/-- At most one stop event is sent for an accepted instance. -/
theorem dismissal (tag : Tag) (actor : Actor) :
    Account tag actor Place.serving (Obs.dismisses tag actor) (Obs.admits tag actor) where
  received arm := by
    cases arm <;> simp [Event.token?, Action.token?, Scheduler.idleFor, Scheduler.token?,
      Action.tag?, Scheduler.accepts, Place.serving, Obs.admits, Obs.dismisses, *]
    -- The instance of the return is traded for the event; what `actors` holds stays.
    case stale => exact (Nat.add_comm _ _).le
  moved move := by
    cases move
    case flushed next => simp [Worker.Local.drain_token next, Stage.token?, Obs.dismisses]
    all_goals simp [Event.token?, Stage.token?, Action.token?, Place.serving, Obs.dismisses]
  spawned _ _ _ := by simp [Action.token?, Place.serving, Obs.dismisses]
  sent paid := by cases paid
  still {x} still := by
    cases x
    case emitted event => cases event <;> first | rfl | cases still
    all_goals rfl

/-- At most one of `on_fail` and `on_stop` is invoked on an accepted instance. -/
theorem burial (tag : Tag) (actor : Actor) :
    Account tag actor Place.unburied (Obs.buries tag actor) (Obs.admits tag actor) where
  received arm := by
    cases arm <;> simp [Event.token?, Action.token?, Scheduler.idleFor, Scheduler.token?,
      Action.tag?, Scheduler.accepts, Place.unburied, Obs.admits, Obs.buries, *]
  moved move := by
    cases move
    case flushed next => simp [Worker.Local.drain_token next, Stage.token?, Obs.buries]
    case returned ok _ =>
      cases ok <;> simp [Stage.token?, Action.token?, Place.unburied, Obs.buries]
    all_goals simp [Event.token?, Stage.token?, Action.token?, Place.unburied, Obs.buries]
  spawned _ _ _ := by simp [Action.token?, Place.unburied, Obs.buries]
  sent paid := by cases paid
  still {x} still := by cases x <;> first | rfl | cases still

theorem Transition.fresh_le (transition : Transition s label t seen) : s.fresh ≤ t.fresh := by
  cases transition with
  | posted | unposted => exact Nat.le_succ _
  | dropped | recorded | worker | loop | crashed | announced | unannounced | drained | finished =>
      exact le_rfl

theorem Arm.births {s s' : Scheduler} {action : Action} {event : Option Event} {flow : Flow}
    (arm : Arm s action s' event flow) :
    (s.shows action event).countP (Obs.bears tag actor) = 0 := by
  cases arm <;> simp [Obs.bears, Scheduler.accepts, *]

/-- Only a call builds an actor, and it takes a new identity. -/
theorem Carry.births (carry : Carry s label gone come seen t) (tag : Tag) (actor : Actor) :
    seen.countP (Obs.bears tag actor) = 0 ∨
      seen.countP (Obs.bears tag actor) = 1 ∧ actor.id = s.fresh ∧ t.fresh = s.fresh + 1 := by
  cases carry with
  | quiet _ _ still =>
      refine .inl (List.countP_eq_zero.mpr fun x mem => ?_)
      have quiet := still x mem
      cases x <;> first | exact Bool.false_ne_true | cases quiet
  | @sent _ sender action _ calls _ fresh =>
      by_cases bears : Obs.bears tag actor (.sent sender action) = true
      · obtain ⟨tag', actor', rfl, id⟩ | none := calls.token
        · simp only [Obs.bears, Bool.and_eq_true, decide_eq_true_eq] at bears
          obtain ⟨rfl, rfl⟩ := bears
          exact .inr ⟨by simp [Obs.bears], id, fresh⟩
        · cases action <;> first | cases bears | cases none
      · exact .inl (by simp [bears])
  | worker _ move => exact .inl (by cases move <;> rfl)
  | received _ _ _ arm => exact .inl arm.births
  | discarded => exact .inl rfl

/-- Each actor is built once. -/
theorem born_once (run : (runtimeMachine config name host start).Run allowed s h) (tag : Tag)
    (actor : Actor) :
    h.countP (Obs.bears tag actor) ≤ 1 ∧
      (s.fresh ≤ actor.id → h.countP (Obs.bears tag actor) = 0) := by
  induction run with
  | start => exact ⟨Nat.zero_le _, fun _ => rfl⟩
  | @step s t h label seen before _ taken ih =>
      have transition := Runtime.step_transition taken
      obtain ⟨_, _, carry, _⟩ := transition.carry (runtime_sound before)
      have fresh := transition.fresh_le
      rw [List.countP_append]
      obtain none | ⟨once, id, next⟩ := carry.births tag actor
      · rw [none, Nat.add_zero]
        exact ⟨ih.1, fun new => ih.2 (fresh.trans new)⟩
      · have past := ih.2 id.ge
        exact ⟨by omega, fun new => by omega⟩

/-- An accepted instance was accepted once. -/
theorem admitted_once (run : (runtimeMachine config name host start).Run allowed s h) (tag : Tag)
    (actor : Actor) : h.countP (Obs.admits tag actor) ≤ 1 := by
  have accepted := (acceptance tag actor).run run
  have born := (born_once run tag actor).1
  omega

end Uppercut
