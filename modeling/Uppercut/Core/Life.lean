import Uppercut.Core.Stop

/-!
# One life

Whatever the interleaving, the callbacks of one instance follow one after the other: it receives
envelopes, and then it is told once, by `on_fail` after a panic or by `on_stop`, and is not called
any more. The place where an instance is tells how far it has come.
-/

namespace Uppercut

/-- The callbacks of an actor. -/
inductive Duty where
  | receive
  | onFail
  | onStop
  deriving DecidableEq

def Callback.duty : Callback → Duty
  | .receive _ => .receive
  | .onFail => .onFail
  | .onStop => .onStop

/-- A callback is entered, or it is left by a return or a panic. -/
inductive Moment where
  | enters (duty : Duty)
  | leaves (duty : Duty) (ok : Bool)
  deriving DecidableEq

/-- What happens to the instance `actor` of `tag`. -/
def Obs.moment? (tag : Tag) (actor : Actor) : Obs → Option Moment
  | .called _ tag' actor' callback =>
      if tag' = tag ∧ actor' = actor then some (.enters callback.duty) else none
  | .ended _ tag' actor' callback ok =>
      if tag' = tag ∧ actor' = actor then some (.leaves callback.duty ok) else none
  | _ => none

def moments (tag : Tag) (actor : Actor) (h : List Obs) : List Moment :=
  h.filterMap (Obs.moment? tag actor)

@[simp] theorem moments_append (tag : Tag) (actor : Actor) (h k : List Obs) :
    moments tag actor (h ++ k) = moments tag actor h ++ moments tag actor k :=
  List.filterMap_append

theorem moments_called (i : Nat) (tag tag' : Tag) (actor actor' : Actor) (callback : Callback) :
    moments tag' actor' [.called i tag actor callback] =
      if tag = tag' ∧ actor = actor' then [.enters callback.duty] else [] := by
  rw [moments, List.filterMap_cons, Obs.moment?]
  split <;> simp_all

theorem moments_ended (i : Nat) (tag tag' : Tag) (actor actor' : Actor) (callback : Callback)
    (ok : Bool) : moments tag' actor' [.ended i tag actor callback ok] =
      if tag = tag' ∧ actor = actor' then [.leaves callback.duty ok] else [] := by
  rw [moments, List.filterMap_cons, Obs.moment?]
  split <;> simp_all

/-- How far an instance has come. -/
inductive Life where
  /-- It is in no callback, and it has received well so far. -/
  | calm
  | receiving
  /-- `receive` has panicked. -/
  | broken
  | failing
  | stopping
  | told
  deriving DecidableEq

namespace Life

/-- The order of the callbacks. -/
def next : Life → Moment → Option Life
  | .calm, .enters .receive => some .receiving
  | .calm, .enters .onStop => some .stopping
  | .receiving, .leaves .receive ok => some (if ok then .calm else .broken)
  | .broken, .enters .onFail => some .failing
  | .failing, .leaves .onFail _ => some .told
  | .stopping, .leaves .onStop _ => some .told
  | _, _ => none

def run (l : Life) : List Moment → Option Life
  | [] => some l
  | m :: ms => (l.next m).bind fun l => l.run ms

theorem run_append (l : Life) (ms ns : List Moment) :
    l.run (ms ++ ns) = (l.run ms).bind fun l => l.run ns := by
  induction ms generalizing l with
  | nil => rfl
  | cons m ms ih =>
      simp only [List.cons_append, run, Option.bind_assoc]
      exact congrArg _ (funext fun l => ih l)

/-- The ways to come from the last envelope that was received well to a stage of life. -/
def ways : Life → List (List Moment)
  | .calm => [[]]
  | .receiving => [[.enters .receive]]
  | .broken => [[.enters .receive, .leaves .receive false]]
  | .failing => [[.enters .receive, .leaves .receive false, .enters .onFail]]
  | .stopping => [[.enters .onStop]]
  | .told =>
      [[.enters .onStop, .leaves .onStop true], [.enters .onStop, .leaves .onStop false],
        [.enters .receive, .leaves .receive false, .enters .onFail, .leaves .onFail true],
        [.enters .receive, .leaves .receive false, .enters .onFail, .leaves .onFail false]]

/-- An envelope is received well. -/
def served : List Moment := [.enters .receive, .leaves .receive true]

/-- A moment goes on with a way, or it ends the receiving of an envelope. -/
theorem next_ways {l l' : Life} {m : Moment} (next : l.next m = some l') {way : List Moment}
    (mem : way ∈ l.ways) : way ++ [m] ∈ l'.ways ∨ l' = .calm ∧ way ++ [m] = served := by
  cases l <;> cases m with
  | enters duty => cases duty <;> cases next <;> revert way <;> decide
  | leaves duty ok => cases duty <;> cases ok <;> cases next <;> revert way <;> decide

/-- Any number of envelopes are received well, and then the life goes one of its ways. -/
theorem shape {l : Life} {ms : List Moment} (lived : Life.calm.run ms = some l) :
    ∃ n, ∃ way ∈ l.ways, ms = (List.replicate n served).flatten ++ way := by
  induction ms using List.reverseRecOn generalizing l with
  | nil =>
      cases lived
      exact ⟨0, [], List.mem_singleton_self _, rfl⟩
  | append_singleton ms m ih =>
      rw [run_append] at lived
      obtain ⟨l₀, past, last⟩ := Option.bind_eq_some_iff.mp lived
      obtain ⟨l₁, next, same⟩ := Option.bind_eq_some_iff.mp last
      cases same
      obtain ⟨n, way, mem, rfl⟩ := ih past
      obtain longer | ⟨rfl, done⟩ := next_ways next mem
      · exact ⟨n, _, longer, List.append_assoc ..⟩
      · refine ⟨n + 1, [], List.mem_singleton_self _, ?_⟩
        rw [List.append_assoc, done, List.replicate_succ', List.flatten_concat, List.append_nil]

end Life

/-- How far an instance has come that is at a place. -/
def Place.life : Place → Life
  | .spawning | .idle | .mailed | .stopMailed | .returning true | .returned true => .calm
  | .receiving => .receiving
  | .failing => .failing
  | .stopping => .stopping
  | .returning false | .returned false => .told

/-- Each instance is at one place at most. -/
theorem presence (tag : Tag) (actor : Actor) :
    Account tag actor (fun _ => true) Obs.nothing (Obs.bears tag actor) where
  received arm := by
    cases arm <;> simp [Event.token?, Action.token?, Scheduler.idleFor, Scheduler.token?,
      Action.tag?, Scheduler.accepts, Obs.bears, Obs.nothing, *]
  moved move := by
    cases move
    case flushed next => simp [Worker.Local.drain_token next, Stage.token?, Obs.nothing]
    all_goals simp [Event.token?, Stage.token?, Action.token?, Obs.nothing]
  spawned _ _ _ := by simp [Action.token?, Obs.bears, Obs.nothing]
  sent paid := by cases paid
  still _ := rfl

/-- A worker takes an instance from the place `p` to the place `q`, or out of sight, and the
instance sees `ms`. -/
structure Worker.Hop (w w' : Worker) (input : Option Event) (output : Option Action)
    (seen : List Obs) (tag : Tag) (actor : Actor) (p : Place) (q : Option Place)
    (ms : List Moment) (l : Life) : Prop where
  leaves : ∀ tag' f, weight tag' f (input.bind Event.token?) + weight tag' f w.stage.token? =
    weight tag' f (some ⟨tag, actor, p⟩)
  comes : ∀ tag' f, weight tag' f w'.stage.token? + weight tag' f (output.bind Action.token?) =
    weight tag' f (q.map fun q => ⟨tag, actor, q⟩)
  apart : ∀ q' ∈ q, q' ≠ p ∧ q'.life = l
  lived : p.life.run ms = some l
  shown : ∀ tag' actor', moments tag' actor' seen = if tag = tag' ∧ actor = actor' then ms else []

/-- A worker moves one instance at most. -/
theorem Worker.Move.hop {index : Nat} {connected : Bool} {w w' : Worker} {label : WorkerLabel}
    {input : Option Event} {output : Option Action} {seen : List Obs}
    (move : w.Move index connected label input w' output seen) :
    (∃ tag actor p q ms l, w.Hop w' input output seen tag actor p q ms l) ∨
      (∀ tag f, weight tag f (input.bind Event.token?) + weight tag f w.stage.token? =
        weight tag f w'.stage.token? + weight tag f (output.bind Action.token?)) ∧
      ∀ tag actor, moments tag actor seen = [] := by
  cases move
  case dismissed | unflushed | rested | hungUp => exact .inr ⟨fun _ _ => rfl, fun _ _ => rfl⟩
  case flushed next =>
    refine .inr ⟨fun tag f => ?_, fun _ _ => rfl⟩
    simp [Worker.Local.drain_token next, Stage.token?]
  case received tag actor _ =>
    exact .inl ⟨tag, actor, .mailed, some .receiving, [.enters .receive], .receiving,
      by simp [Event.token?, Stage.token?], by simp [Stage.token?], by simp [Place.life], rfl,
      fun _ _ => moments_called ..⟩
  case stopped tag actor =>
    exact .inl ⟨tag, actor, .stopMailed, some .stopping, [.enters .onStop], .stopping,
      by simp [Event.token?, Stage.token?], by simp [Stage.token?], by simp [Place.life], rfl,
      fun _ _ => moments_called ..⟩
  case finished tag actor _ =>
    exact .inl ⟨tag, actor, .receiving, some (.returning true), [.leaves .receive true], .calm,
      by simp [Stage.token?], by simp [Stage.token?], by simp [Place.life], rfl,
      fun _ _ => moments_ended ..⟩
  case failed tag actor _ =>
    refine .inl ⟨tag, actor, .receiving, some .failing, [.leaves .receive false, .enters .onFail],
      .failing, by simp [Stage.token?], by simp [Stage.token?], by simp [Place.life], rfl, ?_⟩
    intro tag' actor'
    rw [← List.singleton_append, moments_append, moments_ended, moments_called]
    split <;> rfl
  case recovered tag actor _ =>
    exact .inl ⟨tag, actor, .failing, some (.returning false), [.leaves .onFail true], .told,
      by simp [Stage.token?], by simp [Stage.token?], by simp [Place.life], rfl,
      fun _ _ => moments_ended ..⟩
  case lost tag actor _ =>
    exact .inl ⟨tag, actor, .failing, none, [.leaves .onFail false], .told,
      by simp [Stage.token?], by simp [Stage.token?], by simp, rfl, fun _ _ => moments_ended ..⟩
  case released tag actor =>
    exact .inl ⟨tag, actor, .stopping, none, [.leaves .onStop true], .told,
      by simp [Stage.token?], by simp [Stage.token?], by simp, rfl, fun _ _ => moments_ended ..⟩
  case crashed tag actor =>
    exact .inl ⟨tag, actor, .stopping, none, [.leaves .onStop false], .told,
      by simp [Stage.token?], by simp [Stage.token?], by simp, rfl, fun _ _ => moments_ended ..⟩
  case returned tag actor _ ok _ =>
    refine .inl ⟨tag, actor, .returning ok, some (.returned ok), [], (Place.returning ok).life,
      by simp [Stage.token?], by simp [Stage.token?, Action.token?], ?_, rfl, ?_⟩
    · cases ok <;> simp [Place.life]
    · intro tag' actor'
      split <;> rfl
  case abandoned tag actor _ ok _ =>
    refine .inl ⟨tag, actor, .returning ok, none, [], (Place.returning ok).life,
      by simp [Stage.token?], by simp [Stage.token?], by simp, rfl, ?_⟩
    intro tag' actor'
    split <;> rfl

/-- The event loop passes an instance on as it is. -/
theorem Arm.life {s s' : Scheduler} {action : Action} {event : Option Event} {flow : Flow}
    (arm : Arm s action s' event flow) (tag : Tag) (actor : Actor) (Q : Life → Bool) :
    moments tag actor (s.shows action event) = [] ∧
    weight tag (one actor fun place => Q place.life) (event.bind Event.token?) +
        weight tag (one actor fun place => Q place.life) (s'.idleFor action) ≤
      weight tag (one actor fun place => Q place.life) action.token? +
        weight tag (one actor fun place => Q place.life) (s.idleFor action) := by
  constructor
  · rw [moments, s.shows_filterMap action event _ (fun _ _ => rfl) fun _ => rfl]
    cases event <;> rfl
  · cases arm <;> simp [Event.token?, Action.token?, Scheduler.idleFor, Scheduler.token?,
      Action.tag?, Place.life, *]

theorem moments_of_still {tag : Tag} {actor : Actor} {seen : List Obs}
    (still : ∀ x ∈ seen, x.still = true) : moments tag actor seen = [] := by
  rw [moments, List.filterMap_eq_nil_iff]
  intro x mem
  have aside := still x mem
  cases x <;> first | rfl | cases aside

/-- What is counted at some places is counted at more places. -/
theorem census_one_mono {P Q : Place → Bool} (wider : ∀ place, P place = true → Q place = true)
    (tag : Tag) (actor : Actor) (s : Runtime) :
    census tag (one actor P) s ≤ census tag (one actor Q) s := by
  have none : ∀ place, (P place).toNat + (false).toNat ≤ (Q place).toNat := by
    intro place
    have more := wider place
    revert more
    cases P place <;> cases Q place <;> simp
  exact (Nat.le_add_right _ _).trans (census_one_add_le none tag actor s)

/-- An instance has come as far as its history tells, wherever it is. -/
structure Lived (s : Runtime) (h : List Obs) (tag : Tag) (actor : Actor) (l : Life) : Prop where
  run : Life.calm.run (moments tag actor h) = some l
  place : census tag (one actor fun place => place.life ≠ l) s = 0
  unborn : h.countP (Obs.bears tag actor) = 0 → moments tag actor h = []

section Step

variable {s t : Runtime} {label : Label} {gone come : List (Option Token)} {h seen : List Obs}
variable {tag : Tag} {actor : Actor} {l : Life}

/-- A step that the instance does not see leaves it where it has come to. -/
theorem Lived.keep (lived : Lived s h tag actor l) (silent : moments tag actor seen = [])
    (less : census tag (one actor fun place => place.life ≠ l) t ≤
      census tag (one actor fun place => place.life ≠ l) s) : Lived t (h ++ seen) tag actor l where
  run := by
    rw [moments_append, silent, List.append_nil]
    exact lived.run
  place := Nat.eq_zero_of_le_zero (less.trans lived.place.le)
  unborn none := by
    rw [moments_append, silent, List.append_nil]
    rw [List.countP_append] at none
    exact lived.unborn (by omega)

variable {config : SchedulerConfig} {name host : String} {start : Nat}
variable {allowed : Runtime → List Obs → Label → Prop}

/-- A worker leads an instance on that it moves. -/
theorem Lived.hop (lived : Lived s h tag actor l) {w w' : Worker} {input : Option Event}
    {output : Option Action} {p : Place} {q : Option Place} {ms : List Moment} {l' : Life}
    (hop : w.Hop w' input output seen tag actor p q ms l') (lost : List Event)
    (total : census tag (one actor fun _ => true) s ≤ h.countP (Obs.bears tag actor))
    (once : h.countP (Obs.bears tag actor) ≤ 1)
    (sums : ∀ P : Place → Bool, census tag (one actor P) t +
        (weight tag (one actor P) (some ⟨tag, actor, p⟩) +
          Tally.total (weight tag (one actor P)) (lost.map Event.token?)) =
      census tag (one actor P) s +
        weight tag (one actor P) (q.map fun q => ⟨tag, actor, q⟩)) :
    Lived t (h ++ seen) tag actor l' := by
  have elsewhere : ∀ P : Place → Bool, (∀ q' ∈ q, P q' = false) →
      weight tag (one actor P) (q.map fun q => ⟨tag, actor, q⟩) = 0 := by
    intro P none
    cases q with
    | none => rfl
    | some q' => simp [none q' rfl]
  -- The worker has it from `p`, so it is there, once.
  have here : 1 ≤ census tag (one actor (· = p)) s := by
    have left := sums (· = p)
    rw [elsewhere _ fun q' mem => decide_eq_false (hop.apart q' mem).1] at left
    simp only [weight_one, and_self, decide_true, if_true] at left
    omega
  have stage : p.life = l := by
    by_contra other
    have among := census_one_mono (P := (· = p)) (Q := fun place => place.life ≠ l)
      (by simp_all) tag actor s
    have none := lived.place
    omega
  have shown := hop.shown tag actor
  rw [if_pos ⟨rfl, rfl⟩] at shown
  constructor
  · rw [moments_append, Life.run_append, lived.run, Option.bind_some, shown, ← stage]
    exact hop.lived
  · have left := sums fun place => place.life ≠ l'
    rw [elsewhere _ fun q' mem => by simp [(hop.apart q' mem).2]] at left
    by_cases same : p.life = l'
    · have apart := census_one_add_le (P := (· = p)) (Q := fun place => place.life ≠ l')
        (R := fun _ => true) (fun place => by
          by_cases it : place = p
          · simp [it, same]
          · simp [it, Bool.toNat_le]) tag actor s
      omega
    · have most := census_one_mono (P := fun place => place.life ≠ l') (Q := fun _ => true)
        (fun _ _ => rfl) tag actor s
      rw [weight_one, if_pos ⟨rfl, rfl, decide_eq_true same⟩] at left
      omega
  · intro none
    rw [List.countP_append] at none
    have most := census_one_mono (P := (· = p)) (Q := fun _ => true) (fun _ _ => rfl) tag actor s
    omega

variable {config : SchedulerConfig} {name host : String} {start : Nat}
variable {allowed : Runtime → List Obs → Label → Prop}

/-- A step leads an instance on. -/
theorem Lived.step (lived : Lived s h tag actor l)
    (run : (runtimeMachine config name host start).Run allowed s h)
    (carry : Carry s label gone come seen t)
    (sums : ∀ tag f, census tag f t + Tally.total (weight tag f) gone =
      census tag f s + Tally.total (weight tag f) come) :
    ∃ l, Lived t (h ++ seen) tag actor l := by
  have sum (P : Place → Bool) := sums tag (one actor P)
  have same := sum fun place => place.life ≠ l
  have once := born_once run tag actor
  cases carry with
  | quiet _ _ still =>
      refine ⟨l, lived.keep (moments_of_still still) ?_⟩
      simp only [Tally.total_nil] at same
      omega
  | @sent _ sender action _ calls =>
      refine ⟨l, lived.keep rfl ?_⟩
      have calm : weight tag (one actor fun place => place.life ≠ l) action.token? = 0 := by
        obtain ⟨tag', actor', rfl, id⟩ | none := calls.token
        · rw [Action.token?, weight_one, if_neg]
          rintro ⟨rfl, rfl, stage⟩
          -- A new instance has not been called, so it is at the start of its life.
          have past := lived.run
          rw [lived.unborn (once.2 id.ge)] at past
          cases past
          cases stage
        · rw [none, weight_none]
      simp only [Tally.total_cons, Tally.total_nil, calm] at same
      omega
  | @worker _ _ _ _ _ _ _ _ _ _ move _ _ _ _ lost =>
      simp only [Tally.total_cons, Tally.total_nil] at same sum
      obtain ⟨tag', actor', p, q, ms, l', hop⟩ | ⟨weights, silent⟩ := move.hop
      · by_cases own : tag' = tag ∧ actor' = actor
        · obtain ⟨rfl, rfl⟩ := own
          have total := (presence tag' actor').run run
          refine ⟨l', lived.hop hop lost (by omega) once.1 fun P => ?_⟩
          have left := hop.leaves tag' (one actor' P)
          have came := hop.comes tag' (one actor' P)
          have all := sum P
          omega
        · refine ⟨l, lived.keep ((hop.shown tag actor).trans (if_neg own)) ?_⟩
          have came := hop.comes tag (one actor fun place => place.life ≠ l)
          have none : weight tag (one actor fun place => place.life ≠ l)
              (q.map fun q => ⟨tag', actor', q⟩) = 0 := by
            cases q with
            | none => rfl
            | some q => exact (weight_one ..).trans (if_neg fun it => own ⟨it.1, it.2.1⟩)
          omega
      · refine ⟨l, lived.keep (silent tag actor) ?_⟩
        have kept := weights tag (one actor fun place => place.life ≠ l)
        omega
  | @received action connected event flow _ head at_head phase arm =>
      obtain ⟨silent, less⟩ := arm.life tag actor fun life => life ≠ l
      refine ⟨l, lived.keep silent ?_⟩
      simp only [Tally.total_cons, Tally.total_nil] at same
      omega
  | discarded =>
      refine ⟨l, lived.keep rfl ?_⟩
      simp only [Tally.total_nil] at same
      omega

end Step

variable {config : SchedulerConfig} {name host : String} {start : Nat}
variable {allowed : Runtime → List Obs → Label → Prop} {s : Runtime} {h : List Obs}

theorem runtime_life (run : (runtimeMachine config name host start).Run allowed s h) (tag : Tag)
    (actor : Actor) : ∃ l, Lived s h tag actor l := by
  induction run with
  | start => exact ⟨.calm, rfl, census_start .., fun _ => rfl⟩
  | step before _ taken ih =>
      obtain ⟨l, lived⟩ := ih
      obtain ⟨_, _, carry, sums⟩ :=
        (Runtime.step_transition taken).carry (runtime_sound before)
      exact lived.step before carry sums

/-- **One life.** In every run the callbacks of each instance follow one after the other: it
receives any number of envelopes well, and then it is called no more so far, or it is in
`receive`, or `receive` has panicked and it is told by `on_fail`, or it is told by `on_stop`.
After that it is not called again. Wherever the instance is, its place fits with this. -/
theorem one_life (run : (runtimeMachine config name host start).Run allowed s h) (tag : Tag)
    (actor : Actor) :
    ∃ n l, (∃ way ∈ Life.ways l,
        moments tag actor h = (List.replicate n Life.served).flatten ++ way) ∧
      census tag (one actor fun place => place.life ≠ l) s = 0 := by
  obtain ⟨l, lived⟩ := runtime_life run tag actor
  obtain ⟨n, way, mem, eq⟩ := Life.shape lived.run
  exact ⟨n, l, ⟨way, mem, eq⟩, lived.place⟩

/-- The instance that comes back late has received one envelope. -/
theorem one_life_replacement :
    ∃ s h, (runtimeMachine .default "app" "host" 0).Run
        (fun s _ label => s.unwinds label = none) s h ∧
      moments "a" ⟨1⟩ h = Life.served ∧
      ∃ n l, (∃ way ∈ Life.ways l,
          moments "a" ⟨1⟩ h = (List.replicate n Life.served).flatten ++ way) ∧
        census "a" (one ⟨1⟩ fun place => place.life ≠ l) s = 0 :=
  have run := Machine.run_replay (runtimeMachine .default "app" "host" 0)
    (fun s _ label => s.unwinds label = none) replacement (by decide)
  ⟨_, _, run, by decide, one_life run "a" ⟨1⟩⟩

end Uppercut
