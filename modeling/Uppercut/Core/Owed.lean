import Uppercut.Core.WakeUp

/-!
# Instances that a stop left behind

A stop that finds its instance away ends the activation at once, and the instance
comes back later. Until then it is owed. When no tag is spawned while its instance is
owed, there is one instance for each tag that is active or owed and none for the
others, and it is the one that was spawned last.
-/

namespace Uppercut

namespace Obs

/-- Whether an instance of `tag` is away after a stop, given whether one was before. -/
def owes (tag : Tag) (away : Bool) : Obs → Bool
  | .stopped tag' => tag' = tag || away
  | .emitted (.stop tag' _) => tag' ≠ tag && away
  | .received (.return tag' _ _) => tag' ≠ tag && away
  | _ => away

/-- The tag of an accepted stop. -/
def ends? : Obs → Option Tag
  | .stopped tag => some tag
  | _ => none

end Obs

/-- The latest accepted stop of `tag` found its instance away, and no return of the tag
was received since. -/
def owed (tag : Tag) (h : List Obs) : Bool := h.foldl (Obs.owes tag) false

/-- The action does not spawn a tag whose instance is owed. -/
def Scheduler.InTurn (s : Scheduler) (h : List Obs) : Action → Prop
  | .spawn tag _ => tag ∉ s.active → owed tag h = false
  | _ => True

instance (s : Scheduler) (h : List Obs) (action : Action) : Decidable (s.InTurn h action) := by
  unfold Scheduler.InTurn
  split <;> infer_instance

/-- The number of instances that there may be of a tag. -/
def room (active : Bool) (tag : Tag) (h : List Obs) : Nat := active.toNat + (owed tag h).toNat

section History

variable {tag : Tag} {h seen : List Obs}

theorem owed_append (tag : Tag) (h seen : List Obs) :
    owed tag (h ++ seen) = seen.foldl (Obs.owes tag) (owed tag h) := List.foldl_append

/-- What says nothing about the tag leaves the account as it is. -/
theorem owed_settled (silent : ∀ x ∈ seen, ∀ away, x.owes tag away = away) :
    owed tag (h ++ seen) = owed tag h := by
  rw [owed_append]
  generalize owed tag h = away
  induction seen with
  | nil => rfl
  | cons x seen ih =>
      rw [List.foldl_cons, silent x List.mem_cons_self]
      exact ih fun y mem => silent y (List.mem_cons_of_mem x mem)

/-- Whoever is owed was stopped. -/
theorem mem_of_owed (away : owed tag h = true) : tag ∈ h.filterMap Obs.ends? := by
  induction h using List.reverseRecOn with
  | nil => cases away
  | append_singleton h x ih =>
      rw [List.filterMap_append, List.mem_append]
      rw [owed_append, List.foldl_cons, List.foldl_nil] at away
      cases x with
      | stopped tag' =>
          simp only [Obs.owes, Bool.or_eq_true, decide_eq_true_eq] at away
          apply away.symm.imp ih
          intro same
          simp [Obs.ends?, same]
      | emitted event => cases event <;> simp [Obs.owes] at away <;> simp [ih, away]
      | received action => cases action <;> simp [Obs.owes] at away <;> simp [ih, away]
      | _ => exact .inl (ih away)

theorem Obs.owes_of_calm {x : Obs} (calm : x.calm = true) (away : Bool) :
    x.owes tag away = away := by
  cases x with
  | emitted event => cases event <;> first | rfl | cases calm
  | stopped | received => cases calm
  | _ => rfl

end History

section Arm

variable {s s' : Scheduler} {action : Action} {event : Option Event} {flow : Flow}
variable {tag : Tag} {h : List Obs}

theorem Arm.owes_other (arm : Arm s action s' event flow) (other : action.tag? ≠ some tag) :
    ∀ x ∈ s.shows action event, ∀ away, x.owes tag away = away := by
  intro x mem away
  cases x with
  | stopped tag' =>
      obtain ⟨rfl, _⟩ := Scheduler.stopped_mem_shows.mp mem
      have ne : tag' ≠ tag := fun eq => other (congrArg some eq)
      simp [Obs.owes, ne]
  | emitted e =>
      obtain rfl := Scheduler.emitted_mem_shows.mp mem
      have named := arm.event_tag rfl
      cases e with
      | stop tag' =>
          have ne : tag' ≠ tag := fun eq => other (named ▸ congrArg some eq)
          simp [Obs.owes, ne]
      | mail | shutdown => rfl
  | received action' =>
      have same : action' = action := by
        cases event <;> simpa [Scheduler.mem_accepts] using mem
      subst same
      cases action' with
      | «return» tag' =>
          have ne : tag' ≠ tag := fun eq => other (congrArg some eq)
          simp [Obs.owes, ne]
      | _ => rfl
  | _ => rfl

/-- An arm makes room for each instance that it brings. -/
theorem Arm.room (arm : Arm s action s' event flow) (turn : s.InTurn h action)
    (apart : tag ∈ s.active → owed tag h = false) :
    (tag ∈ s'.active → owed tag (h ++ s.shows action event) = false) ∧
    weight tag (anyone Place.behind) (event.bind Event.token?) +
        weight tag (anyone Place.behind) (s'.idleFor action) +
        room (decide (tag ∈ s.active)) tag h ≤
      weight tag (anyone Place.behind) action.token? +
        weight tag (anyone Place.behind) (s.idleFor action) +
        room (decide (tag ∈ s'.active)) tag (h ++ s.shows action event) := by
  have bit := Bool.toNat_le (owed tag h)
  by_cases named : action.tag? = some tag
  · cases arm <;> simp only [Action.tag?, Option.some.injEq, reduceCtorEq] at named <;>
      subst named <;>
      simp [Uppercut.room, owed_append, Obs.owes, Scheduler.accepts, Event.token?, Action.token?,
        Scheduler.idleFor, Scheduler.token?, Action.tag?, Place.behind, Place.inFlight, *]
    case spawned inactive => exact turn inactive
    all_goals omega
  · obtain ⟨same, aside⟩ := arm.address_other named
    have active : (tag ∈ s'.active) = (tag ∈ s.active) := by
      have still := congrArg Address.active same
      simpa [Scheduler.address] using still
    have kept : owed tag (h ++ s.shows action event) = owed tag h :=
      owed_settled (arm.owes_other named)
    refine ⟨fun here => kept.trans (apart (active ▸ here)), ?_⟩
    rw [Uppercut.room, Uppercut.room, kept, weight_of_action_other named,
      weight_of_event_other aside, weight_idleFor_other named, weight_idleFor_other named]
    simp [active]

/-- An arm accepts a spawn of the tag, or it brings nobody new. -/
theorem Arm.newcomer (arm : Arm s action s' event flow) (tag : Tag) :
    (∃ actor, action = .spawn tag actor ∧ tag ∉ s.active ∧ event = none ∧
      s'.actors tag = some actor) ∨
    (∀ actor, Obs.spawned tag actor ∉ s.shows action event) ∧
      ∀ actor, weight tag (one actor Place.behind) (event.bind Event.token?) +
          weight tag (one actor Place.behind) (s'.idleFor action) ≤
        weight tag (one actor Place.behind) action.token? +
          weight tag (one actor Place.behind) (s.idleFor action) := by
  by_cases named : action.tag? = some tag
  · cases arm <;> simp only [Action.tag?, Option.some.injEq, reduceCtorEq] at named <;>
      subst named
    case spawned inactive => exact .inl ⟨_, rfl, inactive, rfl, Table.insert_self ..⟩
    all_goals
      refine .inr ⟨by simp [Scheduler.accepts, *], fun actor => ?_⟩
      simp [Event.token?, Action.token?, Scheduler.idleFor, Scheduler.token?, Action.tag?,
        Place.behind, Place.inFlight, *]
  · obtain ⟨_, aside⟩ := arm.address_other named
    refine .inr ⟨fun actor mem => ?_, fun actor => ?_⟩
    · exact named (by rw [(Scheduler.spawned_mem_shows.mp mem).1]; rfl)
    · rw [weight_of_event_other aside, weight_idleFor_other named]
      exact Nat.zero_le _

end Arm

/-- No tag is spawned while its instance is owed. -/
def Runtime.SpawnsInTurn (s : Runtime) (h : List Obs) : Label → Prop
  | .loop (.receive action _) => s.scheduler.InTurn h action
  | _ => True

theorem census_one_le_anyone (tag : Tag) (actor : Actor) (P : Place → Bool) (s : Runtime) :
    census tag (one actor P) s ≤ census tag (anyone P) s := by
  have split : census tag (one actor P) s + census tag (fun _ _ => 0) s ≤
      census tag (anyone P) s := by
    refine census_add_le (fun actor' place => ?_) s
    cases among : P place <;> simp [one, anyone, among]
    split <;> simp
  exact (Nat.le_add_right _ _).trans split

theorem portable_behind : Portable (anyone Place.behind) := by
  constructor <;> intros <;> rfl

theorem portable_one_behind (actor : Actor) : Portable (one actor Place.behind) := by
  constructor <;> intros <;> simp [one, Place.behind, Place.inFlight]

variable {s t : Runtime} {label : Label} {h seen : List Obs} {tag : Tag}
variable {config : SchedulerConfig} {name host : String} {start : Nat}

/-- There is an instance for each tag that is active or owed, and no other. -/
theorem runtime_room
    (run : (runtimeMachine config name host start).Run Runtime.SpawnsInTurn s h) (tag : Tag) :
    (tag ∈ s.scheduler.active → owed tag h = false) ∧
      census tag (anyone Place.behind) s ≤ room (decide (tag ∈ s.scheduler.active)) tag h := by
  induction run with
  | start =>
      refine ⟨fun _ => rfl, ?_⟩
      rw [show census tag (anyone Place.behind) (runtimeMachine config name host start).start = 0
        from census_start tag _]
      exact Nat.zero_le _
  | @step s t h label seen before turn taken ih =>
      obtain ⟨apart, fits⟩ := ih
      obtain ⟨gone, come, carry, sums⟩ :=
        (Runtime.step_transition taken).carry (runtime_sound before)
      have sum := sums tag (anyone Place.behind)
      obtain ⟨action, connected, event, flow, rfl, head, arm, rfl, rfl, rfl, _⟩ |
        ⟨calm, active, actors, fewer⟩ := carry.received_or_calm
      · obtain ⟨apart', room⟩ := arm.room turn apart
        refine ⟨apart', ?_⟩
        simp only [Tally.total_cons, Tally.total_nil] at sum
        omega
      · have less := fewer _ tag portable_behind
        rw [owed_settled fun x mem => Obs.owes_of_calm (calm x mem), room,
          owed_settled fun x mem => Obs.owes_of_calm (calm x mem), active]
        rw [room] at fits
        exact ⟨apart, by omega⟩

/-- Whoever is behind a tag was spawned last. -/
theorem runtime_newcomer
    (run : (runtimeMachine config name host start).Run Runtime.SpawnsInTurn s h) {tag : Tag}
    {actor : Actor} (behind : 0 < census tag (one actor Place.behind) s) :
    bound tag h = some actor := by
  induction run with
  | start => exact absurd (census_start tag _) behind.ne'
  | @step s t h label seen before turn taken ih =>
      obtain ⟨gone, come, carry, sums⟩ :=
        (Runtime.step_transition taken).carry (runtime_sound before)
      have sum := sums tag (one actor Place.behind)
      obtain ⟨action, connected, event, flow, rfl, head, arm, rfl, rfl, rfl, _⟩ |
        ⟨calm, active, actors, fewer⟩ := carry.received_or_calm
      · simp only [Tally.total_cons, Tally.total_nil] at sum
        obtain ⟨other, rfl, inactive, rfl, idle⟩ | ⟨unbound, fewer⟩ := arm.newcomer tag
        · have none : census tag (one actor Place.behind) s = 0 := by
            have few := census_one_le_anyone tag actor Place.behind s
            have fits := (runtime_room before tag).2
            rw [room, turn inactive] at fits
            simp only [inactive, decide_false, Bool.toNat_false] at fits
            omega
          have own : other = actor := by
            by_contra ne
            have apart : weight tag (one actor Place.behind)
                (t.scheduler.idleFor (.spawn tag other)) = 0 := by
              simp [Scheduler.idleFor, Scheduler.token?, Action.tag?, idle, ne]
            simp only [apart, Option.bind_none, weight_none] at sum
            omega
          simp [bound, Scheduler.accepts, inactive, Obs.binds, own]
        · rw [bound_settled tag h _ unbound]
          have := fewer actor
          exact ih (by omega)
      · have less := fewer _ tag (portable_one_behind actor)
        rw [(settled_of_calm tag h calm).1]
        exact ih (by omega)

end Uppercut
