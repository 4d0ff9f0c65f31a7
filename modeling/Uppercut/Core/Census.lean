import Uppercut.Core.System
import Uppercut.Data.Tally

/-!
# Where instances are

An actor is owned by exactly one party at a time: it waits in a spawn action, is idle
in the scheduler, travels in an event or in a return action, or is held by a worker.
A step moves actors between such places. `census` counts the instances of one tag by
the place they are at, and `Carry` lists for each step which of them leave a place
and which come to one. Invariants about the whole system are then sums of what a
step adds and takes away.
-/

namespace Uppercut

/-- What owns an actor. -/
inductive Place where
  | spawning
  | idle
  | mailed
  | receiving
  | failing
  | returning (ok : Bool)
  | returned (ok : Bool)
  | stopMailed
  | stopping
  deriving DecidableEq

/-- An instance, the tag it runs under and the place it is at. -/
structure Token where
  tag : Tag
  actor : Actor
  place : Place
  deriving DecidableEq

def Event.token? : Event → Option Token
  | .mail tag actor _ => some ⟨tag, actor, .mailed⟩
  | .stop tag actor => some ⟨tag, actor, .stopMailed⟩
  | .shutdown => none

def Action.token? : Action → Option Token
  | .return tag actor ok => some ⟨tag, actor, .returned ok⟩
  | .spawn tag actor => some ⟨tag, actor, .spawning⟩
  | _ => none

def Stage.token? : Stage → Option Token
  | .receiving tag actor _ => some ⟨tag, actor, .receiving⟩
  | .failing tag actor _ => some ⟨tag, actor, .failing⟩
  | .returning tag actor _ ok => some ⟨tag, actor, .returning ok⟩
  | .stopping tag actor => some ⟨tag, actor, .stopping⟩
  | _ => none

/-- The instance that waits in `actors`. -/
def Scheduler.token? (s : Scheduler) (tag : Tag) : Option Token :=
  (s.actors tag).map fun actor => ⟨tag, actor, .idle⟩

/-- The instance in `actors` that the action is about. -/
def Scheduler.idleFor (s : Scheduler) (action : Action) : Option Token :=
  action.tag?.bind s.token?

/-- What an optional token of `tag` counts. -/
def weight (tag : Tag) (f : Actor → Place → Nat) : Option Token → Nat
  | none => 0
  | some token => if token.tag = tag then f token.actor token.place else 0

/-- The weights of all instances of `tag`, summed over the places they are at. -/
def census (tag : Tag) (f : Actor → Place → Nat) (s : Runtime) : Nat :=
  weight tag f (s.scheduler.token? tag) +
    Tally.total (fun event => weight tag f event.token?) s.events +
    Tally.total (fun worker => weight tag f worker.stage.token?) s.workers +
    Tally.total (fun action => weight tag f action.token?) s.actions

@[simp] theorem weight_none (tag : Tag) (f : Actor → Place → Nat) : weight tag f none = 0 := rfl

theorem weight_some (tag : Tag) (f : Actor → Place → Nat) (token : Token) :
    weight tag f (some token) = if token.tag = tag then f token.actor token.place else 0 := rfl

/-- Log batches and metrics carry no actor. -/
theorem Worker.Local.drain_token {sender sender' : Local} {action : Action}
    (next : sender.drain = some (action, sender')) : action.token? = none := by
  obtain ⟨_, rfl, _⟩ | ⟨_, _, rfl, _⟩ := Local.drain_some next <;> rfl

theorem weight_of_action_other {tag : Tag} {f : Actor → Place → Nat} {action : Action}
    (other : action.tag? ≠ some tag) : weight tag f action.token? = 0 := by
  cases action <;> simp_all [Action.tag?, Action.token?, weight_some]

theorem weight_of_event_other {tag : Tag} {f : Actor → Place → Nat} {event : Option Event}
    (other : event.bind Event.tag? ≠ some tag) :
    weight tag f (event.bind Event.token?) = 0 := by
  cases event with
  | none => rfl
  | some event => cases event <;> simp_all [Event.tag?, Event.token?, weight_some]

/-- What two weights count separately is within what covers both of them. -/
theorem census_add_le {tag : Tag} {f g k : Actor → Place → Nat}
    (le : ∀ actor place, f actor place + g actor place ≤ k actor place) (s : Runtime) :
    census tag f s + census tag g s ≤ census tag k s := by
  have each (token? : Option Token) :
      weight tag f token? + weight tag g token? ≤ weight tag k token? := by
    cases token? with
    | none => exact le_rfl
    | some token =>
        simp only [weight_some]
        split
        · exact le _ _
        · exact le_rfl
  have idle := each (s.scheduler.token? tag)
  have events := Tally.total_add_le (fun event => each (Event.token? event)) s.events
  have workers := Tally.total_add_le (fun w : Worker => each w.stage.token?) s.workers
  have actions := Tally.total_add_le (fun action => each (Action.token? action)) s.actions
  simp only [census]
  omega

/-- Observations that are not about a single instance. -/
def Obs.still : Obs → Bool
  | .logged .. | .measured .. | .unsent _ | .released _ | .ticked _ | .emitted .shutdown => true
  | _ => false

/-- Which tokens a step takes away and which ones it brings, besides those that stay.
Tokens in `actors` are listed for the tag of the received action only. -/
inductive Carry (s : Runtime) :
    Label → List (Option Token) → List (Option Token) → List Obs → Runtime → Prop where
  | quiet {label seen t} (active : t.scheduler.active = s.scheduler.active)
      (actors : t.scheduler.actors = s.scheduler.actors) (still : ∀ x ∈ seen, x.still = true) :
      Carry s label [] [] seen t
  | sent {label sender action t} (calls : s.Calls label sender action) (loop : t.loop = s.loop)
      (fresh : t.fresh = s.fresh + 1) :
      Carry s label [] [action.token?] [.sent sender action] t
  | worker {index label w input events w' output seen t} (known : s.workers[index]? = some w)
      (move : w.Move index s.actionsConnected label input w' output seen)
      (popped : s.events = input.toList ++ events)
      (hung : label = .hangUp → s.events = [] ∧ s.actionsConnected = false)
      (loop : t.loop = s.loop) (workers : t.workers = s.workers.set index w') (lost : List Event)
      (discards : lost = [] ∨ lost = events ∧ t.eventsConnected = false) :
      Carry s (.worker index label)
        (input.bind Event.token? :: w.stage.token? :: lost.map Event.token?)
        [w'.stage.token?, output.bind Action.token?] seen t
  | received {action connected event flow t} (head : action ∈ s.actions)
      (at_head : s.loop.phase = .receiving) (phase : t.loop.phase = flow.phase)
      (arm : Arm s.scheduler action t.scheduler event flow) :
      Carry s (.loop (.receive action connected))
        [action.token?, s.scheduler.idleFor action]
        [event.bind Event.token?, t.scheduler.idleFor action]
        (s.scheduler.shows action event) t
  | discarded {label t} (ceased : s.loop.phase.running = false ∨ t.loop.phase.running = false)
      (active : t.scheduler.active = s.scheduler.active)
      (actors : t.scheduler.actors = s.scheduler.actors) (lost : List Action) :
      Carry s label (lost.map Action.token?) [] [] t

/-- A worker that goes on keeps the events in the channel. -/
theorem lost_nil_of_running {s t : Runtime} {index : Nat} {w w' : Worker} {events lost : List Event}
    (known : s.workers[index]? = some w) (workers : t.workers = s.workers.set index w')
    (going : w'.stage.running = true)
    (discards : lost = [] ∨ lost = events ∧ t.eventsConnected = false) : lost = [] := by
  apply discards.resolve_right
  intro gone
  have ceased := gone.2
  rw [Runtime.eventsConnected, workers, Runtime.any_running_set known going] at ceased
  cases ceased

theorem recordObs_still (index : Nat) (tag : Tag) (actor : Actor) (now : Nat) (call : Call) :
    ∀ x ∈ Runtime.recordObs index tag actor now call, x.still = true := by
  cases call <;> simp [Runtime.recordObs, Obs.still]

/-- An arm touches `actors` only at the tag of its action. -/
theorem Arm.actors_other {s s' : Scheduler} {action : Action} {event : Option Event}
    {flow : Flow} {tag : Tag} (arm : Arm s action s' event flow)
    (other : action.tag? ≠ some tag) : s'.actors tag = s.actors tag :=
  congrArg Address.idle (arm.address_other other).1

/-- Only released entries go back to the action channel, and no actor is among them. -/
theorem LoopMove.requeued {phase phase' : Phase} {s s' : Scheduler} {label : LoopLabel}
    {seen : List Obs} (move : LoopMove phase s label phase' s' seen) (tag : Tag)
    (f : Actor → Place → Nat) :
    Tally.total (fun action => weight tag f action.token?) (seen.filterMap Obs.requeued?) = 0 := by
  cases move with
  | @received action _ _ event =>
      rw [s.shows_filterMap action event _ (fun _ _ => rfl) fun _ => rfl]
      cases event <;> rfl
  | crashed | unsent | timeout | clock => rfl
  | release => rfl
  | tick => rfl

/-- A step of the event loop that does not panic receives an action, or it leaves the
instances alone. -/
theorem LoopMove.cases {phase phase' : Phase} {s s' : Scheduler} {label : LoopLabel}
    {seen : List Obs} (move : LoopMove phase s label phase' s' seen) (runs : phase' ≠ .panicked) :
    (∃ action connected event flow, label = .receive action connected ∧ phase = .receiving ∧
      phase' = flow.phase ∧ Arm s action s' event flow ∧ seen = s.shows action event) ∨
    ((∀ action connected, label ≠ .receive action connected) ∧ s'.active = s.active ∧
      s'.actors = s.actors ∧ (∀ x ∈ seen, x.still = true) ∧ output seen = []) := by
  cases move with
  | crashed | unsent => exact absurd rfl runs
  | received at_head arm => exact .inl ⟨_, _, _, _, rfl, at_head, rfl, arm, rfl⟩
  | timeout | clock => exact .inr ⟨by simp, rfl, rfl, by simp, rfl⟩
  | release => exact .inr ⟨by simp, rfl, rfl, by simp [Obs.still], rfl⟩
  | tick => exact .inr ⟨by simp, rfl, rfl, by simp [Obs.still], rfl⟩

section Sums

variable (tag : Tag) (f : Actor → Place → Nat)

theorem total_weight_map {α : Type} (token? : α → Option Token) (l : List α) :
    Tally.total (weight tag f) (l.map token?) =
      Tally.total (fun a => weight tag f (token? a)) l := by
  simp [Tally.total, Function.comp_def]

theorem total_weight_toList {α : Type} (token? : α → Option Token) (a : Option α) :
    Tally.total (fun a => weight tag f (token? a)) a.toList = weight tag f (a.bind token?) := by
  cases a <;> simp

end Sums

/-- An action about another tag finds no instance of `tag` idle. -/
theorem weight_idleFor_other {tag : Tag} {action : Action} (other : action.tag? ≠ some tag)
    (f : Actor → Place → Nat) (s : Scheduler) : weight tag f (s.idleFor action) = 0 := by
  rw [Scheduler.idleFor]
  cases owner : action.tag? with
  | none => rfl
  | some owner' =>
      have ne : owner' ≠ tag := fun eq => other (by rw [owner, eq])
      cases bound : s.actors owner' <;> simp [Scheduler.token?, weight_some, bound, ne]

theorem weight_idleFor_le (tag : Tag) (f : Actor → Place → Nat) (s : Scheduler)
    (action : Action) : weight tag f (s.idleFor action) ≤ weight tag f (s.token? tag) := by
  by_cases named : action.tag? = some tag
  · rw [Scheduler.idleFor, named, Option.bind_some]
  · rw [weight_idleFor_other named]
    exact Nat.zero_le _

/-- Only the tag of its action can change what `actors` counts. -/
theorem Arm.idle {s s' : Scheduler} {action : Action} {event : Option Event} {flow : Flow}
    (arm : Arm s action s' event flow) (tag : Tag) (f : Actor → Place → Nat) :
    weight tag f (s'.token? tag) + weight tag f (s.idleFor action) =
      weight tag f (s.token? tag) + weight tag f (s'.idleFor action) := by
  by_cases named : action.tag? = some tag
  · simp only [Scheduler.idleFor, named, Option.bind_some]
    omega
  · have other : s'.token? tag = s.token? tag := by
      rw [Scheduler.token?, Scheduler.token?, arm.actors_other named]
    rw [other, weight_idleFor_other named, weight_idleFor_other named]

theorem Runtime.not_running_of_closing (s : Runtime) (closing : s.closing = true) :
    s.loop.phase.running = false := by
  rw [s.exited_of_closing closing]
  rfl

namespace Transition

variable {s t : Runtime} {label : Label} {seen : List Obs}

/-- Every step carries tokens, and the census of each tag adds up. -/
theorem carry (transition : Transition s label t seen) (sound : s.Sound) :
    ∃ gone come, Carry s label gone come seen t ∧ ∀ tag f,
      census tag f t + Tally.total (weight tag f) gone =
        census tag f s + Tally.total (weight tag f) come := by
  cases transition with
  | posted calls =>
      refine ⟨_, _, .sent calls rfl rfl, fun tag f => ?_⟩
      simp only [census, Runtime.scheduler, Tally.total_append, Tally.total_cons, Tally.total_nil]
      omega
  | unposted => exact ⟨_, _, .quiet rfl rfl (by simp [Obs.still]), fun tag f => rfl⟩
  | dropped => exact ⟨_, _, .quiet rfl rfl (by simp), fun tag f => rfl⟩
  | @recorded index call now w tag actor _ sender known =>
      refine ⟨_, _, .quiet rfl rfl (recordObs_still index tag actor now call), fun tag f => ?_⟩
      have moved := Tally.total_set (fun worker => weight tag f worker.stage.token?) known
        { w with sender := sender }
      simp only [census, Runtime.scheduler, Tally.total_nil] at moved ⊢
      omega
  | @worker index _ w input events w' output _ known move popped hung =>
      obtain ⟨lost, discards, split⟩ : ∃ lost, (lost = [] ∨
          lost = events ∧ (s.workers.set index w').any (·.stage.running) = false) ∧
          ∀ g : Event → Nat, Tally.total g events = Tally.total g lost + Tally.total g
            (if (s.workers.set index w').any (·.stage.running) then events else []) := by
        by_cases connected : (s.workers.set index w').any (·.stage.running) = true
        · exact ⟨[], .inl rfl, by simp [connected]⟩
        · exact ⟨events, .inr ⟨rfl, by simpa using connected⟩, by simp [connected]⟩
      refine ⟨_, _, .worker known move popped hung ?_ ?_ lost discards, fun tag f => ?_⟩
      · rfl
      · rfl
      have moved := Tally.total_set (fun worker => weight tag f worker.stage.token?) known w'
      have kept := split fun event => weight tag f event.token?
      simp only [census, Runtime.scheduler, popped, total_weight_map, Tally.total_append,
        Tally.total_cons, Tally.total_nil, total_weight_toList] at kept ⊢
      omega
  | @loop label loop seen offered taken running =>
      have move := LoopState.step_move taken
      have requeued := move.requeued
      obtain ⟨action, connected, event, flow, rfl, at_head, phase, arm, rfl⟩ |
        ⟨unread, active, actors, still, silent⟩ := move.cases running
      · obtain ⟨actions, head⟩ := (Runtime.offers_receive offered).1
        refine ⟨_, _, .received (by simp [head]) at_head phase arm, fun tag f => ?_⟩
        have idle := arm.idle tag f
        have sent : (s.scheduler.shows action event).filterMap Obs.emitted? = event.toList :=
          output_shows s.scheduler action event
        have back := requeued tag f
        simp only [census, Runtime.scheduler, Runtime.unread, head, List.tail_cons,
          Tally.total_append, Tally.total_cons, Tally.total_nil, back, sent,
          total_weight_toList] at idle ⊢
        omega
      · refine ⟨_, _, .quiet active actors still, fun tag f => ?_⟩
        have back := requeued tag f
        have idle : loop.loop.scheduler.token? tag = s.scheduler.token? tag :=
          congrArg (Option.map _) (congrFun actors tag)
        have kept : s.unread label = s.actions := Runtime.unread_eq unread
        have unsent : seen.filterMap Obs.emitted? = [] := silent
        simp only [census, Runtime.scheduler, kept, idle, Tally.total_append, Tally.total_nil,
          back, unsent, Nat.add_zero]
  | crashed offered taken panicked =>
      obtain ⟨rfl, same, _⟩ := (LoopState.step_move taken).panics sound.wellFormed panicked
      refine ⟨_, _, .discarded (.inr ?_) ?_ ?_ s.actions, fun tag f => ?_⟩
      · simp [panicked, Phase.running]
      · exact congrArg Scheduler.active same
      · exact congrArg Scheduler.actors same
      · simp only [census, Runtime.scheduler, same, Tally.total_nil, total_weight_map]
        omega
  | announced =>
      refine ⟨_, _, .quiet rfl rfl (by simp [Obs.still]), fun tag f => ?_⟩
      simp [census, Event.token?]
  | unannounced closing =>
      refine ⟨_, _, .discarded (.inl (s.not_running_of_closing closing)) ?_ ?_ s.actions,
        fun tag f => ?_⟩
      · rfl
      · rfl
      · simp only [census, Runtime.scheduler, Tally.total_nil, total_weight_map]
        omega
  | drained closing =>
      refine ⟨_, _, .discarded (.inl (s.not_running_of_closing closing)) ?_ ?_
        s.actions.head?.toList, fun tag f => ?_⟩
      · rfl
      · rfl
      · cases head : s.actions with
        | nil => simp [census, head]
        | cons action actions =>
            simp only [census, Runtime.scheduler, head, List.tail_cons, List.head?_cons,
              Option.toList_some, List.map_cons, List.map_nil, Tally.total_cons, Tally.total_nil]
            omega
  | finished => exact ⟨_, _, .quiet rfl rfl (by simp), fun tag f => rfl⟩

end Transition

end Uppercut
