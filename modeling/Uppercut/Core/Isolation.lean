import Uppercut.Core.Mailbox

/-!
# Addresses do not influence each other

What the scheduler holds for a tag, and which events it sends about it, is computed
by the tag's own automaton from the actions that name the tag. Whatever else is
received in between, and whatever the clock does, makes no difference.

With eager shutdown disabled the loop processes every finite sequence of actions
without a shutdown to its end, so the statement is about all such sequences.
-/

namespace Uppercut

namespace Obs

def received? : Obs → Option Action
  | .received action => some action
  | _ => none

end Obs

/-- The actions a history has received. -/
def intake (h : List Obs) : List Action := h.filterMap Obs.received?

/-- The events a history has sent. -/
def output (h : List Obs) : List Event := h.filterMap Obs.emitted?

/-- The actions among `actions` that name `tag`. -/
def actionsFor (tag : Tag) (actions : List Action) : List Action :=
  actions.filter (·.tag? = some tag)

/-- The events among `events` that are about `tag`. -/
def eventsFor (tag : Tag) (events : List Event) : List Event :=
  events.filter (·.tag? = some tag)

@[simp] theorem intake_nil : intake [] = [] := rfl

@[simp] theorem intake_cons (x : Obs) (h : List Obs) :
    intake (x :: h) = x.received?.toList ++ intake h := by
  cases x <;> rfl

@[simp] theorem output_nil : output [] = [] := rfl

@[simp] theorem output_cons (x : Obs) (h : List Obs) :
    output (x :: h) = x.emitted?.toList ++ output h := by
  cases x <;> rfl

@[simp] theorem intake_append (h k : List Obs) : intake (h ++ k) = intake h ++ intake k :=
  List.filterMap_append

@[simp] theorem output_append (h k : List Obs) : output (h ++ k) = output h ++ output k :=
  List.filterMap_append

@[simp] theorem actionsFor_append (tag : Tag) (l k : List Action) :
    actionsFor tag (l ++ k) = actionsFor tag l ++ actionsFor tag k := List.filter_append ..

@[simp] theorem eventsFor_append (tag : Tag) (l k : List Event) :
    eventsFor tag (l ++ k) = eventsFor tag l ++ eventsFor tag k := List.filter_append ..

theorem intake_shows (s : Scheduler) (action : Action) (event : Option Event) :
    intake (s.shows action event) = [action] := by
  rw [intake, s.shows_filterMap action event _ (fun _ _ => rfl) fun _ => rfl]
  cases event <;> rfl

theorem output_shows (s : Scheduler) (action : Action) (event : Option Event) :
    output (s.shows action event) = event.toList := by
  rw [output, s.shows_filterMap action event _ (fun _ _ => rfl) fun _ => rfl]
  cases event <;> rfl

theorem requeued_shows (s : Scheduler) (action : Action) (event : Option Event) :
    (s.shows action event).filterMap Obs.requeued? = [] := by
  rw [s.shows_filterMap action event _ (fun _ _ => rfl) fun _ => rfl]
  cases event <;> rfl

namespace Address

/-- Answer a sequence of actions, collecting the events. -/
def answer : Address → List Action → Address × List Event
  | c, [] => (c, [])
  | c, action :: actions =>
      let (c, event) := c.step action
      let (c, events) := c.answer actions
      (c, event.toList ++ events)

theorem answer_append (c : Address) (l k : List Action) :
    c.answer (l ++ k) =
      (((c.answer l).1.answer k).1, (c.answer l).2 ++ ((c.answer l).1.answer k).2) := by
  induction l generalizing c with
  | nil => rfl
  | cons action l ih => simp [answer, ih]

end Address

/-- A step of the event loop moves an address by the received action that names it. -/
theorem LoopMove.answer {phase phase' : Phase} {s s' : Scheduler} {label : LoopLabel}
    {seen : List Obs} (move : LoopMove phase s label phase' s' seen) (tag : Tag) :
    (s.address tag).answer (actionsFor tag (intake seen)) =
      (s'.address tag, eventsFor tag (output seen)) := by
  cases move with
  | @received action _ _ event _ _ arm _ =>
      rw [intake_shows, output_shows]
      by_cases named : action.tag? = some tag
      · have own := arm.address_self named
        have about : eventsFor tag event.toList = event.toList := by
          rw [eventsFor, List.filter_eq_self]
          intro e mem
          simpa using (arm.event_tag (Option.mem_toList.mp mem)).trans named
        simp [actionsFor, named, Address.answer, own, about]
      · obtain ⟨same, apart⟩ := arm.address_other named
        have silent : eventsFor tag event.toList = [] := by
          cases event <;> simp_all [eventsFor]
        simp [actionsFor, named, Address.answer, same, silent]
  | crashed | unsent | timeout | clock => rfl
  | release => rfl
  | tick => rfl

variable {config : SchedulerConfig} {name host : String} {start : Nat}
variable {s t : LoopState} {h k : List Obs}

/-- The scheduler refines the product of its addresses: along every run of the
event loop, each tag is where its own automaton puts it. -/
theorem loop_refines_addresses (run : (loopMachine config name host start).Reached s h)
    (tag : Tag) :
    Address.vacant.answer (actionsFor tag (intake h)) =
      (s.loop.scheduler.address tag, eventsFor tag (output h)) := by
  induction run with
  | start => rfl
  | step _ _ taken ih =>
      have move := (LoopState.step_move taken).answer tag
      simp [Address.answer_append, ih, move]

section Processing

/-- An entry whose turn has come can be popped. -/
theorem Scheduler.exists_top {s : Scheduler} {now : Nat} (ready : s.due now = true) :
    ∃ (index : Nat) (entry : Entry), s.tasks[index]? = some entry ∧ s.isTop entry = true := by
  simp only [due] at ready
  split at ready
  case h_2 => cases ready
  case h_1 entry found =>
    obtain ⟨index, bound, eq⟩ := List.mem_iff_getElem.mp (List.mem_of_find?_eq_some found)
    exact ⟨index, entry, by rw [List.getElem?_eq_getElem bound, eq], List.find?_some found⟩

/-- The release loop ends: every pop leaves one entry less. -/
theorem release_ends {now : Nat}
    (run : (loopMachine config name host start).Reached s h)
    (releasing : s.phase = .releasing now) :
    ∃ t k, (loopMachine config name host start).Reached t k ∧ t.phase = .releasing now ∧
      t.loop.scheduler.due now = false ∧ intake k = intake h := by
  generalize size : s.loop.scheduler.tasks.length = n
  induction n generalizing s h with
  | zero =>
      refine ⟨s, h, run, releasing, ?_, rfl⟩
      have empty := List.length_eq_zero_iff.mp size
      simp [Scheduler.due, Scheduler.peek, empty]
  | succ n ih =>
      by_cases due : s.loop.scheduler.due now = true
      · obtain ⟨index, entry, popped, top⟩ := Scheduler.exists_top due
        have taken : (loopMachine config name host start).step s (.release index) =
            some ({ s with loop := { s.loop with scheduler := { s.loop.scheduler with
              tasks := s.loop.scheduler.tasks.eraseIdx index } } }, [.released entry]) := by
          simp [loopMachine, LoopState.step, releasing, popped, due, top]
        have bound := (List.getElem?_eq_some_iff.mp popped).1
        obtain ⟨t, k, run', phase, done, same⟩ := ih (run.step trivial taken) releasing
          (by simp [List.length_eraseIdx_of_lt bound, size])
        exact ⟨t, k, run', phase, done, by simpa [Obs.received?] using same⟩
      · exact ⟨s, h, run, releasing, by simpa using due, rfl⟩

theorem Arm.config_eq {s s' : Scheduler} {action : Action} {event : Option Event} {flow : Flow}
    (arm : Arm s action s' event flow) : s'.config = s.config := by
  cases arm <;> rfl

theorem Arm.flow_ne_break {s s' : Scheduler} {action : Action} {event : Option Event}
    {flow : Flow} (arm : Arm s action s' event flow) (open' : action ≠ .shutdown) :
    flow = .next ∨ flow = .continue := by
  cases arm <;> simp_all

theorem LoopMove.config_eq {phase phase' : Phase} {s s' : Scheduler} {label : LoopLabel}
    {seen : List Obs} (move : LoopMove phase s label phase' s' seen) : s'.config = s.config := by
  cases move with
  | received _ arm => exact arm.config_eq
  | crashed | unsent | timeout | clock | release | tick => rfl

theorem loop_config (run : (loopMachine config name host start).Reached s h) :
    s.loop.scheduler.config = config := by
  induction run with
  | start => rfl
  | step _ _ taken ih => rw [(LoopState.step_move taken).config_eq, ih]

/-- The rest of an iteration brings the loop back to its head. -/
theorem iteration_ends (eager : config.eagerShutdownEnabled = false)
    (run : (loopMachine config name host start).Reached s h) (reading : s.phase = .reading) :
    ∃ t k, (loopMachine config name host start).Reached t k ∧ t.phase = .receiving ∧
      intake k = intake h := by
  have clock : (loopMachine config name host start).step s (.clock 0) = some ({ s with
      phase := .releasing (s.loop.scheduler.config.delayPrecision / 2) }, []) := by
    simp [loopMachine, LoopState.step, reading]
  obtain ⟨t, k, run', phase, done, same⟩ := release_ends (run.step trivial clock) rfl
  have open' : (t.loop.tick 0 0).1.quits = false := by
    simp [EventLoop.quits, loop_config run', eager]
  have tick : (loopMachine config name host start).step t (.tick 0 0) =
      some (⟨.receiving, (t.loop.tick 0 0).1⟩, [.ticked (t.loop.tick 0 0).2]) := by
    simp [loopMachine, LoopState.step, phase, done, open']
  exact ⟨_, _, run'.step trivial tick, rfl, by simpa [Obs.received?] using same⟩

/-- Without eager shutdown, every sequence of actions without a shutdown is
processed to its end. -/
theorem loop_processes (name host : String) (start : Nat)
    (eager : config.eagerShutdownEnabled = false) (actions : List Action)
    (open' : Action.shutdown ∉ actions) :
    ∃ s h, (loopMachine config name host start).Reached s h ∧ s.phase = .receiving ∧
      intake h = actions := by
  induction actions using List.reverseRecOn with
  | nil => exact ⟨_, _, .start, rfl, rfl⟩
  | append_singleton actions action ih =>
      obtain ⟨s, h, run, at_head, processed⟩ := ih fun mem => open' (by simp [mem])
      have other : action ≠ .shutdown := fun eq => open' (by simp [eq])
      obtain ⟨r, handled⟩ := Option.isSome_iff_exists.mp
        (EventLoop.handle_isSome (l := s.loop.hit) (loop_wellFormed run) action)
      have taken : (loopMachine config name host start).step s (.receive action true) =
          some (⟨r.flow.phase, r.loop⟩, s.loop.scheduler.shows action r.event) := by
        simp [loopMachine, LoopState.step, at_head, handled]
      have run' := run.step trivial taken
      have intake' : intake (h ++ s.loop.scheduler.shows action r.event) = actions ++ [action] := by
        rw [intake_append, intake_shows, processed]
      obtain next | again := (EventLoop.handle_arm handled).flow_ne_break other
      · obtain ⟨t, k, run'', phase, same⟩ :=
          iteration_ends eager run' (by rw [next]; rfl)
        exact ⟨t, k, run'', phase, same.trans intake'⟩
      · exact ⟨_, _, run', by rw [again]; rfl, intake'⟩

end Processing

/-- **Isolation of addresses.** Two finite sequences of actions without a shutdown
that agree on the actions naming `tag` can both be processed, and however they are
processed, they leave `tag` with the same membership in `active`, the same idle
instance and the same mailbox, and send the same events about it. -/
theorem addresses_isolated (eager : config.eagerShutdownEnabled = false) (tag : Tag)
    {as bs : List Action} (noShutdown : Action.shutdown ∉ as) (noShutdown' : Action.shutdown ∉ bs)
    (same : actionsFor tag as = actionsFor tag bs) :
    (∃ s h, (loopMachine config name host start).Reached s h ∧ intake h = as) ∧
    (∃ t k, (loopMachine config name host start).Reached t k ∧ intake k = bs) ∧
    ∀ {s h t k}, (loopMachine config name host start).Reached s h → intake h = as →
      (loopMachine config name host start).Reached t k → intake k = bs →
      (tag ∈ s.loop.scheduler.active ↔ tag ∈ t.loop.scheduler.active) ∧
        s.loop.scheduler.actors tag = t.loop.scheduler.actors tag ∧
        s.loop.scheduler.queue tag = t.loop.scheduler.queue tag ∧
        eventsFor tag (output h) = eventsFor tag (output k) := by
  obtain ⟨s, h, run_s, _, processed_s⟩ :=
    loop_processes name host start eager as noShutdown
  obtain ⟨t, k, run_t, _, processed_t⟩ :=
    loop_processes name host start eager bs noShutdown'
  refine ⟨⟨s, h, run_s, processed_s⟩, ⟨t, k, run_t, processed_t⟩, ?_⟩
  intro s h t k run_s rfl run_t rfl
  have left := loop_refines_addresses run_s tag
  have right := loop_refines_addresses run_t tag
  rw [same, right, Prod.mk.injEq] at left
  obtain ⟨address, events⟩ := left
  refine ⟨?_, ?_, ?_, events.symm⟩
  · rw [← Scheduler.address_active, ← Scheduler.address_active, address]
  · exact congrArg Address.idle address.symm
  · exact congrArg Address.queue address.symm

/-- Traffic for `b`, its stop and a failed return of its instance, around two actions
for `a`. -/
def crowded : List Action :=
  [.spawn "b" ⟨1⟩, .spawn "a" ⟨0⟩, .queue "b" (.of (.other 1)), .stop "b",
    .queue "a" (.of (.other 2)), .return "b" ⟨1⟩ false]

theorem addresses_isolated_crowded :
    ∃ s h t k, (loopMachine { SchedulerConfig.default with eagerShutdownEnabled := false }
        "app" "host" 0).Reached s h ∧ intake h = crowded ∧
      (loopMachine { SchedulerConfig.default with eagerShutdownEnabled := false }
        "app" "host" 0).Reached t k ∧
      intake k = [.spawn "a" ⟨0⟩, .queue "a" (.of (.other 2))] ∧
      s.loop.scheduler.actors "a" = t.loop.scheduler.actors "a" ∧
      eventsFor "a" (output h) = eventsFor "a" (output k) := by
  obtain ⟨⟨s, h, run_s, processed_s⟩, ⟨t, k, run_t, processed_t⟩, agree⟩ :=
    @addresses_isolated { SchedulerConfig.default with eagerShutdownEnabled := false }
      "app" "host" 0 rfl "a" crowded [.spawn "a" ⟨0⟩, .queue "a" (.of (.other 2))]
      (by decide) (by decide) (by decide)
  obtain ⟨_, actors, _, events⟩ := agree run_s processed_s run_t processed_t
  exact ⟨s, h, t, k, run_s, processed_s, run_t, processed_t, actors, events⟩

end Uppercut
