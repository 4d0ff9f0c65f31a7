import Uppercut.Core.Isolation
import Uppercut.Core.Runtime

/-!
# What holds in every run of the runtime

The event loop inside the runtime is the event loop on its own: `runtime_loop` maps
runs to runs, so everything proved about `loopMachine` holds here. The other facts
are about the frame: how many threads there are, when the job can be past its loop,
and that the events channel is a queue.
-/

namespace Uppercut

/-- What an observation shows of `event_loop`. Its caller sends the shutdown events. -/
def Obs.ofLoop : Obs → Option Obs
  | .emitted .shutdown => none
  | .received action => some (.received action)
  | .spawned tag actor => some (.spawned tag actor)
  | .stopped tag => some (.stopped tag)
  | .emitted event => some (.emitted event)
  | .released entry => some (.released entry)
  | .ticked reports => some (.ticked reports)
  | _ => none

def Obs.taken? : Obs → Option Event
  | .taken _ event => some event
  | _ => none

/-- What an observation shows of the loop of worker `i`. -/
def Obs.of (i : Nat) : Obs → Bool
  | .taken index _ | .called index _ _ _ | .ended index _ _ _ _ | .returned index _ _ _
  | .flushed index _ | .handled index _ => index = i
  | _ => false

/-- The events that workers have taken. -/
def intakeEvents (h : List Obs) : List Event := h.filterMap Obs.taken?

@[simp] theorem intakeEvents_append (h k : List Obs) :
    intakeEvents (h ++ k) = intakeEvents h ++ intakeEvents k := List.filterMap_append

/-- The caller of the event loop receives nothing. -/
theorem intake_ofLoop (h : List Obs) : intake (h.filterMap Obs.ofLoop) = intake h := by
  rw [intake, List.filterMap_filterMap, intake]
  apply List.filterMap_congr
  intro x _
  cases x with
  | emitted event => cases event <;> rfl
  | _ => rfl

theorem Arm.event_ne_shutdown {s s' : Scheduler} {action : Action} {event : Option Event}
    {flow : Flow} (arm : Arm s action s' event flow) : event ≠ some .shutdown := by
  cases arm <;> simp

namespace LoopMove

variable {phase phase' : Phase} {s s' : Scheduler} {label : LoopLabel} {seen : List Obs}

theorem running (move : LoopMove phase s label phase' s' seen) : phase.running = true := by
  cases move with
  | crashed at_head | unsent at_head | received at_head | timeout at_head => rw [at_head]; rfl
  | clock reading => rw [reading]; rfl
  | release releasing | tick _ _ releasing => rw [releasing]; rfl

theorem not_exited (move : LoopMove phase s label phase' s' seen) : phase ≠ .exited := by
  rintro rfl
  cases move.running

theorem seen_ofLoop (move : LoopMove phase s label phase' s' seen) :
    seen.filterMap Obs.ofLoop = seen := by
  cases move with
  | @received action _ _ event _ _ arm _ =>
      have accepts : (s.accepts action).filterMap Obs.ofLoop = s.accepts action := by
        cases action <;> simp only [Scheduler.accepts] <;> first | rfl | split <;> rfl
      cases event with
      | none => simp [Obs.ofLoop, accepts]
      | some event =>
          cases event with
          | shutdown => exact absurd rfl arm.event_ne_shutdown
          | mail | stop => simp [Obs.ofLoop, accepts]
  | crashed | unsent | timeout | clock => rfl
  | release => rfl
  | tick => rfl

theorem shown (move : LoopMove phase s label phase' s' seen) (x : Obs) (mem : x ∈ seen) :
    Obs.ofLoop x ≠ none := by
  have all := List.filterMap_length_eq_length.mp (congrArg List.length move.seen_ofLoop) x mem
  exact Option.isSome_iff_ne_none.mp all

/-- The event loop panics only when an event has nowhere to go. -/
theorem panics (move : LoopMove phase s label phase' s' seen) (wf : s.WellFormed)
    (panicked : phase' = .panicked) :
    seen = [] ∧ s' = s ∧ ∃ action, label = .receive action false := by
  cases move with
  | crashed _ l same failed =>
      have handled := EventLoop.handle_isSome (l := l) (same ▸ wf) ‹_›
      simp [failed] at handled
  | unsent => exact ⟨rfl, rfl, _, rfl⟩
  | @received _ _ _ _ flow => cases flow <;> cases panicked
  | timeout | clock => cases panicked
  | release releasing => cases releasing.symm.trans panicked
  | tick => split at panicked <;> cases panicked

/-- An event is sent only while somebody can receive it. -/
theorem sends (move : LoopMove phase s label phase' s' seen) (sent : output seen ≠ []) :
    ∃ action, label = .receive action true := by
  cases move with
  | @received action connected _ event _ _ arm connects =>
      rw [output_shows] at sent
      cases event with
      | none => exact absurd rfl sent
      | some event => exact ⟨action, by rw [connects rfl]⟩
  | crashed | unsent | timeout | clock => exact absurd rfl sent
  | release => exact absurd rfl sent
  | tick => exact absurd rfl sent

theorem no_shutdown (move : LoopMove phase s label phase' s' seen) :
    Event.shutdown ∉ output seen := by
  cases move with
  | received _ arm =>
      rw [output_shows, Option.mem_toList]
      exact arm.event_ne_shutdown
  | crashed | unsent | timeout | clock => exact List.not_mem_nil
  | release => exact List.not_mem_nil
  | tick => exact List.not_mem_nil

theorem not_taken (move : LoopMove phase s label phase' s' seen) : intakeEvents seen = [] := by
  cases move with
  | @received action _ _ event =>
      rw [intakeEvents, s.shows_filterMap action event _ (fun _ _ => rfl) fun _ => rfl]
      cases event <;> rfl
  | crashed | unsent | timeout | clock => rfl
  | release => rfl
  | tick => rfl

end LoopMove

/-- What a worker loop shows is not about the event loop. -/
theorem Worker.Move.seen_ofLoop {index : Nat} {connected : Bool} {w w' : Worker}
    {label : WorkerLabel} {input : Option Event} {output : Option Action} {seen : List Obs}
    (move : w.Move index connected label input w' output seen) :
    seen.filterMap Obs.ofLoop = [] := by
  cases move <;> rfl

/-- Only a loop that has not ended makes a step. -/
theorem Worker.Move.running {index : Nat} {connected : Bool} {w w' : Worker}
    {label : WorkerLabel} {input : Option Event} {output : Option Action} {seen : List Obs}
    (move : w.Move index connected label input w' output seen) : w.stage.running = true := by
  cases move <;> rfl

theorem Worker.Move.takes {index : Nat} {connected : Bool} {w w' : Worker}
    {label : WorkerLabel} {input : Option Event} {output' : Option Action} {seen : List Obs}
    (move : w.Move index connected label input w' output' seen) :
    intakeEvents seen = input.toList ∧ output seen = [] := by
  cases move <;> exact ⟨rfl, rfl⟩

/-- A worker loop shows only what it does itself. -/
theorem Worker.Move.shows {index : Nat} {connected : Bool} {w w' : Worker}
    {label : WorkerLabel} {input : Option Event} {output : Option Action} {seen : List Obs}
    (move : w.Move index connected label input w' output seen) {i : Nat} (other : index ≠ i) :
    ∀ x ∈ seen, x.of i = false := by
  cases move <;> simp [Obs.of, other]

section Record

variable (index : Nat) (tag : Tag) (actor : Actor) (now : Nat) (call : Call)

theorem recordObs_ofLoop :
    (Runtime.recordObs index tag actor now call).filterMap Obs.ofLoop = [] := by
  cases call <;> rfl

theorem recordObs_of (i : Nat) : ∀ x ∈ Runtime.recordObs index tag actor now call,
    x.of i = false := by
  cases call <;> simp [Runtime.recordObs, Obs.of]

theorem recordObs_channel : intakeEvents (Runtime.recordObs index tag actor now call) = [] ∧
    output (Runtime.recordObs index tag actor now call) = [] := by
  cases call <;> exact ⟨rfl, rfl⟩

end Record

theorem Runtime.exited_of_closing (s : Runtime) (closing : s.closing = true) :
    s.loop.phase = .exited := by
  simp only [Runtime.closing, Bool.and_eq_true, decide_eq_true_eq] at closing
  exact closing.1

/-- The frame around the loops. -/
structure Runtime.Sound (s : Runtime) : Prop where
  wellFormed : s.scheduler.WellFormed
  threads : s.workers.length = s.threadCount
  bounded : s.shutdowns ≤ s.threadCount
  early : s.loop.phase ≠ .exited → s.shutdowns = 0 ∧ s.job = .running
  quiet : s.loop.phase ≠ .exited → Event.shutdown ∉ s.events

namespace Transition

variable {s t : Runtime} {label : Label} {seen : List Obs}

theorem sound (transition : Transition s label t seen) (sound : s.Sound) : t.Sound := by
  obtain ⟨wellFormed, threads, bounded, early, quiet⟩ := sound
  cases transition with
  | posted | unposted | dropped | drained => exact ⟨wellFormed, threads, bounded, early, quiet⟩
  | recorded => exact ⟨wellFormed, List.length_set.trans threads, bounded, early, quiet⟩
  | @worker _ _ _ input events _ _ _ _ _ popped =>
      refine ⟨wellFormed, List.length_set.trans threads, bounded, early, fun looping mem => ?_⟩
      have kept : Event.shutdown ∈ events := by
        simp only at mem
        split at mem
        · exact mem
        · exact absurd mem List.not_mem_nil
      exact quiet looping (popped ▸ List.mem_append_right _ kept)
  | loop _ taken =>
      have move := LoopState.step_move taken
      have same := congrArg SchedulerConfig.actorWorkerThreads move.config_eq
      refine ⟨move.wellFormed wellFormed, threads.trans same.symm, bounded.trans_eq same.symm,
        fun _ => early move.not_exited, fun _ mem => ?_⟩
      obtain old | new := List.mem_append.mp mem
      · exact quiet move.not_exited old
      · exact move.no_shutdown new
  | crashed _ taken =>
      have move := LoopState.step_move taken
      have same := congrArg SchedulerConfig.actorWorkerThreads move.config_eq
      exact ⟨move.wellFormed wellFormed, threads.trans same.symm, bounded.trans_eq same.symm,
        fun _ => early move.not_exited, fun _ => quiet move.not_exited⟩
  | announced closing left =>
      have exited := s.exited_of_closing closing
      exact ⟨wellFormed, threads, left, fun looping => absurd exited looping,
        fun looping => absurd exited looping⟩
  | unannounced closing | finished closing =>
      have exited := s.exited_of_closing closing
      exact ⟨wellFormed, threads, bounded, fun looping => absurd exited looping,
        fun looping => absurd exited looping⟩

/-- What is taken was the head of the channel, and what is shown as sent was put behind
it; a channel without receivers loses the rest. -/
theorem events (transition : Transition s label t seen) (sound : s.Sound) :
    ∃ rest, s.events ++ output seen = intakeEvents seen ++ rest ∧
      (t.events = rest ∨ t.events = [] ∧ t.eventsConnected = false) := by
  cases transition with
  | posted | unposted | dropped | drained | unannounced | finished =>
      exact ⟨s.events, List.append_nil _, .inl rfl⟩
  | @recorded index call now w tag actor =>
      obtain ⟨taken, sent⟩ := recordObs_channel index tag actor now call
      exact ⟨s.events, by simp [taken, sent], .inl rfl⟩
  | @worker index label w input events w' _ seen _ move popped =>
      obtain ⟨taken, sent⟩ := move.takes
      refine ⟨events, by simp [taken, sent, popped], ?_⟩
      simp only [Runtime.eventsConnected]
      split
      case isTrue => exact .inl rfl
      case isFalse gone => exact .inr ⟨rfl, by simpa using gone⟩
  | loop _ taken =>
      refine ⟨s.events ++ output seen, ?_, .inl rfl⟩
      rw [(LoopState.step_move taken).not_taken, List.nil_append]
  | crashed _ taken panicked =>
      obtain ⟨rfl, _⟩ := (LoopState.step_move taken).panics sound.wellFormed panicked
      exact ⟨s.events, List.append_nil _, .inl rfl⟩
  | announced => exact ⟨s.events ++ [.shutdown], rfl, .inl rfl⟩

/-- A loop that was left is not entered again. -/
theorem running (transition : Transition s label t seen) (running : t.loop.phase.running = true) :
    s.loop.phase.running = true := by
  cases transition with
  | posted | unposted | dropped | recorded | worker | announced | unannounced | drained
  | finished => exact running
  | loop _ taken | crashed _ taken => exact (LoopState.step_move taken).running

/-- A worker after a step of worker `index`. -/
theorem set_cases {workers : List Worker} {index i : Nat} {w v w' : Worker}
    (known : workers[index]? = some w) (here : (workers.set index v)[i]? = some w') :
    index = i ∧ w' = v ∨ index ≠ i ∧ workers[i]? = some w' := by
  by_cases own : index = i
  · subst own
    rw [List.getElem?_set_self (List.getElem?_eq_some_iff.mp known).1] at here
    exact .inl ⟨rfl, (Option.some.inj here).symm⟩
  · rw [List.getElem?_set_ne own] at here
    exact .inr ⟨own, here⟩

/-- Seen from worker `i`, a step is its own move, or it leaves the worker's stage alone and
shows nothing of it. -/
theorem party (transition : Transition s label t seen) {i : Nat} {w' : Worker}
    (here : t.workers[i]? = some w') :
    (∃ w, s.workers[i]? = some w ∧ w.stage = w'.stage ∧ ∀ x ∈ seen, x.of i = false) ∨
    ∃ w wl input output events, s.workers[i]? = some w ∧ label = .worker i wl ∧
      w.Move i s.actionsConnected wl input w' output seen ∧
      s.events = input.toList ++ events ∧
      (wl = .hangUp → s.events = [] ∧ s.actionsConnected = false) := by
  cases transition with
  | posted | unposted | dropped | announced | unannounced | drained | finished =>
      exact .inl ⟨w', here, rfl, by simp [Obs.of]⟩
  | @recorded index call now w tag actor _ sender known =>
      left
      obtain ⟨rfl, rfl⟩ | ⟨_, kept⟩ := set_cases known here
      · exact ⟨w, known, rfl, recordObs_of index tag actor now call _⟩
      · exact ⟨w', kept, rfl, recordObs_of index tag actor now call _⟩
  | @worker index wl w input events v output seen known move popped hung =>
      obtain ⟨rfl, rfl⟩ | ⟨other, kept⟩ := set_cases known here
      · exact .inr ⟨w, wl, input, output, events, known, rfl, move, popped, hung⟩
      · exact .inl ⟨w', kept, rfl, move.shows other⟩
  | loop _ taken | crashed _ taken =>
      refine .inl ⟨w', here, rfl, fun x mem => ?_⟩
      have shown := (LoopState.step_move taken).shown x mem
      cases x <;> first | rfl | exact absurd rfl shown

/-- A worker that makes a step keeps the events channel connected until then. -/
theorem connected_of_known {index : Nat} {w : Worker} (known : s.workers[index]? = some w)
    (running : w.stage.running = true) : s.eventsConnected = true :=
  List.any_eq_true.mpr ⟨w, List.mem_of_getElem? known, running⟩

/-- Without receivers nothing is sent and nothing is taken. -/
theorem gone (transition : Transition s label t seen) (sound : s.Sound)
    (gone : s.eventsConnected = false) :
    output seen = [] ∧ intakeEvents seen = [] ∧ t.eventsConnected = false ∧
      (s.events = [] → t.events = []) := by
  cases transition with
  | posted | unposted | dropped | drained | unannounced | finished =>
      exact ⟨rfl, rfl, gone, id⟩
  | recorded known busy =>
      have running : _ = true := Stage.running_of_callback busy
      exact absurd (connected_of_known known running) (by simp [gone])
  | worker known move => exact absurd (connected_of_known known move.running) (by simp [gone])
  | @loop label _ seen offered taken =>
      have move := LoopState.step_move taken
      have silent : output seen = [] := by
        by_contra sent
        obtain ⟨action, rfl⟩ := move.sends sent
        simp [Runtime.offers, gone] at offered
      refine ⟨silent, move.not_taken, gone, fun empty => ?_⟩
      change s.events ++ output seen = []
      rw [empty, silent, List.append_nil]
  | crashed _ taken panicked =>
      obtain ⟨rfl, _⟩ := (LoopState.step_move taken).panics sound.wellFormed panicked
      exact ⟨rfl, rfl, gone, id⟩
  | announced _ _ connects => exact absurd connects (by simp [gone])

end Transition

/-- While the event loop runs, its job receives actions. -/
theorem Runtime.Sound.connected {s : Runtime} (sound : s.Sound)
    (running : s.loop.phase.running = true) : s.actionsConnected = true := by
  have looping : s.loop.phase ≠ .exited := fun exited => by simp [exited, Phase.running] at running
  have alive : s.loop.phase ≠ .panicked := fun ceased => by simp [ceased, Phase.running] at running
  simp [actionsConnected, alive, (sound.early looping).2]

/-- While the event loop runs, no worker takes a shutdown. -/
theorem Runtime.Sound.untaken {s : Runtime} (sound : s.Sound)
    (running : s.loop.phase.running = true) {input : Option Event} {events : List Event}
    (popped : s.events = input.toList ++ events) : input ≠ some .shutdown := by
  rintro rfl
  refine sound.quiet ?_ (popped ▸ List.mem_append_left _ (List.mem_singleton_self _))
  intro exited
  simp [exited, Phase.running] at running

section Steady

variable {s : Runtime} {index : Nat} {label : WorkerLabel} {w w' : Worker} {input : Option Event}
variable {output : Option Action} {seen : List Obs}

/-- While the action channel is open and no callback unwinds the loop, a worker loop ends
by a shutdown event only. -/
theorem Worker.Move.steady (move : w.Move index s.actionsConnected label input w' output seen)
    (known : s.workers[index]? = some w) (kept : s.unwinds (.worker index label) = none)
    (hung : label = .hangUp → s.events = [] ∧ s.actionsConnected = false)
    (connects : s.actionsConnected = true) :
    w'.stage ≠ .panicked ∧ (w'.stage = .exited → input = some .shutdown) := by
  cases move with
  | lost | crashed => simp [Runtime.unwinds, known, Stage.callback?] at kept
  | abandoned closed | unflushed closed => simp [connects] at closed
  | hungUp => simp [connects] at hung
  | dismissed => exact ⟨by simp, fun _ => rfl⟩
  | received | stopped | finished | failed | recovered | released | returned | flushed | rested =>
      exact ⟨by simp, by simp⟩

/-- Such a loop goes on unless it takes a shutdown. -/
theorem Worker.Move.stays (move : w.Move index s.actionsConnected label input w' output seen)
    (known : s.workers[index]? = some w) (kept : s.unwinds (.worker index label) = none)
    (hung : label = .hangUp → s.events = [] ∧ s.actionsConnected = false)
    (connects : s.actionsConnected = true) (stays : input ≠ some .shutdown) :
    w'.stage.running = true := by
  obtain ⟨unwound, ends⟩ := move.steady known kept hung connects
  cases stage : w'.stage with
  | exited => exact absurd (ends stage) stays
  | panicked => exact absurd stage unwound
  | waiting | receiving | failing | returning | stopping | draining => rfl

end Steady

variable {config : SchedulerConfig} {name host : String} {start : Nat}
variable {allowed : Runtime → List Obs → Label → Prop} {s : Runtime} {h : List Obs}

/-- The runtime runs the event loop, under what its side condition says of the loop's steps. -/
theorem runtime_loop_run {allowed' : LoopState → List Obs → LoopLabel → Prop}
    (met : ∀ s h label, allowed s h (.loop label) →
      allowed' s.loop (h.filterMap Obs.ofLoop) label)
    (run : (runtimeMachine config name host start).Run allowed s h) :
    (loopMachine config name host start).Run allowed' s.loop (h.filterMap Obs.ofLoop) := by
  refine run.simulate Runtime.loop Obs.ofLoop rfl fun _ permitted taken => ?_
  cases Runtime.step_transition taken with
  | posted | unposted | dropped | announced | unannounced | drained | finished =>
      exact .inl ⟨rfl, rfl⟩
  | recorded => exact .inl ⟨rfl, recordObs_ofLoop ..⟩
  | worker _ move => exact .inl ⟨rfl, move.seen_ofLoop⟩
  | loop _ went | crashed _ went =>
      refine .inr ⟨_, met _ _ _ permitted, ?_⟩
      rw [(LoopState.step_move went).seen_ofLoop]
      exact went

/-- The runtime runs the event loop of `loopMachine`. -/
theorem runtime_loop (run : (runtimeMachine config name host start).Run allowed s h) :
    (loopMachine config name host start).Reached s.loop (h.filterMap Obs.ofLoop) :=
  runtime_loop_run (fun _ _ _ _ => trivial) run

theorem runtime_sound (run : (runtimeMachine config name host start).Run allowed s h) :
    s.Sound := by
  induction run with
  | start =>
      exact ⟨Scheduler.wellFormed_withConfig config, List.length_replicate, Nat.zero_le _,
        fun _ => ⟨rfl, rfl⟩, fun _ => List.not_mem_nil⟩
  | step _ _ taken ih => exact (Runtime.step_transition taken).sound ih

/-- The events channel is a queue: workers take events in the order in which they were
sent, and only a channel without receivers loses some. -/
theorem runtime_events (run : (runtimeMachine config name host start).Run allowed s h) :
    ∃ rest, output h = intakeEvents h ++ rest ∧
      (s.events = rest ∨ s.events = [] ∧ s.eventsConnected = false) := by
  induction run with
  | start => exact ⟨[], rfl, .inl rfl⟩
  | @step s t h label seen before _ taken ih =>
      obtain ⟨rest, past, kept⟩ := ih
      have transition := Runtime.step_transition taken
      obtain ⟨rest', law, kept'⟩ := transition.events (runtime_sound before)
      simp only [output_append, intakeEvents_append, past]
      obtain rfl | ⟨empty, gone⟩ := kept
      · exact ⟨rest', by rw [List.append_assoc, law, List.append_assoc], kept'⟩
      · obtain ⟨unsent, untaken, still, lost⟩ := transition.gone (runtime_sound before) gone
        exact ⟨rest, by simp [unsent, untaken], .inr ⟨lost empty, still⟩⟩

end Uppercut
