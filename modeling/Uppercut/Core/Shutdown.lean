import Uppercut.Core.Survival

/-!
# Shutdown is clean

When no callback unwinds a worker loop, every loop ends by the shutdown event that it
takes, so there are always as many loops left as shutdown events are still to be taken.
This is why none of them is sent to a closed channel, and why the loops that end early
leave one for everybody else. The job drains the action channel until the last loop
has ended, so no send of an action fails.
-/

namespace Uppercut

namespace Obs

/-- The event that worker `i` takes. -/
def takes? (i : Nat) : Obs → Option Event
  | .taken index event => if index = i then some event else none
  | _ => none

/-- The event that worker `i` has handled. -/
def handles? (i : Nat) : Obs → Option Event
  | .handled index event => if index = i then some event else none
  | _ => none

end Obs

/-- The event that a worker has taken and not handled. -/
def Stage.hand : Stage → Option Event
  | .waiting | .panicked => none
  | .receiving tag actor envelope | .failing tag actor envelope
  | .returning tag actor envelope _ => some (.mail tag actor envelope)
  | .stopping tag actor => some (.stop tag actor)
  | .draining event => some event
  | .exited => some .shutdown

/-- Neither `on_fail` nor `on_stop` panics. -/
def Runtime.Steady (s : Runtime) (_ : List Obs) (label : Label) : Prop :=
  s.unwinds label = none

instance (s : Runtime) (h : List Obs) (label : Label) : Decidable (s.Steady h label) :=
  inferInstanceAs (Decidable (_ = _))

/-- What a shutdown leaves behind, and how it gets there. -/
structure Runtime.ClosesDown (s : Runtime) (h : List Obs) : Prop where
  /-- Neither the event loop nor its job panics. -/
  loop : s.loop.phase ≠ .panicked
  job : s.job ≠ .panicked
  /-- No shutdown event is sent to a closed channel. -/
  announced : s.closing = true → s.shutdowns < s.threadCount → s.eventsConnected = true
  /-- A worker takes one shutdown event, and with it its loop ends. -/
  dismissed : ∀ i w, s.workers[i]? = some w →
    w.stage ≠ .panicked ∧ h.count (.taken i .shutdown) = if w.stage = .exited then 1 else 0
  /-- Once all shutdown events are sent, each loop that is left will find one. -/
  balanced : s.shutdowns = s.threadCount → s.events.count .shutdown = s.live
  /-- When all loops have ended, each event that was sent was taken once, and whoever took
  it has handled it. -/
  handled : s.live = 0 → s.events = [] ∧ intakeEvents h = output h ∧
    ∀ i < s.threadCount,
      h.filterMap (Obs.takes? i) = h.filterMap (Obs.handles? i) ++ [.shutdown]
  /-- No send of an action fails, and the next one of a worker or a thread will not. -/
  sent : ∀ action, Obs.unsent action ∉ h
  connected : s.handle = true ∨ s.eventsConnected = true → s.actionsConnected = true

variable {s t : Runtime} {label : Label} {h seen : List Obs}

section Move

variable {index : Nat} {connected : Bool} {w w' : Worker} {wl : WorkerLabel}
variable {input : Option Event} {output' : Option Action}

/-- A worker handles what it takes. -/
theorem Worker.Move.hands (move : w.Move index connected wl input w' output' seen)
    (unwound : w'.stage ≠ .panicked) (ends : w'.stage = .exited → input = some .shutdown) :
    w.stage.hand.toList ++ seen.filterMap (Obs.takes? index) =
      seen.filterMap (Obs.handles? index) ++ w'.stage.hand.toList := by
  cases move
  case lost | crashed | unflushed => exact absurd rfl unwound
  case abandoned | hungUp => cases ends rfl
  all_goals simp [Stage.hand, List.filterMap_cons, Obs.takes?, Obs.handles?]

theorem Worker.Move.dismisses (move : w.Move index connected wl input w' output' seen)
    (unwound : w'.stage ≠ .panicked) (ends : w'.stage = .exited → input = some .shutdown) :
    w.stage ≠ .exited ∧
      seen.count (.taken index .shutdown) = if w'.stage = .exited then 1 else 0 := by
  cases move
  case lost | crashed | unflushed => exact absurd rfl unwound
  case abandoned | hungUp => cases ends rfl
  all_goals simp

/-- A loop ends for each shutdown event that is taken. -/
theorem Worker.Move.dismissal (move : w.Move index connected wl input w' output' seen)
    (unwound : w'.stage ≠ .panicked) (ends : w'.stage = .exited → input = some .shutdown) :
    (intakeEvents seen).count .shutdown + w'.stage.running.toNat = w.stage.running.toNat := by
  cases move
  case lost | crashed | unflushed => exact absurd rfl unwound
  case abandoned | hungUp => cases ends rfl
  all_goals rfl

theorem Worker.Move.sends (move : w.Move index connected wl input w' output' seen)
    (unwound : w'.stage ≠ .panicked) (ends : w'.stage = .exited → input = some .shutdown)
    (action : Action) : Obs.unsent action ∉ seen := by
  cases move
  case lost | crashed | unflushed => exact absurd rfl unwound
  case abandoned | hungUp => cases ends rfl
  all_goals simp

end Move

theorem Obs.hands_of {i : Nat} {x : Obs} (other : x.of i = false) :
    x.takes? i = none ∧ x.handles? i = none := by
  cases x with
  | taken | handled => simp_all [of, takes?, handles?]
  | _ => exact ⟨rfl, rfl⟩

/-- The loops that end in a step are paid for by shutdown events. -/
theorem Transition.dismissals (transition : Transition s label t seen)
    (connects : s.eventsConnected = true → s.actionsConnected = true)
    (kept : s.unwinds label = none) :
    (intakeEvents seen).count .shutdown + t.live = s.live := by
  cases transition with
  | posted | unposted | dropped | announced | unannounced | drained | finished =>
      exact Nat.zero_add _
  | @recorded index call now w tag actor _ sender known busy =>
      have running := Stage.running_of_callback busy
      have count := live_set known { w with sender := sender }
      rw [(recordObs_channel ..).1]
      simp only [Runtime.live, List.count_nil, running, Bool.toNat_true] at count ⊢
      omega
  | worker known move popped hung =>
      have open' := connects (connected_of_known known move.running)
      obtain ⟨unwound, ends⟩ := move.steady known kept hung open'
      have paid := move.dismissal unwound ends
      have count := live_set known ‹_›
      simp only [Runtime.live]
      omega
  | loop _ taken | crashed _ taken =>
      rw [(LoopState.step_move taken).not_taken]
      exact Nat.zero_add _

/-- A send fails only when the action channel is closed for its sender. -/
theorem Transition.sends (transition : Transition s label t seen)
    (connects : s.handle = true ∨ s.eventsConnected = true → s.actionsConnected = true)
    (kept : s.unwinds label = none) (action : Action) : Obs.unsent action ∉ seen := by
  cases transition with
  | posted | dropped | announced | unannounced | drained | finished => simp
  | unposted calls closed =>
      have alive : s.handle = true ∨ s.eventsConnected = true := by
        cases calls with
        | thread handle | shutdown handle => exact .inl handle
        | actor known busy =>
            exact .inr (connected_of_known known (Stage.running_of_callback busy))
      simp [connects alive] at closed
  | @recorded index call now w tag actor => cases call <;> simp [Runtime.recordObs]
  | worker known move popped hung =>
      have open' := connects (.inr (connected_of_known known move.running))
      obtain ⟨unwound, ends⟩ := move.steady known kept hung open'
      exact move.sends unwound ends action
  | loop _ taken | crashed _ taken =>
      intro mem
      exact (LoopState.step_move taken).shown _ mem rfl

/-- The handle is gone when the job returns. -/
theorem Transition.released (transition : Transition s label t seen)
    (past : s.job = .returned → s.handle = false) (ceased : t.job = .returned) :
    t.handle = false := by
  cases transition with
  | posted _ _ kept | unposted _ _ kept =>
      have gone := past ceased
      exact Bool.eq_false_iff.mpr fun held => Bool.false_ne_true (gone.symm.trans (kept held))
  | dropped => rfl
  | finished _ _ _ alone => exact alone
  | unannounced => cases ceased
  | recorded | worker | loop | crashed | announced | drained => exact past ceased

variable {config : SchedulerConfig} {name host : String} {start : Nat}

/-- Each loop that has ended took a shutdown event. -/
theorem runtime_dismissals
    (run : (runtimeMachine config name host start).Run Runtime.Steady s h) :
    (intakeEvents h).count .shutdown + s.live = config.actorWorkerThreads := by
  induction run with
  | start =>
      simp [intakeEvents, Runtime.live, runtimeMachine, Runtime.start, List.countP_replicate,
        Worker.start, Stage.running]
  | step before kept taken ih =>
      have paid := (Runtime.step_transition taken).dismissals (runtime_connected before) kept
      rw [intakeEvents_append, List.count_append]
      omega

/-- As long as shutdown events are missing, some loop is left. -/
theorem runtime_attended
    (run : (runtimeMachine config name host start).Run Runtime.Steady s h)
    (missing : s.shutdowns < config.actorWorkerThreads) : s.eventsConnected = true := by
  rw [Runtime.eventsConnected_iff]
  have taken := runtime_dismissals run
  have sent := runtime_shutdowns run
  obtain ⟨rest, split, _⟩ := runtime_events run
  rw [split, List.count_append] at sent
  omega

theorem runtime_threadCount
    (run : (runtimeMachine config name host start).Run Runtime.Steady s h) :
    s.threadCount = config.actorWorkerThreads :=
  (runtime_sound run).threads.symm.trans (runtime_threads run)

/-- The job does not panic. -/
theorem runtime_job (run : (runtimeMachine config name host start).Run Runtime.Steady s h) :
    s.job ≠ .panicked ∧ (s.job = .returned → s.handle = false) := by
  induction run with
  | start => exact ⟨by simp [runtimeMachine, Runtime.start], fun ceased => by cases ceased⟩
  | @step s t h label seen before kept taken ih =>
      have transition := Runtime.step_transition taken
      refine ⟨?_, transition.released ih.2⟩
      cases transition with
      | unannounced _ left closed =>
          rw [runtime_threadCount before] at left
          simp [runtime_attended before left] at closed
      | finished => simp
      | posted | unposted | dropped | recorded | worker | loop | crashed | announced
      | drained => exact ih.1

/-- A worker takes one shutdown event, and with it its loop ends. -/
theorem runtime_dismissed
    (run : (runtimeMachine config name host start).Run Runtime.Steady s h) {i : Nat} {w : Worker}
    (here : s.workers[i]? = some w) :
    w.stage ≠ .panicked ∧ h.count (.taken i .shutdown) = if w.stage = .exited then 1 else 0 := by
  induction run generalizing w with
  | start =>
      obtain rfl := List.eq_of_mem_replicate (List.mem_of_getElem? here)
      exact ⟨by simp [Worker.start], rfl⟩
  | @step s t h label seen before kept taken ih =>
      rw [List.count_append]
      obtain ⟨v, known, same, silent⟩ | ⟨v, wl, input, output, events, known, rfl, move, _, hung⟩ :=
        (Runtime.step_transition taken).party here
      · have untaken : Obs.taken i .shutdown ∉ seen := by
          intro mem
          simpa [Obs.of] using silent _ mem
        rw [List.count_eq_zero.mpr untaken, ← same]
        exact ih known
      · have connects := runtime_connected before
          (Transition.connected_of_known known move.running)
        obtain ⟨unwound, ends⟩ := move.steady known kept hung connects
        obtain ⟨working, ended⟩ := move.dismisses unwound ends
        have past := (ih known).2
        rw [if_neg working] at past
        rw [past, ended, Nat.zero_add]
        exact ⟨unwound, rfl⟩

/-- A worker that took a shutdown event has handled all that it took before. -/
theorem runtime_hands (run : (runtimeMachine config name host start).Run Runtime.Steady s h)
    {i : Nat} {w : Worker} (here : s.workers[i]? = some w) :
    h.filterMap (Obs.takes? i) = h.filterMap (Obs.handles? i) ++ w.stage.hand.toList := by
  refine worker_ledger rfl (fun x other => Obs.hands_of other) ?_ run here
  intro s h w wl input w' output seen kept known connects move hung
  obtain ⟨unwound, ends⟩ := move.steady known kept hung connects
  exact move.hands unwound ends

section Threads

variable (threads : 0 < config.actorWorkerThreads)
include threads

theorem runtime_alive (run : (runtimeMachine config name host start).Run Runtime.Steady s h) :
    s.loop.phase ≠ .panicked := by
  intro panicked
  have early := (runtime_sound run).early (by simp [panicked])
  have attended := runtime_attended run (early.1 ▸ threads)
  simp [runtime_over run panicked] at attended

theorem runtime_open (run : (runtimeMachine config name host start).Run Runtime.Steady s h)
    (alive : s.handle = true ∨ s.eventsConnected = true) : s.actionsConnected = true := by
  obtain held | connects := alive
  · obtain ⟨unharmed, released⟩ := runtime_job run
    have job : s.job = .running := by
      cases job : s.job with
      | running => rfl
      | returned => simp [released job] at held
      | panicked => exact absurd job unharmed
    simp [Runtime.actionsConnected, runtime_alive threads run, job]
  · exact runtime_connected run connects

theorem runtime_sent (run : (runtimeMachine config name host start).Run Runtime.Steady s h)
    (action : Action) : Obs.unsent action ∉ h := by
  induction run with
  | start => exact List.not_mem_nil
  | step before kept taken ih =>
      intro mem
      obtain old | new := List.mem_append.mp mem
      · exact ih old
      · exact (Runtime.step_transition taken).sends (runtime_open threads before) kept action new

/-- When all loops have ended, whatever was sent was taken. -/
theorem runtime_all_taken
    (run : (runtimeMachine config name host start).Run Runtime.Steady s h) (ended : s.live = 0) :
    intakeEvents h = output h := by
  have taken := runtime_dismissals run
  have sent := runtime_shutdowns run
  have bounded := (runtime_sound run).bounded
  rw [runtime_threadCount run] at bounded
  obtain ⟨rest, split, _⟩ := runtime_events run
  rw [split, List.count_append] at sent
  have last : Event.shutdown ∈ intakeEvents h := List.count_pos_iff.mp (by omega)
  have only := shutdowns_behind run split last
  have none : Event.shutdown ∉ rest := List.count_eq_zero.mp (by omega)
  have empty : rest = [] := List.eq_nil_iff_forall_not_mem.mpr fun event mem =>
    none (only event mem ▸ mem)
  rw [split, empty, List.append_nil]

/-- **Clean shutdown.** With at least one worker thread, every run in which neither `on_fail`
nor `on_stop` panics closes down cleanly, whenever its event loop ends. -/
theorem shutdown_clean
    (run : (runtimeMachine config name host start).Run Runtime.Steady s h) : s.ClosesDown h where
  loop := runtime_alive threads run
  job := (runtime_job run).1
  announced _ missing := runtime_attended run (runtime_threadCount run ▸ missing)
  dismissed _ _ here := runtime_dismissed run here
  balanced all := by
    rw [runtime_threadCount run] at all
    have taken := runtime_dismissals run
    have sent := runtime_shutdowns run
    obtain ⟨rest, split, kept⟩ := runtime_events run
    rw [split, List.count_append] at sent
    obtain rfl | ⟨empty, gone⟩ := kept
    · omega
    · have ceased : ¬ 0 < s.live := by simp [← Runtime.eventsConnected_iff, gone]
      rw [empty, List.count_nil]
      omega
  handled ended := by
    have gone : s.eventsConnected = false := by
      rw [← Bool.not_eq_true, Runtime.eventsConnected_iff, ended]
      exact Nat.lt_irrefl 0
    refine ⟨runtime_emptied run gone, runtime_all_taken threads run ended, ?_⟩
    intro i bound
    rw [← (runtime_sound run).threads] at bound
    have here := List.getElem?_eq_getElem bound
    have ceased : s.workers[i].stage.running = false := by
      have all := List.countP_eq_zero.mp ended _ (List.getElem_mem bound)
      simpa using all
    have exited : s.workers[i].stage = .exited := by
      have unwound := (runtime_dismissed run here).1
      cases stage : s.workers[i].stage <;> simp_all [Stage.running]
    rw [runtime_hands run here, exited]
    rfl
  sent := runtime_sent threads run
  connected := runtime_open threads run

end Threads

/-- One worker handles a mail while the runtime shuts down. -/
def curfew : List Label :=
  [Label.call 0 (.spawn "a") 0] ++ turn (.spawn "a" ⟨0⟩) ++
  [Label.call 0 (.send "a" (.of (.other 7))) 0] ++ turn (.queue "a" (letter 1 7)) ++
  [Label.worker 0 .take, .shutdown 0, .loop (.receive .shutdown true), .sendShutdown,
    .worker 0 (.finish true), .worker 0 .advance, .drain, .worker 0 .advance, .worker 0 .take,
    .finish]

theorem shutdown_clean_curfew :
    ∃ s h, (runtimeMachine { SchedulerConfig.default with actorWorkerThreads := 1 } "app" "host"
        0).Run Runtime.Steady s h ∧ s.job = .returned ∧ intakeEvents h = output h ∧
      h.filterMap (Obs.takes? 0) = h.filterMap (Obs.handles? 0) ++ [.shutdown] := by
  have run := Machine.run_replay
    (runtimeMachine { SchedulerConfig.default with actorWorkerThreads := 1 } "app" "host" 0)
    Runtime.Steady curfew (by decide)
  obtain ⟨_, taken, handled⟩ := (shutdown_clean (by decide) run).handled (by decide)
  exact ⟨_, _, run, by decide, taken, handled 0 (by decide)⟩

end Uppercut
