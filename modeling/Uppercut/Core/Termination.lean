import Uppercut.Core.Deliveries

/-!
# A shutdown comes to its end

When the handle is used up by `shutdown`, the event loop ends at the shutdown action. Its job sends
one shutdown event for each worker loop, each loop ends with the one that it takes, and then the job
empties the action channel and returns. Each of these phases descends: in the events that are not
sent, in the loops that are left and in the actions that still wait.
-/

namespace Uppercut

section Step

variable {s t : Runtime} {label : Label} {seen : List Obs}

/-- A handle that is gone stays so. -/
theorem Transition.unhandled (transition : Transition s label t seen) (gone : s.handle = false) :
    t.handle = false := by
  cases transition with
  | posted _ _ kept | unposted _ _ kept =>
      exact Bool.eq_false_iff.mpr fun held => Bool.false_ne_true (gone.symm.trans (kept held))
  | dropped => rfl
  | recorded | worker | loop | crashed | announced | unannounced | drained | finished => exact gone

/-- Behind the event loop, only the job changes where it stands. -/
theorem Transition.aside (transition : Transition s label t seen)
    (ended : s.loop.phase = .exited) : t.loop = s.loop ∧
      (label.Closes ∨ t.job = s.job ∧ t.shutdowns = s.shutdowns) := by
  cases transition with
  | loop _ taken | crashed _ taken =>
      have running := (LoopState.step_move taken).running
      rw [ended] at running
      cases running
  | posted | unposted | dropped | recorded | worker => exact ⟨rfl, .inr ⟨rfl, rfl⟩⟩
  | announced | unannounced => exact ⟨rfl, .inl (.inl rfl)⟩
  | drained => exact ⟨rfl, .inl (.inr (.inl rfl))⟩
  | finished => exact ⟨rfl, .inl (.inr (.inr rfl))⟩

/-- While shutdown events are missing, the job sends the next one. -/
theorem Transition.announces (transition : Transition s label t seen) (closes : label.Closes)
    (missing : s.shutdowns < s.threadCount) (attended : s.eventsConnected = true) :
    t.shutdowns = s.shutdowns + 1 := by
  cases transition with
  | announced => rfl
  | unannounced _ _ closed => cases attended.symm.trans closed
  | drained _ sent | finished _ sent => omega
  | posted calls | unposted calls => obtain rfl | rfl | rfl := closes <;> cases calls
  | dropped | recorded | worker | loop | crashed => obtain h | h | h := closes <;> cases h

/-- All shutdown events are sent, no worker loop is left and no handle. -/
structure Runtime.Alone (s : Runtime) : Prop where
  ended : s.loop.phase = .exited
  announced : s.shutdowns = s.threadCount
  dismissed : s.eventsConnected = false
  released : s.handle = false

theorem Runtime.job_of_closing (closing : s.closing = true) : s.job = .running := by
  simp only [Runtime.closing, Bool.and_eq_true, decide_eq_true_eq] at closing
  exact closing.2

/-- What the job does when it is alone. -/
theorem Runtime.Alone.step (alone : s.Alone) (taken : s.step label = some (t, seen)) :
    label.Closes ∧ s.job = .running ∧ t.Alone ∧
      (t.job = .returned ∨ t.job = .running ∧ t.actions.length < s.actions.length) := by
  obtain ⟨ended, announced, dismissed, released⟩ := alone
  cases label with
  | call | shutdown | dropRun => simp [Runtime.step, released] at taken
  | worker =>
      have attended := (Runtime.step_transition taken).worker_running
      cases dismissed.symm.trans attended
  | loop =>
      have running := (Runtime.step_transition taken).loop_running
      rw [ended] at running
      cases running
  | sendShutdown => simp [Runtime.step, announced] at taken
  | drain =>
      simp only [Runtime.step] at taken
      split at taken
      case isFalse => cases taken
      case isTrue waits =>
        cases taken
        have job := job_of_closing waits.1
        refine ⟨.inr (.inl rfl), job, ⟨ended, announced, dismissed, released⟩, .inr ⟨job, ?_⟩⟩
        have some := List.length_pos_of_ne_nil waits.2.2
        simp only [List.length_tail]
        omega
  | finish =>
      simp only [Runtime.step] at taken
      split at taken
      case isFalse => cases taken
      case isTrue waits =>
        cases taken
        exact ⟨.inr (.inr rfl), job_of_closing waits.1, ⟨ended, announced, dismissed, released⟩,
          .inl rfl⟩

/-- The job can go on. -/
theorem Runtime.Alone.isSome (alone : s.Alone) (job : s.job = .running) :
    ∃ label, label.Closes ∧ (s.step label).isSome = true := by
  have closing : s.closing = true := by simp [Runtime.closing, alone.ended, job]
  cases actions : s.actions with
  | nil =>
      refine ⟨.finish, .inr (.inr rfl), ?_⟩
      simp [Runtime.step, closing, alone.announced, actions, alone.released, alone.dismissed]
  | cons =>
      refine ⟨.drain, .inr (.inl rfl), ?_⟩
      simp [Runtime.step, closing, alone.announced, actions]

end Step

variable {config : SchedulerConfig} {name host : String} {start : Nat}

/-- The job returns when nothing is left to do and nobody is left who could send. -/
theorem runtime_returned {allowed : Runtime → List Obs → Label → Prop} {s : Runtime} {h : List Obs}
    (run : (runtimeMachine config name host start).Run allowed s h) (done : s.job = .returned) :
    s.Alone ∧ s.actions = [] := by
  induction run with
  | start => cases done
  | @step s t h label seen _ _ taken ih =>
      have early : s.job ≠ .returned := fun already => by
        have running := ((ih already).1.step taken).2.1
        cases already.symm.trans running
      have transition := Runtime.step_transition taken
      cases transition with
      | finished closing sent empty alone gone =>
          simp only [Runtime.closing, Bool.and_eq_true, decide_eq_true_eq] at closing
          exact ⟨⟨closing.1, sent, gone, alone⟩, empty⟩
      | unannounced => cases done
      | posted | unposted | dropped | recorded | worker | loop | crashed | announced | drained =>
          exact absurd done early

variable {path : (runtimeMachine config name host start).Path}

/-- A handle that is gone stays so. -/
theorem runtime_released {n k : Nat} (later : n ≤ k) (gone : (path.state n).handle = false) :
    (path.state k).handle = false := by
  induction k, later using Nat.le_induction with
  | base => exact gone
  | succ k later ih =>
      obtain ⟨_, same, _⟩ | ⟨label, taken, transition⟩ := runtime_path_cases path k
      · rw [same]
        exact ih
      · exact transition.unhandled ih

section Paths

variable (fair : Runtime.Fair path) (meets : path.Meets Runtime.Steady)
variable (threads : 0 < config.actorWorkerThreads) {n : Nat}
include meets

theorem runtime_exited (threads : 0 < config.actorWorkerThreads) (ended : Runtime.Ended path n) :
    (path.state n).loop.phase = .exited := by
  have alive := runtime_alive threads (meets.run n)
  rw [Runtime.Ended] at ended
  cases phase : (path.state n).loop.phase with
  | exited => rfl
  | panicked => exact absurd phase alive
  | receiving | reading | releasing =>
      rw [phase] at ended
      cases ended

/-- Fewer and fewer loops are left. -/
theorem runtime_live_le {k : Nat} (later : n ≤ k) : (path.state k).live ≤ (path.state n).live := by
  induction k, later using Nat.le_induction with
  | base => exact Nat.le_refl _
  | succ k later ih =>
      obtain ⟨_, same, _⟩ | ⟨label, taken, transition⟩ := runtime_path_cases path k
      · rw [same]
        exact ih
      · have paid := transition.dismissals (runtime_connected (meets.run k)) (meets k label taken)
        omega

/-- While shutdown events are missing, the job goes on. -/
theorem runtime_closing (ended : (path.state n).loop.phase = .exited)
    (missing : (path.state n).shutdowns < (path.state n).threadCount) :
    (path.state n).closing = true ∧ (path.state n).eventsConnected = true := by
  have attended := runtime_attended (meets.run n) (runtime_threadCount (meets.run n) ▸ missing)
  have connects := runtime_connected (meets.run n) attended
  simp only [Runtime.actionsConnected, Bool.and_eq_true, decide_eq_true_eq] at connects
  exact ⟨by simp [Runtime.closing, ended, connects.2], attended⟩

/-- Once all shutdown events are sent, there is nothing more to send. -/
theorem runtime_announced (threads : 0 < config.actorWorkerThreads) {k : Nat} (later : n ≤ k)
    (ended : (path.state n).loop.phase = .exited)
    (sent : (path.state n).shutdowns = (path.state n).threadCount) :
    (path.state k).loop.phase = .exited ∧
      (path.state k).shutdowns = (path.state k).threadCount := by
  have past : Runtime.Ended path n := by rw [Runtime.Ended, ended]; rfl
  refine ⟨runtime_exited meets threads (past.mono later), ?_⟩
  have bounded := (runtime_sound (meets.run k)).bounded
  have grown : (output (path.history n)).count .shutdown ≤
      (output (path.history k)).count .shutdown :=
    ((path.history_mono later).sublist.filterMap _).count_le _
  rw [runtime_shutdowns (meets.run n), runtime_shutdowns (meets.run k), sent,
    runtime_threadCount (meets.run n)] at grown
  rw [runtime_threadCount (meets.run k)] at bounded ⊢
  exact Nat.le_antisymm bounded grown

include fair

/-- The job sends all shutdown events. -/
theorem Runtime.Fair.announces (ended : (path.state n).loop.phase = .exited) :
    ∃ k, n ≤ k ∧ (path.state k).loop.phase = .exited ∧
      (path.state k).shutdowns = (path.state k).threadCount := by
  induction left : (path.state n).threadCount - (path.state n).shutdowns
    using Nat.strong_induction_on generalizing n with
  | _ r ih =>
      by_cases missing : (path.state n).shutdowns < (path.state n).threadCount
      · have waits := fair.job.until (Q := fun _ => False)
          (P := fun m => (path.state m).loop = (path.state n).loop ∧
            (path.state m).shutdowns = (path.state n).shutdowns) ?_ ?_
        · obtain ⟨k, later, ⟨⟨same, sent⟩, label, closes, taken⟩ | none⟩ := waits n ⟨rfl, rfl⟩
          · have transition := Runtime.step_transition (path.moves taken)
            have still : (path.state k).loop.phase = .exited := same ▸ ended
            have missing' : (path.state k).shutdowns < (path.state k).threadCount := by
              rw [sent, Runtime.threadCount, Runtime.scheduler, same]
              exact missing
            have next :=
              transition.announces closes missing' (runtime_closing meets still missing').2
            have loop := (transition.aside still).1
            obtain ⟨l, last, done⟩ := ih _ (by
              rw [Runtime.threadCount, Runtime.scheduler, loop, same, next, sent]
              simp only [Runtime.threadCount, Runtime.scheduler] at left missing
              omega) (loop ▸ still) rfl
            exact ⟨l, later.trans (Nat.le_of_succ_le last), done⟩
          · exact none.elim
        · rintro m ⟨same, sent⟩ idle
          obtain ⟨_, still, _⟩ | ⟨label, taken, transition⟩ := runtime_path_cases path m
          · rw [still]
            exact .inl ⟨same, sent⟩
          · obtain ⟨loop, closes | ⟨_, kept⟩⟩ := transition.aside (same ▸ ended)
            · exact absurd ⟨label, closes, taken⟩ idle
            · exact .inl ⟨loop.trans same, kept.trans sent⟩
        · rintro m ⟨same, sent⟩
          have missing' : (path.state m).shutdowns < (path.state m).threadCount := by
            rw [sent, Runtime.threadCount, Runtime.scheduler, same]
            exact missing
          obtain ⟨closing, attended⟩ := runtime_closing meets (same ▸ ended) missing'
          refine ⟨.sendShutdown, .inl rfl, ?_⟩
          simp [runtimeMachine, Runtime.step, closing, missing', attended]
      · have bounded := (runtime_sound (meets.run n)).bounded
        exact ⟨n, Nat.le_refl n, ended, by omega⟩

/-- Each loop takes its shutdown event. -/
theorem Runtime.Fair.dismisses (threads : 0 < config.actorWorkerThreads)
    (ended : (path.state n).loop.phase = .exited)
    (sent : (path.state n).shutdowns = (path.state n).threadCount) :
    ∃ k, n ≤ k ∧ (path.state k).eventsConnected = false := by
  induction left : (path.state n).live using Nat.strong_induction_on generalizing n with
  | _ r ih =>
      cases attended : (path.state n).eventsConnected with
      | false => exact ⟨n, Nat.le_refl n, attended⟩
      | true =>
          have balanced := (shutdown_clean threads (meets.run n)).balanced sent
          have some : 0 < (path.state n).live := Runtime.eventsConnected_iff.mp attended
          have waits : Event.shutdown ∈ (path.state n).events :=
            List.count_pos_iff.mp (balanced ▸ some)
          obtain ⟨k, later, taken⟩ := fair.takes_events meets threads waits
          obtain ⟨_, _, silent⟩ | ⟨label, allowed, transition⟩ := runtime_path_cases path k
          · rw [silent] at taken
            cases taken
          · have paid := transition.dismissals (runtime_connected (meets.run k))
              (meets k label allowed)
            have one := List.count_pos_iff.mpr taken
            have fewer := runtime_live_le meets later
            obtain ⟨still, all⟩ :=
              runtime_announced meets threads (k := k + 1) (Nat.le_succ_of_le later) ended sent
            obtain ⟨l, last, done⟩ := ih _ (by omega) still all rfl
            exact ⟨l, later.trans (Nat.le_of_succ_le last), done⟩

/-- The job empties the action channel and returns. -/
theorem Runtime.Fair.returns (alone : (path.state n).Alone) :
    ∃ k, n ≤ k ∧ (path.state k).Alone ∧ (path.state k).job = .returned := by
  induction left : (path.state n).actions.length using Nat.strong_induction_on generalizing n with
  | _ r ih =>
      cases job : (path.state n).job with
      | panicked => exact absurd job (runtime_job (meets.run n)).1
      | returned => exact ⟨n, Nat.le_refl n, alone, job⟩
      | running =>
          have waits := fair.job.until (Q := fun _ => False)
            (P := fun m => path.state m = path.state n) ?_ ?_
          · obtain ⟨k, later, ⟨same, label, closes, taken⟩ | none⟩ := waits n rfl
            · obtain ⟨_, _, alone', returned | ⟨_, fewer⟩⟩ :=
                Runtime.Alone.step (same ▸ alone) (path.moves taken)
              · exact ⟨k + 1, Nat.le_succ_of_le later, alone', returned⟩
              · rw [same, left] at fewer
                obtain ⟨l, last, done⟩ := ih _ fewer alone' rfl
                exact ⟨l, later.trans (Nat.le_of_succ_le last), done⟩
            · exact none.elim
          · intro m same idle
            cases known : path.label m with
            | none => exact .inl ((path.waits known).1.trans same)
            | some label =>
                obtain ⟨closes, _⟩ := Runtime.Alone.step (same ▸ alone) (path.moves known)
                exact absurd ⟨label, closes, known⟩ idle
          · intro m same
            exact (show (path.state m).Alone from same ▸ alone).isSome (same ▸ job)

/-- Behind the event loop everything comes to its end, once the handle is gone. -/
theorem Runtime.Fair.winds_down (threads : 0 < config.actorWorkerThreads)
    (ended : Runtime.Ended path n) (released : (path.state n).handle = false) :
    ∃ k, n ≤ k ∧ (path.state k).Alone ∧ (path.state k).job = .returned := by
  obtain ⟨k, later, exited, sent⟩ := fair.announces meets (runtime_exited meets threads ended)
  obtain ⟨l, last, dismissed⟩ := fair.dismisses meets threads exited sent
  obtain ⟨exited, sent⟩ := runtime_announced meets threads last exited sent
  have alone : (path.state l).Alone :=
    ⟨exited, sent, dismissed, runtime_released (later.trans last) released⟩
  obtain ⟨m, after, done⟩ := fair.returns meets alone
  exact ⟨m, (later.trans last).trans after, done⟩

end Paths

/-- No call of an actor or a thread is a shutdown. -/
theorem Call.action_ne_shutdown {call : Call} {fresh now : Nat} :
    call.action fresh now ≠ some .shutdown := by
  cases call <;> simp [Call.action, sendAction, delayAction]

/-- The thread that sends the shutdown action gives the handle away. -/
theorem Runtime.shutdown_sent {s t : Runtime} {label : Label} {seen : List Obs} {sender : Sender}
    (taken : s.step label = some (t, seen)) (sent : Obs.sent sender .shutdown ∈ seen) :
    t.handle = false := by
  have transition := step_transition taken
  cases transition with
  | posted calls connects =>
      obtain ⟨_, rfl⟩ := Obs.sent.inj (List.mem_singleton.mp sent)
      cases calls with
      | thread _ sends | actor _ _ sends => exact absurd sends Call.action_ne_shutdown
      | shutdown handle =>
          simp only [step, handle, post, connects, if_true] at taken
          exact (congrArg (fun r => r.1.handle) (Option.some.inj taken)).symm
  | @recorded _ call => cases call <;> simp [recordObs] at sent
  | worker _ move => cases move <;> simp at sent
  | loop _ went | crashed _ went => exact absurd rfl ((LoopState.step_move went).shown _ sent)
  | unposted | dropped | announced | unannounced | drained | finished => simp at sent

/-- **Shutdown comes to its end.** On every fair path on which no callback unwinds a worker loop:
when the shutdown action is sent, there is a time at which the event loop has been left, every
worker loop has been left by the one shutdown event that it took, the job has emptied the action
channel and returned, and no party of the runtime can take a step. -/
theorem eventually_shut_down (fair : Runtime.Fair path) (meets : path.Meets Runtime.Steady)
    (threads : 0 < config.actorWorkerThreads) {n : Nat} {sender : Sender}
    (sent : Obs.sent sender .shutdown ∈ path.seen n) :
    ∃ k, n ≤ k ∧ (path.state k).loop.phase = .exited ∧
      (path.state k).job = .returned ∧ (path.state k).actions = [] ∧
      (∀ i w, (path.state k).workers[i]? = some w →
        w.stage = .exited ∧ (path.history k).count (.taken i .shutdown) = 1) ∧
      ∀ label, (path.state k).step label = none := by
  have released : (path.state (n + 1)).handle = false := by
    cases known : path.label n with
    | none =>
        rw [(path.waits known).2] at sent
        cases sent
    | some label => exact Runtime.shutdown_sent (path.moves known) sent
  obtain ⟨k, later, ended⟩ : ∃ k, n + 1 ≤ k ∧ Runtime.Ended path k := by
    obtain ⟨k, later, received | ended, _⟩ :=
      fair.receives_posted (List.mem_filterMap.mpr ⟨_, sent, rfl⟩)
    · obtain ⟨_, _, silent⟩ | ⟨label, _, transition⟩ := runtime_path_cases path k
      · rw [silent] at received
        cases received
      · obtain ⟨_, _, _, _, arm, phase, _⟩ :=
          transition.hears (runtime_sound (meets.run k)) received
        refine ⟨k + 1, Nat.succ_le_succ later, ?_⟩
        generalize (path.state (k + 1)).scheduler = s' at arm
        cases arm
        rw [Runtime.Ended, phase]
        rfl
    · exact ⟨k + 1, Nat.succ_le_succ later, ended.mono (Nat.le_succ k)⟩
  obtain ⟨l, last, alone, job⟩ :=
    fair.winds_down meets threads ended (runtime_released later released)
  refine ⟨l, by omega, alone.ended, job, (runtime_returned (meets.run l) job).2, ?_, ?_⟩
  · intro i w known
    obtain ⟨unwound, took⟩ := runtime_dismissed (meets.run l) known
    have ceased : w.stage.running ≠ true := fun running => by
      have attended := Transition.connected_of_known known running
      cases alone.dismissed.symm.trans attended
    have exited : w.stage = .exited := by
      cases stage : w.stage <;> rw [stage] at unwound ceased <;> first
        | rfl
        | exact absurd rfl unwound
        | exact absurd rfl ceased
    exact ⟨exited, took.trans (if_pos exited)⟩
  · intro label
    by_contra moves
    obtain ⟨⟨t, seen⟩, taken⟩ := Option.ne_none_iff_exists'.mp moves
    have running := (alone.step taken).2.1
    cases job.symm.trans running

/-- The run of `visit` ends like that. -/
theorem eventually_shut_down_visit :
    ∃ k, 15 ≤ k ∧ ((Machine.restingPath visit_follows).state k).loop.phase = .exited ∧
      ((Machine.restingPath visit_follows).state k).job = .returned ∧
      ((Machine.restingPath visit_follows).state k).actions = [] ∧
      (∀ i w, ((Machine.restingPath visit_follows).state k).workers[i]? = some w →
        w.stage = .exited ∧
          ((Machine.restingPath visit_follows).history k).count (.taken i .shutdown) = 1) ∧
      ∀ label, ((Machine.restingPath visit_follows).state k).step label = none := by
  have fair := Runtime.fair_of_done visit_follows (by decide) (by decide) (by decide)
  have meets := Runtime.steady_of_calm visit_follows (by decide)
  have sent : Obs.sent (.thread 0) .shutdown ∈ (Machine.restingPath visit_follows).seen 15 := by
    decide
  exact eventually_shut_down fair meets (by decide) sent

end Uppercut
