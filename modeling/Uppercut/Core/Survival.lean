import Uppercut.Core.WakeUp

/-!
# Worker loops survive

A panic in `receive` is caught, so the worker loop goes on and sends the actor back.
A panic in `on_fail` or `on_stop` ends the loop. Unless that happens all worker loops
run until the shutdown, and each mail that one of them takes is answered by a return.
-/

namespace Uppercut

namespace Obs

/-- The instance in the mail that worker `i` takes. -/
def mailed? (i : Nat) : Obs → Option (Tag × Actor)
  | .taken index (.mail tag actor _) => if index = i then some (tag, actor) else none
  | _ => none

/-- The instance that worker `i` sends back. -/
def returned? (i : Nat) : Obs → Option (Tag × Actor)
  | .returned index tag actor _ => if index = i then some (tag, actor) else none
  | _ => none

end Obs

/-- The instance that a worker has yet to send back. -/
def Stage.owed : Stage → Option (Tag × Actor)
  | .receiving tag actor _ | .failing tag actor _ | .returning tag actor _ _ => some (tag, actor)
  | _ => none

/-- `on_fail` does not panic, and `on_stop` does not before shutdown events are sent. -/
def Runtime.Survives (s : Runtime) (_ : List Obs) (label : Label) : Prop :=
  s.unwinds label ≠ some .onFail ∧ (s.shutdowns = 0 → s.unwinds label = none)

instance (s : Runtime) (h : List Obs) (label : Label) : Decidable (s.Survives h label) :=
  inferInstanceAs (Decidable (_ ∧ _))

variable {s t : Runtime} {label : Label} {h seen : List Obs}

/-- A worker answers the mail that it took before it takes the next one. -/
theorem Worker.Move.answers {index : Nat} {connected : Bool} {w w' : Worker}
    {label : WorkerLabel} {input : Option Event} {output : Option Action}
    (move : w.Move index connected label input w' output seen) (connects : connected = true)
    (known : s.workers[index]? = some w)
    (kept : s.unwinds (.worker index label) ≠ some .onFail) :
    w.stage.owed.toList ++ seen.filterMap (Obs.mailed? index) =
      seen.filterMap (Obs.returned? index) ++ w'.stage.owed.toList := by
  cases move
  case lost => simp [Runtime.unwinds, known, Stage.callback?] at kept
  case abandoned closed => simp [connects] at closed
  all_goals simp [Stage.owed, List.filterMap_cons, Obs.mailed?, Obs.returned?]

theorem Obs.answers_of {i : Nat} {x : Obs} (other : x.of i = false) :
    x.mailed? i = none ∧ x.returned? i = none := by
  cases x with
  | taken index event => cases event <;> simp_all [of, mailed?, returned?]
  | returned => simp_all [of, mailed?, returned?]
  | _ => exact ⟨rfl, rfl⟩

variable {config : SchedulerConfig} {name host : String} {start : Nat}
variable {allowed : Runtime → List Obs → Label → Prop}

/-- While no shutdown event was sent, none is taken. -/
theorem untaken (run : (runtimeMachine config name host start).Run allowed s h)
    (early : s.shutdowns = 0) {input : Option Event} {events : List Event}
    (popped : s.events = input.toList ++ events) : input ≠ some .shutdown := by
  rintro rfl
  have sent := runtime_shutdowns run
  rw [early, List.count_eq_zero] at sent
  obtain ⟨rest, split, kept⟩ := runtime_events run
  obtain here | ⟨empty, _⟩ := kept
  · apply sent
    rw [split, ← here, popped]
    exact List.mem_append_right _ List.mem_cons_self
  · simp [empty] at popped

/-- Until shutdown events are sent all worker loops run. -/
theorem runtime_manned (run : (runtimeMachine config name host start).Run Runtime.Survives s h)
    (early : s.shutdowns = 0) : ∀ w ∈ s.workers, w.stage.running = true := by
  induction run with
  | start =>
      intro w mem
      rw [List.eq_of_mem_replicate mem]
      rfl
  | @step s t h label seen before kept taken ih =>
      have transition := Runtime.step_transition taken
      have past : s.shutdowns = 0 := by
        have := transition.shutdowns (runtime_sound before)
        omega
      intro w' mem
      obtain ⟨i, here⟩ := List.mem_iff_getElem?.mp mem
      obtain ⟨w, known, same, _⟩ | ⟨w, wl, input, output, events, known, rfl, move, popped, hung⟩ :=
        transition.party here
      · rw [← same]
        exact ih past w (List.mem_of_getElem? known)
      · have connects := runtime_connected before (Transition.connected_of_known known move.running)
        exact move.stays known (kept.2 past) hung connects (untaken before past popped)

theorem runtime_answers (run : (runtimeMachine config name host start).Run Runtime.Survives s h)
    {i : Nat} {w : Worker} (here : s.workers[i]? = some w) :
    h.filterMap (Obs.mailed? i) = h.filterMap (Obs.returned? i) ++ w.stage.owed.toList := by
  refine worker_ledger rfl (fun x other => Obs.answers_of other) ?_ run here
  intro s h w wl input w' output seen kept known connects move hung
  exact move.answers connects known kept.1

/-- The send of a return does not fail. -/
theorem Runtime.step_returning {i : Nat} {w : Worker} (known : s.workers[i]? = some w)
    (connects : s.actionsConnected = true) {tag : Tag} {actor : Actor} {envelope : Envelope}
    {ok : Bool} (stage : w.stage = .returning tag actor envelope ok) :
    ∃ t, s.step (.worker i .advance) = some (t, [.returned i tag actor ok]) ∧
      t.actions = s.actions ++ [.return tag actor ok] := by
  refine ⟨({ s with actions := s.actions ++ [.return tag actor ok] } : Runtime).withWorker i
    { w with stage := .draining (.mail tag actor envelope) }, ?_, ?_⟩
  · simp only [step, workerStep, known, Worker.advance, stage, connects, if_true,
      Option.toList_some]
  · rw [withWorker_eq]

/-- **Worker survival.** In every run in which `on_fail` does not panic, and `on_stop` does
not panic before shutdown events are sent: until then all worker loops run; each worker
has sent back, once and in order, the instances of the mails that it took, except for one
that it still holds, and it can send that one back; and an active tag has an instance
behind it. -/
theorem workers_survive
    (run : (runtimeMachine config name host start).Run Runtime.Survives s h) :
    (s.shutdowns = 0 → s.live = config.actorWorkerThreads) ∧
    (∀ i w, s.workers[i]? = some w →
      h.filterMap (Obs.mailed? i) = h.filterMap (Obs.returned? i) ++ w.stage.owed.toList ∧
      ∀ tag actor envelope ok, w.stage = .returning tag actor envelope ok →
        ∃ t, s.step (.worker i .advance) = some (t, [.returned i tag actor ok]) ∧
          t.actions = s.actions ++ [.return tag actor ok]) ∧
    (s.loop.phase.running = true → ∀ tag ∈ s.scheduler.active, s.Backed tag) := by
  refine ⟨fun early => ?_, fun i w here => ⟨runtime_answers run here, ?_⟩, fun running tag => ?_⟩
  · rw [← runtime_threads run, Runtime.live, List.countP_eq_length]
    exact runtime_manned run early
  · intro tag actor envelope ok stage
    have running : w.stage.running = true := by rw [stage]; rfl
    have connects := runtime_connected run (Transition.connected_of_known here running)
    exact Runtime.step_returning here connects stage
  · have keeps : (runtimeMachine config name host start).Run Runtime.KeepsMails s h := by
      refine run.mono fun {s h label} before kept => ⟨kept.1, fun panics ran => ?_⟩
      have looping : s.loop.phase ≠ .exited := fun exited => by
        simp [exited, Phase.running] at ran
      rw [kept.2 ((runtime_sound before).early looping).1] at panics
      cases panics
    exact runtime_backed keeps running

/-- An actor panics in `receive`. -/
def breakdown : List Label :=
  [Label.call 0 (.spawn "a") 0] ++ turn (.spawn "a" ⟨0⟩) ++
  [Label.call 0 (.send "a" (.of (.other 7))) 0] ++ turn (.queue "a" (letter 1 7)) ++
  [Label.worker 0 .take, .worker 0 (.finish false)]

theorem workers_survive_breakdown :
    ∃ s h, (runtimeMachine .default "app" "host" 0).Run Runtime.Survives s h ∧ s.live = 4 ∧
      ∃ t, s.step (.worker 0 .advance) = some (t, [.returned 0 "a" ⟨0⟩ false]) := by
  have run := Machine.run_replay (runtimeMachine .default "app" "host" 0) Runtime.Survives
    (breakdown ++ [.worker 0 (.finish true)]) (by decide)
  refine ⟨_, _, run, (workers_survive run).1 (by decide), ?_⟩
  obtain ⟨t, sent, _⟩ := ((workers_survive run).2.1 0
    ⟨.returning "a" ⟨0⟩ (letter 1 7) false, { Local.new with tag := "a" }⟩ (by decide)).2
    "a" ⟨0⟩ (letter 1 7) false rfl
  exact ⟨t, sent⟩

/-- `on_fail` panics as well. The worker loop is gone, the mail is never answered, and the
tag stays active without an instance. -/
theorem worker_lost :
    ∃ s h, (runtimeMachine .default "app" "host" 0).Reached s h ∧ s.shutdowns = 0 ∧
      s.live = 3 ∧ h.filterMap (Obs.mailed? 0) = [("a", ⟨0⟩)] ∧
      h.filterMap (Obs.returned? 0) = [] ∧ s.workers.map (·.stage.owed) = List.replicate 4 none ∧
      "a" ∈ s.scheduler.active ∧ ¬ s.Backed "a" :=
  ⟨_, _, Machine.run_replay _ _ (breakdown ++ [.worker 0 (.finish false)]) (by decide),
    by decide, by decide, by decide, by decide, by decide, by decide, by decide⟩

end Uppercut
