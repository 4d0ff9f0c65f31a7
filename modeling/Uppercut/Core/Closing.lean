import Uppercut.Core.System

/-!
# How the channels close

The events channel is closed by the worker loop that ends last, and it is empty from
then on. The action channel is closed when the event loop panics or its job is over,
and the job ends only after the events channel has closed. Shutdown events are the
last ones that are sent.

All of this holds in every run, whatever panics.
-/

namespace Uppercut

/-- The number of worker loops that have not ended. -/
def Runtime.live (s : Runtime) : Nat := s.workers.countP (·.stage.running)

theorem Runtime.eventsConnected_iff {s : Runtime} : s.eventsConnected = true ↔ 0 < s.live := by
  rw [eventsConnected, live, List.any_eq_true, List.countP_pos_iff]

/-- One worker changes. -/
theorem live_set {workers : List Worker} {index : Nat} {w : Worker}
    (known : workers[index]? = some w) (w' : Worker) :
    (workers.set index w').countP (·.stage.running) + w.stage.running.toNat =
      workers.countP (·.stage.running) + w'.stage.running.toNat := by
  obtain ⟨bound, rfl⟩ := List.getElem?_eq_some_iff.mp known
  have among := List.boole_getElem_le_countP (p := fun w : Worker => w.stage.running) bound
  rw [List.countP_set bound]
  cases here : workers[index].stage.running <;> cases w'.stage.running <;>
    simp only [here, Bool.toNat_true, Bool.toNat_false, if_true, Bool.false_eq_true,
      if_false] at among ⊢ <;> omega

namespace Transition

variable {s t : Runtime} {label : Label} {seen : List Obs}

/-- A channel without receivers holds nothing. -/
theorem emptied (transition : Transition s label t seen) (sound : s.Sound)
    (past : s.eventsConnected = false → s.events = []) (gone : t.eventsConnected = false) :
    t.events = [] := by
  by_cases ceased : s.eventsConnected = false
  · exact (transition.gone sound ceased).2.2.2 (past ceased)
  · cases transition with
    | worker =>
        simp only [Runtime.eventsConnected] at gone
        simp [gone]
    | @recorded index _ _ w _ _ _ sender known busy =>
        have running : ({ w with sender := sender } : Worker).stage.running = true :=
          Stage.running_of_callback busy
        exact absurd (Runtime.any_running_set known running) (Bool.not_eq_true _ ▸ gone)
    | posted | unposted | dropped | loop | crashed | announced | unannounced | drained
    | finished => exact absurd gone ceased

/-- The job is over only when no worker loop is left. -/
theorem job_over (transition : Transition s label t seen) (sound : s.Sound)
    (past : s.job ≠ .running → s.eventsConnected = false) (ceased : t.job ≠ .running) :
    t.eventsConnected = false := by
  cases transition with
  | unannounced _ _ closed => exact closed
  | finished _ _ _ _ gone => exact gone
  | posted | unposted | dropped | loop | crashed | announced | drained => exact past ceased
  | recorded known busy =>
      exact (Transition.gone (.recorded known busy ‹_›) sound (past ceased)).2.2.1
  | worker known move popped hung =>
      exact (Transition.gone (.worker known move popped hung) sound (past ceased)).2.2.1

/-- The event loop panics only when no worker loop is left. -/
theorem ceased (transition : Transition s label t seen) (sound : s.Sound)
    (past : s.loop.phase = .panicked → s.eventsConnected = false)
    (panicked : t.loop.phase = .panicked) : t.eventsConnected = false := by
  cases transition with
  | posted | unposted | dropped | announced | unannounced | drained | finished =>
      exact past panicked
  | recorded known busy =>
      exact (Transition.gone (.recorded known busy ‹_›) sound (past panicked)).2.2.1
  | worker known move popped hung =>
      exact (Transition.gone (.worker known move popped hung) sound (past panicked)).2.2.1
  | loop _ _ running => exact absurd panicked running
  | crashed offered taken =>
      obtain ⟨_, _, action, rfl⟩ := (LoopState.step_move taken).panics sound.wellFormed panicked
      exact (Runtime.offers_receive offered).2.symm

/-- Every shutdown event is counted. -/
theorem shutdowns (transition : Transition s label t seen) (sound : s.Sound) :
    t.shutdowns = s.shutdowns + (output seen).count .shutdown := by
  cases transition with
  | recorded => rw [(recordObs_channel ..).2]; rfl
  | worker _ move => rw [move.takes.2]; rfl
  | loop _ taken =>
      rw [List.count_eq_zero.mpr (LoopState.step_move taken).no_shutdown]
      rfl
  | crashed _ taken panicked =>
      obtain ⟨rfl, _⟩ := (LoopState.step_move taken).panics sound.wellFormed panicked
      rfl
  | posted | unposted | dropped | announced | unannounced | drained | finished => rfl

/-- Shutdown events are sent after all others. -/
theorem farewells (transition : Transition s label t seen) (sound : s.Sound) {h : List Obs}
    (past : ∃ mails, output h = mails ++ List.replicate s.shutdowns Event.shutdown ∧
      Event.shutdown ∉ mails) :
    ∃ mails, output (h ++ seen) = mails ++ List.replicate t.shutdowns Event.shutdown ∧
      Event.shutdown ∉ mails := by
  obtain ⟨mails, split, none⟩ := past
  rw [output_append, split]
  cases transition with
  | posted | unposted | dropped | unannounced | drained | finished =>
      exact ⟨mails, List.append_nil _, none⟩
  | recorded =>
      rw [(recordObs_channel ..).2]
      exact ⟨mails, List.append_nil _, none⟩
  | worker _ move =>
      rw [move.takes.2]
      exact ⟨mails, List.append_nil _, none⟩
  | @loop _ _ seen _ taken =>
      have move := LoopState.step_move taken
      simp only [(sound.early move.not_exited).1, List.replicate_zero, List.append_nil]
      refine ⟨mails ++ output seen, rfl, fun mem => ?_⟩
      obtain old | new := List.mem_append.mp mem
      · exact none old
      · exact move.no_shutdown new
  | crashed _ taken panicked =>
      obtain ⟨rfl, _⟩ := (LoopState.step_move taken).panics sound.wellFormed panicked
      exact ⟨mails, List.append_nil _, none⟩
  | announced =>
      refine ⟨mails, ?_, none⟩
      rw [List.replicate_succ', List.append_assoc]
      rfl

end Transition

variable {config : SchedulerConfig} {name host : String} {start : Nat}
variable {allowed : Runtime → List Obs → Label → Prop} {s : Runtime} {h : List Obs}

theorem runtime_threads (run : (runtimeMachine config name host start).Run allowed s h) :
    s.workers.length = config.actorWorkerThreads := by
  induction run with
  | start => exact List.length_replicate
  | step _ _ taken ih =>
      cases Runtime.step_transition taken with
      | posted | unposted | dropped | loop | crashed | announced | unannounced | drained
      | finished => exact ih
      | recorded | worker => exact List.length_set.trans ih

theorem runtime_emptied (run : (runtimeMachine config name host start).Run allowed s h)
    (gone : s.eventsConnected = false) : s.events = [] := by
  induction run with
  | start => rfl
  | step before _ taken ih =>
      exact (Runtime.step_transition taken).emptied (runtime_sound before) ih gone

theorem runtime_job_over (run : (runtimeMachine config name host start).Run allowed s h)
    (ceased : s.job ≠ .running) : s.eventsConnected = false := by
  induction run with
  | start => exact absurd rfl ceased
  | step before _ taken ih =>
      exact (Runtime.step_transition taken).job_over (runtime_sound before) ih ceased

theorem runtime_over (run : (runtimeMachine config name host start).Run allowed s h)
    (panicked : s.loop.phase = .panicked) : s.eventsConnected = false := by
  induction run with
  | start => cases panicked
  | step before _ taken ih =>
      exact (Runtime.step_transition taken).ceased (runtime_sound before) ih panicked

/-- As long as a worker loop runs, actions can be sent. -/
theorem runtime_connected (run : (runtimeMachine config name host start).Run allowed s h)
    (connects : s.eventsConnected = true) : s.actionsConnected = true := by
  have alive : s.loop.phase ≠ .panicked := by
    intro panicked
    simp [runtime_over run panicked] at connects
  have job : s.job = .running := by
    by_contra ceased
    simp [runtime_job_over run ceased] at connects
  simp [Runtime.actionsConnected, alive, job]

/-- What a worker has done with its inputs. If each of its moves passes on what it holds
or keeps it, then so does every run. -/
theorem worker_ledger {β : Type} {i : Nat} {takes gives : Obs → Option β}
    {hand : Stage → Option β} (empty : hand .waiting = none)
    (only : ∀ x : Obs, x.of i = false → takes x = none ∧ gives x = none)
    (keeps : ∀ {s h w wl input w' output seen},
      allowed s h (.worker i wl) → s.workers[i]? = some w → s.actionsConnected = true →
      w.Move i s.actionsConnected wl input w' output seen →
      (wl = .hangUp → s.events = [] ∧ s.actionsConnected = false) →
      (hand w.stage).toList ++ seen.filterMap takes =
        seen.filterMap gives ++ (hand w'.stage).toList)
    (run : (runtimeMachine config name host start).Run allowed s h) {w : Worker}
    (here : s.workers[i]? = some w) :
    h.filterMap takes = h.filterMap gives ++ (hand w.stage).toList := by
  induction run generalizing w with
  | start =>
      obtain rfl := List.eq_of_mem_replicate (List.mem_of_getElem? here)
      simp [Worker.start, empty]
  | @step s t h label seen before kept taken ih =>
      rw [List.filterMap_append, List.filterMap_append]
      obtain ⟨v, known, same, silent⟩ | ⟨v, wl, input, output, events, known, rfl, move, _, hung⟩ :=
        (Runtime.step_transition taken).party here
      · have untaken : seen.filterMap takes = [] :=
          List.filterMap_eq_nil_iff.mpr fun x mem => (only x (silent x mem)).1
        have ungiven : seen.filterMap gives = [] :=
          List.filterMap_eq_nil_iff.mpr fun x mem => (only x (silent x mem)).2
        rw [untaken, ungiven, List.append_nil, List.append_nil, ih known, same]
      · have connects := runtime_connected before
          (Transition.connected_of_known known move.running)
        rw [ih known, List.append_assoc, keeps kept known connects move hung, List.append_assoc]

theorem runtime_shutdowns (run : (runtimeMachine config name host start).Run allowed s h) :
    (output h).count .shutdown = s.shutdowns := by
  induction run with
  | start => rfl
  | step before _ taken ih =>
      rw [output_append, List.count_append, ih]
      exact ((Runtime.step_transition taken).shutdowns (runtime_sound before)).symm

theorem runtime_farewells (run : (runtimeMachine config name host start).Run allowed s h) :
    ∃ mails, output h = mails ++ List.replicate s.shutdowns Event.shutdown ∧
      Event.shutdown ∉ mails := by
  induction run with
  | start => exact ⟨[], rfl, List.not_mem_nil⟩
  | step before _ taken ih =>
      exact (Runtime.step_transition taken).farewells (runtime_sound before) ih

/-- Behind a shutdown event there are only others of its kind. -/
theorem shutdowns_behind (run : (runtimeMachine config name host start).Run allowed s h)
    {front rest : List Event} (split : output h = front ++ rest)
    (passed : Event.shutdown ∈ front) : ∀ event ∈ rest, event = .shutdown := by
  obtain ⟨mails, sent, none⟩ := runtime_farewells run
  rw [sent] at split
  obtain ⟨middle, _, back⟩ | ⟨middle, early, _⟩ := List.append_eq_append_iff.mp split
  · intro event mem
    exact List.eq_of_mem_replicate (back ▸ List.mem_append_right middle mem)
  · exact absurd (early ▸ List.mem_append_left middle passed) none

end Uppercut
