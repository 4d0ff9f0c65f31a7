import Uppercut.Core.Delays
import Uppercut.Core.Shutdown
import Uppercut.Machine.Conveyor
import Uppercut.Machine.Path

/-!
# The runtime goes on

Fairness asks that the event loop, the worker loops and the job take the steps that they can
always take, and that every callback comes to its end. Then both channels are emptied: a worker
that is busy comes back for the next event, and the event loop comes back for the next action.
-/

namespace Uppercut

/-! ## Busy workers -/

/-- Worker `index` goes on with what it has taken. -/
def Label.GoesOn (index : Nat) (label : Label) : Prop :=
  label = .worker index .advance ∨ ∃ ok, label = .worker index (.finish ok)

/-- How much a worker has to do before it receives again. -/
def Worker.toil (w : Worker) : Nat :=
  match w.stage with
  | .waiting | .exited | .panicked => 0
  | .draining _ =>
      1 + (if w.sender.logs = [] then 0 else 1) + (if w.sender.metrics = [] then 0 else 1)
  | .returning _ _ _ _ | .stopping _ _ => 4
  | .failing _ _ _ => 5
  | .receiving _ _ _ => 6

section Step

variable {s t : Runtime} {label : Label} {seen : List Obs} {i : Nat} {w w' : Worker}

theorem Worker.toil_draining {event : Event} (stage : w.stage = .draining event) :
    0 < w.toil ∧ w.toil ≤ 3 := by
  simp only [toil, stage]
  split <;> split <;> omega

theorem Worker.toil_owed (owes : w.stage.owed.isSome = true) : 0 < w.toil := by
  obtain ⟨stage, sender⟩ := w
  cases stage <;> first | exact Nat.succ_pos _ | cases owes

theorem Worker.toil_callback (busy : w.stage.callback?.isSome = true) (sender : Local) :
    ({ w with sender := sender } : Worker).toil = w.toil := by
  obtain ⟨stage, own⟩ := w
  cases stage <;> first | rfl | cases busy

/-- Each move of a busy worker leaves it less to do. -/
theorem Worker.Move.toils {index : Nat} {connected : Bool} {label : WorkerLabel}
    {input : Option Event} {output : Option Action}
    (move : w.Move index connected label input w' output seen) (busy : 0 < w.toil)
    (connects : connected = true) (unwound : w'.stage ≠ .panicked) :
    input = none ∧ w'.toil < w.toil ∧ w'.stage.running = true ∧
      (label = .advance ∨ ∃ ok, label = .finish ok) := by
  cases move
  case received | stopped | dismissed | hungUp => exact absurd busy (Nat.lt_irrefl 0)
  case lost | crashed | unflushed => exact absurd rfl unwound
  case abandoned closed => cases connects.symm.trans closed
  case finished | failed | recovered => exact ⟨rfl, by simp [toil], rfl, .inr ⟨_, rfl⟩⟩
  case released =>
      refine ⟨rfl, ?_, rfl, .inr ⟨_, rfl⟩⟩
      exact (toil_draining rfl).2.trans_lt (Nat.lt_succ_self 3)
  case returned =>
      refine ⟨rfl, ?_, rfl, .inl rfl⟩
      exact (toil_draining rfl).2.trans_lt (Nat.lt_succ_self 3)
  case flushed next =>
      refine ⟨rfl, ?_, rfl, .inl rfl⟩
      obtain ⟨logs, _, rfl⟩ | ⟨logs, metrics, _, rfl⟩ := Local.drain_some next
      · simp [toil, logs]
      · simp [toil, logs, metrics]
  case rested => exact ⟨rfl, (toil_draining rfl).1, rfl, .inl rfl⟩

/-- A worker that waits takes an event, or it hangs up. -/
theorem Worker.Move.heads {index : Nat} {connected : Bool} {label : WorkerLabel}
    {input : Option Event} {output : Option Action}
    (move : w.Move index connected label input w' output seen) (waiting : w.stage = .waiting) :
    label = .hangUp ∨ ∃ event, input = some event := by
  cases move
  case received | stopped | dismissed => exact .inr ⟨_, rfl⟩
  case hungUp => exact .inl rfl
  all_goals cases waiting

/-- A step is a move of worker `i`, or the worker stays in its stage. -/
theorem Transition.worker_cases (transition : Transition s label t seen)
    (known : s.workers[i]? = some w) :
    (∃ w', t.workers[i]? = some w' ∧ w'.stage = w.stage ∧ w'.toil = w.toil ∧
        ¬ label.GoesOn i ∧ label ≠ .worker i .take) ∨
      ∃ w' wl input output events, t.workers[i]? = some w' ∧ label = .worker i wl ∧
        w.Move i s.actionsConnected wl input w' output seen ∧
        s.events = input.toList ++ events ∧
        (wl = .hangUp → s.events = [] ∧ s.actionsConnected = false) ∧
        t.actions = s.actions ++ output.toList := by
  cases transition with
  | posted calls | unposted calls =>
      refine .inl ⟨w, known, rfl, rfl, ?_, ?_⟩ <;> cases calls <;> simp [Label.GoesOn]
  | dropped | announced | unannounced | drained | finished | loop | crashed =>
      exact .inl ⟨w, known, rfl, rfl, by simp [Label.GoesOn], by simp⟩
  | @recorded index call now v tag actor callback sender known' busy =>
      left
      by_cases own : index = i
      · subst own
        obtain rfl : v = w := Option.some.inj (known'.symm.trans known)
        refine ⟨{ v with sender := sender }, ?_, rfl, ?_, by simp [Label.GoesOn], by simp⟩
        · exact List.getElem?_set_self (List.getElem?_eq_some_iff.mp known).1
        · exact Worker.toil_callback (Option.isSome_iff_exists.mpr ⟨_, busy⟩) sender
      · refine ⟨w, (List.getElem?_set_ne own).trans known, rfl, rfl, ?_, ?_⟩ <;>
          simp [Label.GoesOn]
  | @worker index wl v input events v' output seen known' move popped hung =>
      by_cases own : index = i
      · subst own
        obtain rfl : v = w := Option.some.inj (known'.symm.trans known)
        refine .inr ⟨v', wl, input, output, events, ?_, rfl, move, popped, hung, rfl⟩
        exact List.getElem?_set_self (List.getElem?_eq_some_iff.mp known).1
      · refine .inl ⟨w, (List.getElem?_set_ne own).trans known, rfl, rfl, ?_, ?_⟩ <;>
          simp [Label.GoesOn, own]

/-- A busy worker can go on. -/
theorem Runtime.goesOn_isSome (known : s.workers[i]? = some w) (busy : 0 < w.toil) :
    ∃ label, label.GoesOn i ∧ (s.step label).isSome = true := by
  obtain ⟨stage, sender⟩ := w
  cases stage with
  | waiting | exited | panicked => exact absurd busy (Nat.lt_irrefl 0)
  | receiving | failing | stopping =>
      refine ⟨.worker i (.finish true), .inr ⟨true, rfl⟩, ?_⟩
      simp [step, workerStep, known, Worker.finish]
  | returning =>
      refine ⟨.worker i .advance, .inl rfl, ?_⟩
      simp only [step, workerStep, known, Worker.advance]
      cases s.actionsConnected <;> rfl
  | draining =>
      refine ⟨.worker i .advance, .inl rfl, ?_⟩
      simp only [step, workerStep, known, Worker.advance]
      cases sender.drain <;> cases s.actionsConnected <;> rfl

/-- A worker that owes an instance sends it back, or goes on owing it. -/
theorem Worker.Move.owes {index : Nat} {connected : Bool} {label : WorkerLabel}
    {output : Option Action} {tag : Tag} {actor : Actor}
    (move : w.Move index connected label none w' output seen)
    (connects : connected = true) (unwound : w'.stage ≠ .panicked)
    (owes : w.stage.owed = some (tag, actor)) :
    w'.stage.owed = some (tag, actor) ∨ ∃ ok, output = some (.return tag actor ok) := by
  cases move
  case finished | failed | recovered => exact .inl owes
  case returned ok _ =>
      cases owes
      exact .inr ⟨ok, rfl⟩
  case lost => exact absurd rfl unwound
  case abandoned closed => cases connects.symm.trans closed
  case released | crashed | flushed | unflushed | rested | hungUp => cases owes

end Step

/-! ## Fair paths -/

variable {config : SchedulerConfig} {name host : String} {start : Nat}
variable {path : (runtimeMachine config name host start).Path}

/-- The job goes on behind the event loop. -/
def Label.Closes (label : Label) : Prop :=
  label = .sendShutdown ∨ label = .drain ∨ label = .finish

/-- Each party takes the steps that it can take, and every callback comes to its end. -/
structure Runtime.Fair (path : (runtimeMachine config name host start).Path) : Prop where
  loop : path.WeaklyFair fun label => ∃ step, label = .loop step
  takes : ∀ index, path.WeaklyFair (· = .worker index .take)
  workers : ∀ index, path.WeaklyFair (Label.GoesOn index)
  job : path.WeaklyFair Label.Closes

/-- Nothing happens, or the runtime takes a step. -/
theorem runtime_path_cases (path : (runtimeMachine config name host start).Path) (n : Nat) :
    (path.label n = none ∧ path.state (n + 1) = path.state n ∧ path.seen n = []) ∨
      ∃ label, path.label n = some label ∧
        Transition (path.state n) label (path.state (n + 1)) (path.seen n) := by
  cases known : path.label n with
  | none => exact .inl ⟨rfl, path.waits known⟩
  | some label => exact .inr ⟨label, rfl, Runtime.step_transition (path.moves known)⟩

section Paths

variable (fair : Runtime.Fair path) (meets : path.Meets Runtime.Steady)
variable {n i : Nat} {w : Worker}

theorem runtime_worker_at (path : (runtimeMachine config name host start).Path)
    (known : (path.state n).workers[i]? = some w) :
    (∃ w', (path.state (n + 1)).workers[i]? = some w' ∧ w'.stage = w.stage ∧
        w'.toil = w.toil ∧ ¬ path.Takes (Label.GoesOn i) n ∧
        ¬ path.Takes (· = .worker i .take) n) ∨
      ∃ w' wl input output events, (path.state (n + 1)).workers[i]? = some w' ∧
        path.label n = some (.worker i wl) ∧
        w.Move i (path.state n).actionsConnected wl input w' output (path.seen n) ∧
        (path.state n).events = input.toList ++ events ∧
        (wl = .hangUp → (path.state n).events = [] ∧ (path.state n).actionsConnected = false) ∧
        (path.state (n + 1)).actions = (path.state n).actions ++ output.toList := by
  obtain ⟨idle, same, _⟩ | ⟨label, taken, transition⟩ := runtime_path_cases path n
  · left
    rw [same]
    refine ⟨w, known, rfl, rfl, ?_, ?_⟩ <;> simp [Machine.Path.Takes, idle]
  · obtain ⟨w', next, stage, toil, other, waits⟩ |
      ⟨w', wl, input, output, events, next, rfl, move, popped, hung, sent⟩ :=
        transition.worker_cases known
    · left
      refine ⟨w', next, stage, toil, ?_, ?_⟩ <;> rintro ⟨_, own, here⟩ <;>
        cases taken.symm.trans here
      · exact other own
      · exact waits own
    · exact .inr ⟨w', wl, input, output, events, next, taken, move, popped, hung, sent⟩

include fair meets

/-- A busy worker makes its next move. -/
theorem Runtime.Fair.works (known : (path.state n).workers[i]? = some w) (busy : 0 < w.toil) :
    ∃ k, n ≤ k ∧ ∃ w' v wl output, (path.state k).workers[i]? = some w' ∧ w'.stage = w.stage ∧
      w'.Move i true wl none v output (path.seen k) ∧ v.toil < w.toil ∧
      v.stage.running = true ∧ (path.state (k + 1)).workers[i]? = some v ∧
      (path.state (k + 1)).actions = (path.state k).actions ++ output.toList := by
  have own {m : Nat} {w' v : Worker} {wl : WorkerLabel} {input : Option Event}
      {output : Option Action} (known : (path.state m).workers[i]? = some w')
      (same : w'.toil = w.toil) (taken : path.label m = some (.worker i wl))
      (move : w'.Move i (path.state m).actionsConnected wl input v output (path.seen m))
      (hung : wl = .hangUp → (path.state m).events = [] ∧
        (path.state m).actionsConnected = false) :
      input = none ∧ (path.state m).actionsConnected = true ∧ v.toil < w.toil ∧
        v.stage.running = true ∧ path.Takes (Label.GoesOn i) m := by
    have connects := runtime_connected (meets.run m)
      (Transition.connected_of_known known move.running)
    have unwound := (move.steady known (meets m _ taken) hung connects).1
    obtain ⟨none, less, running, goes⟩ := move.toils (same ▸ busy) connects unwound
    refine ⟨none, connects, same ▸ less, running, _, ?_, taken⟩
    obtain rfl | ⟨ok, rfl⟩ := goes
    · exact .inl rfl
    · exact .inr ⟨ok, rfl⟩
  have waits := (fair.workers i).until (Q := fun _ => False)
    (P := fun m => ∃ w', (path.state m).workers[i]? = some w' ∧ w'.stage = w.stage ∧
      w'.toil = w.toil) ?_ ?_
  · obtain ⟨k, later, ⟨⟨w', known', stage, toil⟩, taken⟩ | none⟩ := waits n ⟨w, known, rfl, rfl⟩
    · obtain ⟨_, _, _, _, other, _⟩ | ⟨v, wl, _, output, _, next, here, move, _, hung, sent⟩ :=
        runtime_worker_at path known'
      · exact absurd taken other
      · obtain ⟨rfl, connects, less, running, _⟩ := own known' toil here move hung
        rw [connects] at move
        exact ⟨k, later, w', v, wl, output, known', stage, move, less, running, next, sent⟩
    · exact none.elim
  · rintro m ⟨w', known', stage, toil⟩ idle
    obtain ⟨v, next, stage', toil', _⟩ | ⟨_, wl, _, _, _, _, here, move, _, hung, _⟩ :=
      runtime_worker_at path known'
    · exact .inl ⟨v, next, stage'.trans stage, toil'.trans toil⟩
    · exact absurd (own known' toil here move hung).2.2.2.2 idle
  · rintro m ⟨w', known', _, toil⟩
    exact Runtime.goesOn_isSome known' (toil ▸ busy)

/-- A worker loop comes back to receive. -/
theorem Runtime.Fair.rests (known : (path.state n).workers[i]? = some w)
    (running : w.stage.running = true) :
    ∃ k, n ≤ k ∧ ∃ v, (path.state k).workers[i]? = some v ∧ v.stage = .waiting := by
  induction size : w.toil using Nat.strong_induction_on generalizing n w with
  | _ r ih =>
      by_cases busy : 0 < w.toil
      · obtain ⟨k, later, _, v, _, _, _, _, _, less, still, next, _⟩ := fair.works meets known busy
        obtain ⟨l, last, rested⟩ := ih v.toil (size ▸ less) next still rfl
        exact ⟨l, later.trans (Nat.le_of_succ_le last), rested⟩
      · refine ⟨n, Nat.le_refl n, w, known, ?_⟩
        cases stage : w.stage with
        | waiting => rfl
        | exited | panicked => rw [stage] at running; cases running
        | draining => exact absurd (Worker.toil_draining stage).1 busy
        | receiving | failing | returning | stopping => simp [Worker.toil, stage] at busy

/-- A worker sends back the instance that it owes. -/
theorem Runtime.Fair.answers (known : (path.state n).workers[i]? = some w) {tag : Tag}
    {actor : Actor} (owes : w.stage.owed = some (tag, actor)) :
    ∃ k, n ≤ k ∧ ∃ ok, Action.return tag actor ok ∈ (path.state (k + 1)).actions := by
  induction size : w.toil using Nat.strong_induction_on generalizing n w with
  | _ r ih =>
      have busy : 0 < w.toil := Worker.toil_owed (Option.isSome_iff_exists.mpr ⟨_, owes⟩)
      obtain ⟨k, later, w', v, wl, output, known', stage, move, less, running, next, sent⟩ :=
        fair.works meets known busy
      have unwound : v.stage ≠ .panicked := fun gone => by rw [gone] at running; cases running
      obtain still | ⟨ok, rfl⟩ := move.owes rfl unwound (stage ▸ owes)
      · obtain ⟨l, last, done⟩ := ih v.toil (size ▸ less) next still rfl
        exact ⟨l, later.trans (Nat.le_of_succ_le last), done⟩
      · refine ⟨k, later, ok, ?_⟩
        rw [sent]
        exact List.mem_append_right _ List.mem_cons_self

end Paths

/-! ## The events channel -/

section Events

variable (meets : path.Meets Runtime.Steady) (threads : 0 < config.actorWorkerThreads) {n : Nat}
include meets threads

theorem runtime_pending (n : Nat) :
    output (path.history n) = intakeEvents (path.history n) ++ (path.state n).events := by
  obtain ⟨rest, split, rfl | ⟨empty, gone⟩⟩ := runtime_events (meets.run n)
  · exact split
  · have ended : (path.state n).live = 0 := by
      have none : ¬ 0 < (path.state n).live := by simp [← Runtime.eventsConnected_iff, gone]
      omega
    rw [empty, List.append_nil]
    exact (runtime_all_taken threads (meets.run n) ended).symm

/-- The events channel. -/
def eventConveyor : Conveyor Event fun _ => False where
  waiting n := (path.state n).events
  put n := output (path.seen n)
  taken n := intakeEvents (path.seen n)
  next := by
    intro n _
    have whole := runtime_pending meets threads (n + 1)
    rw [path.history_succ, output_append, runtime_pending meets threads n, intakeEvents_append,
      List.append_assoc, List.append_assoc] at whole
    exact List.append_cancel_left whole

variable (fair : Runtime.Fair path)
include fair

/-- An event that waits is taken by some worker. -/
theorem Runtime.Fair.takes_event (waits : (path.state n).events ≠ []) :
    ∃ k, n ≤ k ∧ intakeEvents (path.seen k) ≠ [] := by
  by_contra never
  push Not at never
  have wait (m : Nat) (later : n ≤ m) : (path.state m).events ≠ [] :=
    (eventConveyor meets threads).idle waits (fun l after => ⟨never l after, id⟩) later
  have connects : (path.state n).eventsConnected = true := by
    by_contra gone
    exact waits (runtime_emptied (meets.run n) (Bool.not_eq_true _ ▸ gone))
  obtain ⟨w, mem, running⟩ := List.any_eq_true.mp connects
  obtain ⟨i, known⟩ := List.mem_iff_getElem?.mp mem
  obtain ⟨k, later, v, idle, waiting⟩ := fair.rests meets known running
  -- From now on worker `i` can take the head of the channel, and nothing else can happen to it.
  have ready (m : Nat) (after : k ≤ m) :
      ∃ v, (path.state m).workers[i]? = some v ∧ v.stage = .waiting := by
    induction m, after using Nat.le_induction with
    | base => exact ⟨v, idle, waiting⟩
    | succ m after ih =>
        obtain ⟨v, idle, waiting⟩ := ih
        obtain ⟨v', next, stage, _⟩ | ⟨v', wl, input, _, _, _, _, move, popped, hung, _⟩ :=
          runtime_worker_at path idle
        · exact ⟨v', next, stage.trans waiting⟩
        · have taken := move.takes.1
          rw [never m (later.trans after)] at taken
          obtain rfl | ⟨event, rfl⟩ := move.heads waiting
          · exact absurd (hung rfl).1 (wait m (later.trans after))
          · cases taken
  obtain ⟨l, after, label, rfl, taken⟩ := fair.takes i k fun m after => by
    obtain ⟨v, idle, waiting⟩ := ready m after
    obtain ⟨event, events, head⟩ := List.exists_cons_of_ne_nil (wait m (later.trans after))
    refine ⟨.worker i .take, rfl, ?_⟩
    simp only [runtimeMachine, step, workerStep, idle, head, Worker.take, waiting, if_true]
    cases event <;> rfl
  obtain ⟨v, idle, waiting⟩ := ready l after
  obtain ⟨_, _, _, _, _, other⟩ | ⟨_, wl, input, _, _, _, here, move, _⟩ :=
    runtime_worker_at path idle
  · exact other ⟨_, rfl, taken⟩
  · cases taken.symm.trans here
    have some := move.takes.1
    rw [never l (later.trans after)] at some
    obtain hung | ⟨event, rfl⟩ := move.heads waiting
    · cases hung
    · cases some

/-- All events that are sent will be taken. -/
theorem Runtime.Fair.takes_events {event : Event} (waits : event ∈ (path.state n).events) :
    ∃ k, n ≤ k ∧ event ∈ intakeEvents (path.seen k) := by
  obtain ⟨k, later, taken | never⟩ := (eventConveyor meets threads).delivers (fun m some => by
    obtain ⟨k, later, taken⟩ := fair.takes_event meets threads some
    exact ⟨k, later, .inl taken⟩) waits
  · exact ⟨k, later, taken⟩
  · exact never.elim

end Events

/-! ## The action channel -/

/-- How far the event loop is from its next action, behind the `match`. -/
def LoopState.toil (l : LoopState) : Nat :=
  match l.phase with
  | .receiving | .exited | .panicked => 0
  | .releasing _ => 1 + l.loop.scheduler.tasks.length
  | .reading => 2 + l.loop.scheduler.tasks.length

theorem LoopStep.toils {l l' : LoopState} {label : LoopLabel} {seen : List Obs}
    (step : LoopStep l label l' seen) (inside : l.phase ≠ .receiving) :
    l'.phase.running = false ∨ l'.toil < l.toil := by
  cases step with
  | crashed at_head | unsent at_head | received at_head | timeout at_head =>
      exact absurd at_head inside
  | clock reading =>
      right
      simp only [LoopState.toil, reading]
      omega
  | @release index now entry releasing popped =>
      right
      obtain ⟨short, _⟩ := List.getElem?_eq_some_iff.mp popped
      simp only [LoopState.toil, releasing, List.length_eraseIdx_of_lt short]
      omega
  | tick instant time releasing done =>
      by_cases ends : (l.loop.tick instant time).1.quits = true
      · exact .inl (by simp [ends, Phase.running])
      · right
        simp [ends, LoopState.toil, releasing]

/-- The event loop can always take a step. -/
theorem Runtime.loop_isSome {s : Runtime} (running : s.loop.phase.running = true) :
    ∃ label, (∃ step, label = Label.loop step) ∧ (s.step label).isSome = true := by
  have takes {label : LoopLabel} (offered : s.offers label = true)
      (some : (s.loop.step label).isSome = true) : (s.step (.loop label)).isSome = true := by
    obtain ⟨⟨loop, seen⟩, taken⟩ := Option.isSome_iff_exists.mp some
    simp [step, offered, taken]
  cases phase : s.loop.phase with
  | exited | panicked => rw [phase] at running; cases running
  | receiving =>
      cases actions : s.actions with
      | nil =>
          refine ⟨_, ⟨.timeout, rfl⟩, takes ?_ ?_⟩
          · simp [offers, actions]
          · simp [LoopState.step, phase]
      | cons action rest =>
          refine ⟨_, ⟨.receive action s.eventsConnected, rfl⟩, takes ?_ ?_⟩
          · simp [offers, actions]
          · simp only [LoopState.step, phase, if_true]
            split
            · rfl
            · split <;> rfl
  | reading =>
      refine ⟨_, ⟨.clock 0, rfl⟩, takes rfl ?_⟩
      simp [LoopState.step, phase]
  | releasing now =>
      cases due : s.loop.loop.scheduler.due now with
      | true =>
          obtain ⟨index, l, entry, taken⟩ := LoopState.exists_release phase due
          exact ⟨_, ⟨.release index, rfl⟩, takes rfl (by rw [taken]; rfl)⟩
      | false =>
          exact ⟨_, ⟨.tick 0 0, rfl⟩, takes rfl ((LoopState.tick_isSome phase 0 0).mpr due)⟩

/-- The event loop takes a step, or it stays as it is. -/
theorem runtime_loop_at (path : (runtimeMachine config name host start).Path) (n : Nat) :
    (path.state (n + 1)).loop = (path.state n).loop ∧
        ¬ path.Takes (fun label => ∃ step, label = .loop step) n ∨
      ∃ step, path.label n = some (.loop step) ∧ (path.state n).offers step = true ∧
        (path.state n).loop.step step = some ((path.state (n + 1)).loop, path.seen n) := by
  obtain ⟨idle, same, _⟩ | ⟨label, taken, transition⟩ := runtime_path_cases path n
  · exact .inl ⟨by rw [same], by simp [Machine.Path.Takes, idle]⟩
  · have other (aside : ∀ step, label ≠ .loop step) :
        ¬ path.Takes (fun label => ∃ step, label = .loop step) n := by
      rintro ⟨_, ⟨step, rfl⟩, here⟩
      cases taken.symm.trans here
      exact aside step rfl
    generalize path.state (n + 1) = t at transition ⊢
    generalize path.seen n = seen at transition ⊢
    cases transition with
    | loop offered went | crashed offered went => exact .inr ⟨_, taken, offered, went⟩
    | posted calls | unposted calls =>
        exact .inl ⟨rfl, other (by cases calls <;> simp)⟩
    | dropped | recorded | worker | announced | unannounced | drained | finished =>
        exact .inl ⟨rfl, other (by simp)⟩

/-- The event loop has ended. -/
def Runtime.Ended (path : (runtimeMachine config name host start).Path) (n : Nat) : Prop :=
  (path.state n).loop.phase.running = false

/-- A loop that has ended stays so. -/
theorem Runtime.Ended.mono {n k : Nat} (ended : Runtime.Ended path n) (later : n ≤ k) :
    Runtime.Ended path k := by
  induction k, later using Nat.le_induction with
  | base => exact ended
  | succ k later ih =>
      obtain ⟨_, same, _⟩ | ⟨label, _, transition⟩ := runtime_path_cases path k
      · rw [Ended, same]
        exact ih
      · by_contra still
        rw [Ended, transition.running (by simpa [Ended] using still)] at ih
        cases ih

/-- The action channel, until the event loop ends. -/
def actionConveyor (path : (runtimeMachine config name host start).Path) :
    Conveyor Action (Runtime.Ended path) where
  waiting n := (path.state n).actions
  put n := posts (path.seen n)
  taken n := intake (path.seen n)
  next := by
    intro n goes_on
    obtain ⟨_, same, silent⟩ | ⟨label, _, transition⟩ := runtime_path_cases path n
    · rw [same, silent]
      exact List.append_nil _
    · have running : (path.state (n + 1)).loop.phase.running = true := by
        simpa [Runtime.Ended] using goes_on
      obtain ⟨rest, split, kept⟩ := transition.actions (transition.running running)
      rw [split, kept running]

section Loop

variable (fair : Runtime.Fair path) {n : Nat}
include fair

/-- The event loop takes its next step. -/
theorem Runtime.Fair.loops {P : Nat → Prop} (now : P n)
    (running : (path.state n).loop.phase.running = true)
    (stays : ∀ m, P m → (path.state (m + 1)).loop = (path.state m).loop → P (m + 1)) :
    ∃ k, n ≤ k ∧ P k ∧ (path.state k).loop = (path.state n).loop ∧
      ∃ step, path.label k = some (.loop step) ∧ (path.state k).offers step = true ∧
        (path.state k).loop.step step = some ((path.state (k + 1)).loop, path.seen k) := by
  have waits := fair.loop.until (Q := fun _ => False)
    (P := fun m => P m ∧ (path.state m).loop = (path.state n).loop) ?_ ?_
  · obtain ⟨k, later, ⟨⟨holds, same⟩, taken⟩ | none⟩ := waits n ⟨now, rfl⟩
    · obtain ⟨_, idle⟩ | went := runtime_loop_at path k
      · exact absurd taken idle
      · exact ⟨k, later, holds, same, went⟩
    · exact none.elim
  · rintro m ⟨holds, same⟩ idle
    obtain ⟨still, _⟩ | ⟨step, taken, _⟩ := runtime_loop_at path m
    · exact .inl ⟨stays m holds still, still.trans same⟩
    · exact absurd ⟨_, ⟨step, rfl⟩, taken⟩ idle
  · rintro m ⟨_, same⟩
    exact Runtime.loop_isSome (same ▸ running)

/-- The event loop comes back to its head, or it ends. -/
theorem Runtime.Fair.heads {P : Nat → Prop} (now : P n)
    (stays : ∀ m, P m → (path.state m).loop.phase ≠ .receiving ∨
      (path.state (m + 1)).loop = (path.state m).loop → P (m + 1)) :
    ∃ k, n ≤ k ∧ (Runtime.Ended path k ∨ P k ∧ (path.state k).loop.phase = .receiving) := by
  induction size : (path.state n).loop.toil using Nat.strong_induction_on generalizing n with
  | _ r ih =>
      by_cases head : (path.state n).loop.phase = .receiving
      · exact ⟨n, Nat.le_refl n, .inr ⟨now, head⟩⟩
      cases running : (path.state n).loop.phase.running with
      | false => exact ⟨n, Nat.le_refl n, .inl running⟩
      | true =>
          obtain ⟨k, later, holds, same, step, _, _, went⟩ := fair.loops now running
            fun m holds still => stays m holds (.inr still)
          have inside : (path.state k).loop.phase ≠ .receiving := same ▸ head
          obtain ended | less := (LoopState.step_cases went).toils inside
          · exact ⟨k + 1, Nat.le_succ_of_le later, .inl ended⟩
          · rw [same, size] at less
            obtain ⟨l, last, done⟩ := ih _ less (stays k holds (.inl inside)) rfl
            exact ⟨l, later.trans (Nat.le_of_succ_le last), done⟩

/-- All actions that are sent will be received, unless the event loop ends. -/
theorem Runtime.Fair.receives {action : Action} (waits : action ∈ (path.state n).actions) :
    ∃ k, n ≤ k ∧ (action ∈ intake (path.seen k) ∨ Runtime.Ended path k) := by
  refine (actionConveyor path).delivers (n := n) (b := action) ?_ waits
  intro n some
  by_contra never
  push Not at never
  have wait (m : Nat) (later : n ≤ m) : (path.state m).actions ≠ [] :=
    (actionConveyor path).idle some never later
  obtain ⟨k, later, ended | ⟨_, head⟩⟩ := fair.heads (P := fun _ => True) trivial (n := n)
    fun _ _ _ => trivial
  · exact (never k later).2 ended
  · have running : (path.state k).loop.phase.running = true := by rw [head]; rfl
    obtain ⟨l, after, _, same, step, _, offered, went⟩ :=
      fair.loops (P := fun _ => True) trivial running fun _ _ _ => trivial
    have at_head : (path.state l).loop.phase = .receiving := same ▸ head
    have idle : intake (path.seen l) = [] := (never l (later.trans after)).1
    have beyond := (never (l + 1) (Nat.le_succ_of_le (later.trans after))).2
    generalize path.seen l = seen at idle went
    generalize landed : (path.state (l + 1)).loop = loop at went
    cases LoopState.step_cases went with
    | crashed | unsent => exact beyond (by rw [Runtime.Ended, landed]; rfl)
    | received =>
        rw [intake_shows] at idle
        cases idle
    | timeout => exact wait l (later.trans after) (by simpa [offers] using offered)
    | clock reading => cases at_head.symm.trans reading
    | release releasing | tick _ _ releasing => cases at_head.symm.trans releasing

/-- An action that is put on the channel waits until it is received or the event loop ends. -/
theorem Runtime.Fair.receives_posted {action : Action} (posted : action ∈ posts (path.seen n)) :
    ∃ k, n ≤ k ∧ (action ∈ intake (path.seen k) ∨ Runtime.Ended path k) ∧
      ∀ m, n < m → m < k → action ∈ (path.state m).actions := by
  by_cases ended : Runtime.Ended path (n + 1)
  · exact ⟨n + 1, Nat.le_succ n, .inr ended, fun m after early => by omega⟩
  · obtain now | waits := (actionConveyor path).waits_or_taken ended posted
    · exact ⟨n, Nat.le_refl n, .inl now, fun m after early => by omega⟩
    · obtain ⟨k, later, done, before⟩ := (actionConveyor path).until_taken waits
        (fair.receives waits)
      exact ⟨k, (Nat.le_succ n).trans later, done, before⟩

end Loop

/-! ## Paths that come to rest -/

/-- A worker loop that has ended does not step. -/
theorem Transition.worker_running {s t : Runtime} {index : Nat} {label : WorkerLabel}
    {seen : List Obs} (transition : Transition s (.worker index label) t seen) :
    s.eventsConnected = true := by
  cases transition with
  | posted calls | unposted calls =>
      cases calls with
      | actor known busy => exact connected_of_known known (Stage.running_of_callback busy)
  | recorded known busy => exact connected_of_known known (Stage.running_of_callback busy)
  | worker known move => exact connected_of_known known move.running

theorem Transition.loop_running {s t : Runtime} {label : LoopLabel} {seen : List Obs}
    (transition : Transition s (.loop label) t seen) : s.loop.phase.running = true := by
  cases transition with
  | posted calls | unposted calls => cases calls
  | loop _ taken | crashed _ taken => exact (LoopState.step_move taken).running

/-- A run to the end of all loops is fair. -/
theorem Runtime.fair_of_done {labels : List Label}
    (follows : (runtimeMachine config name host start).Follows labels)
    (ceased : ((runtimeMachine config name host start).after labels
      labels.length).loop.phase.running = false)
    (alone : ((runtimeMachine config name host start).after labels labels.length).eventsConnected
      = false)
    (returned : ((runtimeMachine config name host start).after labels labels.length).job
      = .returned) :
    Runtime.Fair (Machine.restingPath follows) := by
  generalize last : (runtimeMachine config name host start).after labels labels.length = s at *
  have none {A : Label → Prop} (never : ∀ label t seen, A label → ¬ Transition s label t seen) :
      (Machine.restingPath follows).WeaklyFair A := by
    apply Machine.restingPath_fair
    intro label own
    rw [last]
    by_contra moves
    obtain ⟨⟨t, seen⟩, taken⟩ := Option.ne_none_iff_exists'.mp moves
    exact never label t seen own (Runtime.step_transition taken)
  have idle {index : Nat} {label : WorkerLabel} {t : Runtime} {seen : List Obs} :
      ¬ Transition s (.worker index label) t seen := fun transition => by
    rw [transition.worker_running] at alone
    cases alone
  refine ⟨none ?_, fun index => none ?_, fun index => none ?_, none ?_⟩
  · rintro _ t seen ⟨step, rfl⟩ transition
    rw [transition.loop_running] at ceased
    cases ceased
  · rintro _ t seen rfl
    exact idle
  · rintro _ t seen (rfl | ⟨ok, rfl⟩)
    · exact idle
    · exact idle
  · have past : s.closing = false := by simp [closing, returned]
    rintro _ t seen (rfl | rfl | rfl) transition
    · cases transition with
      | posted calls | unposted calls => cases calls
      | announced closing | unannounced closing => cases past.symm.trans closing
    · cases transition with
      | posted calls | unposted calls => cases calls
      | drained closing => cases past.symm.trans closing
    · cases transition with
      | posted calls | unposted calls => cases calls
      | finished closing => cases past.symm.trans closing

/-- A callback panics. -/
def Label.panics : Label → Bool
  | .worker _ (.finish false) => true
  | _ => false

/-- A run in which nothing panics is steady. -/
theorem Runtime.steady_of_calm {labels : List Label}
    (follows : (runtimeMachine config name host start).Follows labels)
    (calm : ∀ label ∈ labels, label.panics = false) :
    (Machine.restingPath follows).Meets Runtime.Steady := by
  apply Machine.restingPath_meets
  intro label mem s _
  have quiet := calm label mem
  simp only [Steady, unwinds]
  split
  · cases quiet
  · rfl

end Uppercut
