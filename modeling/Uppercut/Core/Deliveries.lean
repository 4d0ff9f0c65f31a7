import Uppercut.Core.Progress
import Uppercut.Core.WakeUp

/-!
# What is sent is received

On a fair path an envelope does not stay where it is: the event loop receives it, it moves up in
its mailbox whenever an instance of its tag comes back, and a worker takes its mail. Only the end
of the event loop or of the activation keeps it from `receive`.
-/

namespace Uppercut

section Step

variable {s t : Runtime} {label : Label} {seen : List Obs} {tag : Tag}

theorem Obs.received_mem {action : Action} {seen : List Obs} :
    action ∈ intake seen ↔ Obs.received action ∈ seen := by
  rw [intake, List.mem_filterMap]
  constructor
  · rintro ⟨x, mem, known⟩
    cases x <;> cases known
    exact mem
  · intro mem
    exact ⟨_, mem, rfl⟩

theorem queuedTo_intake (tag : Tag) (seen : List Obs) :
    seen.flatMap (Obs.queuedTo tag) = (intake seen).flatMap (Action.queuedTo tag) := by
  induction seen with
  | nil => rfl
  | cons x seen ih =>
      rw [List.flatMap_cons, ih]
      cases x <;> rfl

theorem mailedTo_output (tag : Tag) (seen : List Obs) :
    seen.flatMap (Obs.mailedTo tag) = (output seen).flatMap (Event.mailedTo tag) := by
  induction seen with
  | nil => rfl
  | cons x seen ih =>
      rw [List.flatMap_cons, ih]
      cases x <;> rfl

/-- The mailbox of an active tag is a queue between what is received and what is mailed. -/
theorem Transition.mailbox (transition : Transition s label t seen) (sound : s.Sound)
    (running : t.loop.phase.running = true) (active : tag ∈ t.scheduler.active) :
    (s.scheduler.address tag).mailbox ++ (intake seen).flatMap (Action.queuedTo tag) =
      (output seen).flatMap (Event.mailedTo tag) ++ (t.scheduler.address tag).mailbox := by
  cases transition with
  | posted | unposted | dropped | announced | unannounced | drained | finished =>
      exact List.append_nil _
  | recorded =>
      rw [(recordObs_channel ..).2, (recordObs_posts ..).2]
      exact List.append_nil _
  | worker _ move =>
      rw [move.takes.2, move.posts.2]
      exact List.append_nil _
  | crashed _ _ panicked => simp [panicked, Phase.running] at running
  | loop _ taken =>
      have move := LoopState.step_move taken
      by_cases old : tag ∈ s.scheduler.active
      · obtain ⟨_, _, law⟩ | ⟨gone, _⟩ := move.mailbox old
        · rw [queuedTo_intake, mailedTo_output] at law
          exact law
        · exact absurd active gone
      · obtain ⟨actor, rfl, empty⟩ := move.begins old active
        have none : (s.scheduler.address tag).mailbox = [] := by
          rw [Address.mailbox, Scheduler.address_queue, sound.wellFormed.queue_of_inactive old]
          rfl
        rw [none]
        exact empty.symm

end Step

variable {config : SchedulerConfig} {name host : String} {start : Nat}
variable {path : (runtimeMachine config name host start).Path}

/-- The event loop has ended, or it has no activation of the tag. -/
def Runtime.Away (path : (runtimeMachine config name host start).Path) (tag : Tag) (n : Nat) :
    Prop :=
  Runtime.Ended path n ∨ tag ∉ (path.state n).scheduler.active

/-- The envelope is passed to `receive` of an instance at `tag`, or it waits in the mailbox until
the event loop has no activation there. -/
def Runtime.PassesOn (path : (runtimeMachine config name host start).Path) (tag : Tag)
    (envelope : Envelope) (n : Nat) : Prop :=
  (∃ k, n ≤ k ∧ ∃ i actor, Obs.called i tag actor (.receive envelope) ∈ path.seen k) ∨
    ∃ k, n ≤ k ∧ Runtime.Away path tag k ∧ ∀ m, n < m → m < k →
      envelope ∈ ((path.state m).scheduler.address tag).mailbox

/-- The envelope waits in the action channel until the event loop receives it or ends. When it is
received, it is passed on. -/
def Runtime.Delivers (path : (runtimeMachine config name host start).Path) (tag : Tag)
    (envelope : Envelope) (n : Nat) : Prop :=
  ∃ k, n ≤ k ∧ (∀ m, n < m → m < k → Action.queue tag envelope ∈ (path.state m).actions) ∧
    (Runtime.Ended path k ∨
      Obs.received (.queue tag envelope) ∈ path.seen k ∧ Runtime.PassesOn path tag envelope k)

/-- The mailbox of a tag, until its activation ends. -/
def mailboxConveyor (meets : path.Meets Runtime.Steady) (tag : Tag) :
    Conveyor Envelope (Runtime.Away path tag) where
  waiting n := ((path.state n).scheduler.address tag).mailbox
  put n := (intake (path.seen n)).flatMap (Action.queuedTo tag)
  taken n := (output (path.seen n)).flatMap (Event.mailedTo tag)
  next := by
    intro n here
    obtain ⟨_, same, silent⟩ | ⟨label, _, transition⟩ := runtime_path_cases path n
    · rw [same, silent]
      exact List.append_nil _
    · obtain ⟨running, active⟩ := not_or.mp here
      exact transition.mailbox (runtime_sound (meets.run n))
        (by simpa [Runtime.Ended] using running) (not_not.mp active)

/-- Who takes a mail calls `receive` and owes the instance. -/
theorem Transition.calls {s t : Runtime} {label : Label} {seen : List Obs} {tag : Tag}
    {actor : Actor} {envelope : Envelope} (transition : Transition s label t seen)
    (taken : Event.mail tag actor envelope ∈ intakeEvents seen) :
    ∃ i w, Obs.called i tag actor (.receive envelope) ∈ seen ∧ t.workers[i]? = some w ∧
      w.stage.owed = some (tag, actor) := by
  cases transition with
  | recorded =>
      rw [(recordObs_channel ..).1] at taken
      cases taken
  | loop _ went | crashed _ went =>
      rw [(LoopState.step_move went).not_taken] at taken
      cases taken
  | @worker i _ _ _ _ w' _ _ known move =>
      rw [move.takes.1] at taken
      obtain rfl := Option.mem_toList.mp taken
      cases move
      refine ⟨i, _, by simp, List.getElem?_set_self (List.getElem?_eq_some_iff.mp known).1, rfl⟩
  | posted | unposted | dropped | announced | unannounced | drained | finished => cases taken

/-- An action is received by its arm. -/
theorem Transition.hears {s t : Runtime} {label : Label} {seen : List Obs} {action : Action}
    (transition : Transition s label t seen) (sound : s.Sound) (received : action ∈ intake seen) :
    ∃ connected event flow, label = .loop (.receive action connected) ∧
      Arm s.scheduler action t.scheduler event flow ∧ t.loop.phase = flow.phase ∧
      seen = s.scheduler.shows action event := by
  cases transition with
  | @recorded index call now _ tag actor =>
      rw [← intake_ofLoop, recordObs_ofLoop] at received
      cases received
  | worker _ move =>
      have none : intake seen = [] := by cases move <;> rfl
      rw [none] at received
      cases received
  | loop _ taken running =>
      obtain ⟨_, connected, event, flow, rfl, _, phase, arm, rfl⟩ | ⟨_, _, _, still, _⟩ :=
        (LoopState.step_move taken).cases running
      · rw [intake_shows] at received
        obtain rfl := List.mem_singleton.mp received
        exact ⟨connected, event, flow, rfl, arm, phase, rfl⟩
      · have aside := still _ (Obs.received_mem.mp received)
        cases aside
  | crashed _ taken panicked =>
      obtain ⟨rfl, _⟩ := (LoopState.step_move taken).panics sound.wellFormed panicked
      cases received
  | posted | unposted | dropped | announced | unannounced | drained | finished => cases received

/-- What is emitted waits for a worker. -/
theorem Transition.hands_out {s t : Runtime} {label : Label} {seen : List Obs} {event : Event}
    (transition : Transition s label t seen) (sound : s.Sound) (emitted : event ∈ output seen) :
    event ∈ t.events := by
  cases transition with
  | recorded =>
      rw [(recordObs_channel ..).2] at emitted
      cases emitted
  | worker _ move =>
      rw [move.takes.2] at emitted
      cases emitted
  | crashed _ taken panicked =>
      obtain ⟨rfl, _⟩ := (LoopState.step_move taken).panics sound.wellFormed panicked
      cases emitted
  | loop | announced => exact List.mem_append_right _ emitted
  | posted | unposted | dropped | unannounced | drained | finished => cases emitted

section Paths

variable (fair : Runtime.Fair path) (meets : path.Meets Runtime.Steady)
variable (threads : 0 < config.actorWorkerThreads) {n : Nat} {tag : Tag} {envelope : Envelope}
include fair meets threads

/-- A mailed envelope is passed to `receive`. -/
theorem Runtime.Fair.calls {actor : Actor}
    (mailed : Event.mail tag actor envelope ∈ (path.state n).events) :
    ∃ k, n ≤ k ∧ ∃ i w, Obs.called i tag actor (.receive envelope) ∈ path.seen k ∧
      (path.state (k + 1)).workers[i]? = some w ∧ w.stage.owed = some (tag, actor) := by
  obtain ⟨k, later, taken⟩ := fair.takes_events meets threads mailed
  obtain ⟨_, _, silent⟩ | ⟨label, _, transition⟩ := runtime_path_cases path k
  · rw [silent] at taken
    cases taken
  · exact ⟨k, later, transition.calls taken⟩

/-- Whoever is on the way to `receive` or back from it comes back. -/
theorem Runtime.Fair.comes_back {token : Token} (away : token ∈ (path.state n).travelling)
    (out : token.place.inFlight = true) :
    ∃ k, n ≤ k ∧ ∃ ok, Action.return token.tag token.actor ok ∈ (path.state k).actions := by
  simp only [Runtime.travelling, List.mem_append, List.mem_filterMap] at away
  obtain (⟨event, mem, known⟩ | ⟨w, mem, known⟩) | ⟨action, mem, known⟩ := away
  · cases event with
    | mail =>
        cases known
        obtain ⟨k, later, i, w, _, known, owes⟩ := fair.calls meets threads mem
        obtain ⟨l, last, back⟩ := fair.answers meets known owes
        exact ⟨l + 1, by omega, back⟩
    | stop =>
        cases known
        cases out
    | shutdown => cases known
  · obtain ⟨i, at_i⟩ := List.mem_iff_getElem?.mp mem
    have owes : w.stage.owed = some (token.tag, token.actor) := by
      cases stage : w.stage <;> rw [stage] at known <;> cases known <;> first | rfl | cases out
    obtain ⟨k, later, back⟩ := fair.answers meets at_i owes
    exact ⟨k + 1, Nat.le_succ_of_le later, back⟩
  · cases action with
    | «return» _ _ ok =>
        cases known
        exact ⟨n, Nat.le_refl n, ok, mem⟩
    | spawn =>
        cases known
        cases out
    | queue | delay | stop | logs | metrics | shutdown => cases known

/-- No mailbox keeps its front for ever. -/
theorem Runtime.Fair.drains (waits : (mailboxConveyor meets tag).waiting n ≠ []) :
    ∃ k, n ≤ k ∧ ((mailboxConveyor meets tag).taken k ≠ [] ∨ Runtime.Away path tag k) := by
  by_contra never
  push Not at never
  have wait (m : Nat) (later : n ≤ m) : (mailboxConveyor meets tag).waiting m ≠ [] :=
    (mailboxConveyor meets tag).idle waits never later
  have here (m : Nat) (later : n ≤ m) : (path.state m).loop.phase.running = true ∧
      tag ∈ (path.state m).scheduler.active := by
    obtain ⟨running, active⟩ := not_or.mp (never m later).2
    exact ⟨by simpa [Runtime.Ended] using running, not_not.mp active⟩
  obtain ⟨running, active⟩ := here n (Nat.le_refl n)
  obtain ⟨envelope, mailbox, front⟩ := List.exists_cons_of_ne_nil waits
  have run : (runtimeMachine config name host start).Run Runtime.KeepsMails _ _ :=
    (meets.run n).mono fun _ steady =>
      ⟨by rw [steady]; simp, fun panics => by rw [steady] at panics; cases panics⟩
  have waiting : (path.state n).scheduler.queue tag = some (envelope :: mailbox) := by
    obtain ⟨queue, known⟩ := (runtime_sound run).wellFormed.queue_of_active active
    rw [known, ← front]
    simp [mailboxConveyor, Address.mailbox, known]
  obtain ⟨token, away, rfl, out⟩ :=
    (no_lost_wakeup run running active).2.2 envelope mailbox waiting
  obtain ⟨k, later, ok, back⟩ := fair.comes_back meets threads away out
  obtain ⟨l, last, received | ended⟩ := fair.receives back
  · have after := later.trans last
    obtain ⟨_, _, silent⟩ | ⟨label, _, transition⟩ := runtime_path_cases path l
    · rw [silent] at received
      cases received
    · obtain ⟨_, event, flow, _, arm, _, shows⟩ :=
        transition.hears (runtime_sound (meets.run l)) received
      have some := wait l after
      have untaken := (never l after).1
      have before := (here l after).2
      have still := (here (l + 1) (Nat.le_succ_of_le after)).2
      simp only [mailboxConveyor, shows, output_shows] at some untaken
      generalize (path.state (l + 1)).scheduler = s' at arm still
      cases arm with
      | failed => simp at still
      | resumed => simp [Event.mailedTo] at untaken
      | rested _ none => simp [Address.mailbox, none] at some
      | stale inactive | spent inactive => exact inactive before
  · exact (never l (later.trans last)).2 (.inl ended)

/-- An envelope that is mailed is passed to `receive`. -/
theorem Runtime.Fair.mails
    (mailed : envelope ∈ (output (path.seen n)).flatMap (Event.mailedTo tag)) :
    ∃ k, n ≤ k ∧ ∃ i actor, Obs.called i tag actor (.receive envelope) ∈ path.seen k := by
  obtain ⟨event, emitted, mailed⟩ := List.mem_flatMap.mp mailed
  obtain ⟨_, _, silent⟩ | ⟨label, _, transition⟩ := runtime_path_cases path n
  · rw [silent] at emitted
    cases emitted
  · have pending := transition.hands_out (runtime_sound (meets.run n)) emitted
    cases event with
    | mail tag' actor envelope' =>
        simp only [Event.mailedTo] at mailed
        split at mailed
        · obtain rfl := List.mem_singleton.mp mailed
          obtain ⟨l, last, i, _, called, _⟩ := fair.calls meets threads (‹tag' = tag› ▸ pending)
          exact ⟨l, (Nat.le_succ n).trans last, i, actor, called⟩
        · cases mailed
    | stop | shutdown => cases mailed

/-- An envelope that waits in its mailbox is passed to `receive`, or it waits until the
activation ends. -/
theorem Runtime.Fair.opens (waits : envelope ∈ ((path.state n).scheduler.address tag).mailbox) :
    (∃ k, n ≤ k ∧ ∃ i actor, Obs.called i tag actor (.receive envelope) ∈ path.seen k) ∨
      ∃ k, n ≤ k ∧ Runtime.Away path tag k ∧ ∀ m, n ≤ m → m < k →
        envelope ∈ ((path.state m).scheduler.address tag).mailbox := by
  have leaves := (mailboxConveyor meets tag).delivers (fun m some => fair.drains meets threads some)
    waits
  obtain ⟨k, later, taken | gone, before⟩ := (mailboxConveyor meets tag).until_taken waits leaves
  · obtain ⟨l, last, called⟩ := fair.mails meets threads taken
    exact .inl ⟨l, later.trans last, called⟩
  · exact .inr ⟨k, later, gone, before⟩

/-- A received envelope is passed on. -/
theorem Runtime.Fair.passes (received : Obs.received (.queue tag envelope) ∈ path.seen n) :
    Runtime.PassesOn path tag envelope n := by
  by_cases away : Runtime.Away path tag n
  · exact .inr ⟨n, Nat.le_refl n, away, fun m after early => by omega⟩
  by_cases gone : Runtime.Away path tag (n + 1)
  · exact .inr ⟨n + 1, Nat.le_succ n, gone, fun m after early => by omega⟩
  have queued : envelope ∈ (intake (path.seen n)).flatMap (Action.queuedTo tag) := by
    refine List.mem_flatMap.mpr ⟨.queue tag envelope, ?_, by simp [Action.queuedTo]⟩
    exact Obs.received_mem.mpr received
  obtain mailed | waits := (mailboxConveyor meets tag).waits_or_taken gone queued
  · exact .inl (fair.mails meets threads mailed)
  · obtain ⟨k, later, called⟩ | ⟨k, later, ended, before⟩ := fair.opens meets threads waits
    · exact .inl ⟨k, (Nat.le_succ n).trans later, called⟩
    · exact .inr ⟨k, (Nat.le_succ n).trans later, ended, before⟩

theorem Runtime.Fair.delivers (posted : Action.queue tag envelope ∈ posts (path.seen n)) :
    Runtime.Delivers path tag envelope n := by
  obtain ⟨k, later, received | ended, before⟩ := fair.receives_posted posted
  · have received := Obs.received_mem.mp received
    exact ⟨k, later, before, .inr ⟨received, fair.passes meets threads received⟩⟩
  · exact ⟨k, later, before, .inl ended⟩

end Paths

/-- **What is sent is received.** On every fair path on which no callback unwinds a worker loop,
an envelope that a thread or an actor has sent waits in the action channel until the event loop
receives it or ends. When it is received, it is passed to `receive` of an instance at its tag, or
it waits in the mailbox until the event loop ends or no instance is active there. -/
theorem eventually_received (fair : Runtime.Fair path) (meets : path.Meets Runtime.Steady)
    (threads : 0 < config.actorWorkerThreads) {n : Nat} {sender : Sender} {tag : Tag}
    {envelope : Envelope} (sent : Obs.sent sender (.queue tag envelope) ∈ path.seen n) :
    Runtime.Delivers path tag envelope n :=
  fair.delivers meets threads (List.mem_filterMap.mpr ⟨_, sent, rfl⟩)

/-- A thread shuts the runtime down when its envelope has been received. -/
def visit : List Label :=
  [Label.call 0 (.spawn "a") 0] ++ turn (.spawn "a" ⟨0⟩) ++
  [Label.call 0 (.send "a" (.of (.other 7))) 0] ++ turn (.queue "a" (letter 1 7)) ++
  [Label.worker 0 .take, .worker 0 (.finish true), .worker 0 .advance, .worker 0 .advance] ++
  turn (.return "a" ⟨0⟩ true) ++
  [Label.shutdown 0, .loop (.receive .shutdown true), .sendShutdown, .worker 0 .take, .finish]

theorem visit_follows : (runtimeMachine { SchedulerConfig.default with actorWorkerThreads := 1 }
    "app" "host" 0).Follows visit := by decide

theorem eventually_received_visit :
    Runtime.Delivers (Machine.restingPath visit_follows) "a" (letter 1 7) 4 ∧
      Obs.called 0 "a" ⟨0⟩ (.receive (letter 1 7)) ∈
        (Machine.restingPath visit_follows).seen 8 := by
  have fair := Runtime.fair_of_done visit_follows (by decide) (by decide) (by decide)
  have meets := Runtime.steady_of_calm visit_follows (by decide)
  have sent : Obs.sent (.thread 0) (.queue "a" (letter 1 7)) ∈
      (Machine.restingPath visit_follows).seen 4 := by decide
  exact ⟨eventually_received fair meets (by decide) sent, by decide⟩

/-! ## Delayed envelopes -/

/-- The readings of the clock pass every time. -/
def Runtime.ClockGoesOn (path : (runtimeMachine config name host start).Path) : Prop :=
  ∀ time, ∃ n, ∀ m now, n ≤ m → path.label m = some (.loop (.clock now)) → time ≤ now

/-- Only a failed return keeps the loop from reading the clock, and its activation ends. -/
theorem Arm.flow_cases {s s' : Scheduler} {action : Action} {event : Option Event} {flow : Flow}
    (arm : Arm s action s' event flow) :
    flow = .next ∨ flow = .break ∨ flow = .continue ∧ s'.active.card < s.active.card := by
  cases arm
  case failed active => exact .inr (.inr ⟨rfl, Finset.card_erase_lt_of_mem active⟩)
  case shutdown => exact .inr (.inl rfl)
  all_goals exact .inl rfl

/-- From its head the loop goes on to read the clock, or fewer tags are active. -/
theorem LoopMove.reads {phase phase' : Phase} {s s' : Scheduler} {label : LoopLabel}
    {seen : List Obs} (move : LoopMove phase s label phase' s' seen)
    (at_head : phase = .receiving) : phase'.running = false ∨ phase' = .reading ∨
      phase' = .receiving ∧ s'.active.card < s.active.card := by
  cases move with
  | crashed | unsent => exact .inl rfl
  | received _ arm =>
      obtain rfl | rfl | ⟨rfl, fewer⟩ := arm.flow_cases
      · exact .inr (.inl rfl)
      · exact .inl rfl
      · exact .inr (.inr ⟨rfl, fewer⟩)
  | timeout => exact .inr (.inl rfl)
  | clock reading => cases at_head.symm.trans reading
  | release releasing | tick _ _ releasing => cases at_head.symm.trans releasing

theorem LoopMove.clocks {phase phase' : Phase} {s s' : Scheduler} {label : LoopLabel}
    {seen : List Obs} (move : LoopMove phase s label phase' s' seen) (reading : phase = .reading) :
    ∃ now, label = .clock now ∧ phase' = .releasing (now + s.config.delayPrecision / 2) := by
  cases move with
  | crashed at_head | unsent at_head | received at_head | timeout at_head =>
      cases at_head.symm.trans reading
  | @clock now => exact ⟨now, rfl, rfl⟩
  | release releasing | tick _ _ releasing => cases reading.symm.trans releasing

/-- The release loop goes on as long as an entry is due. -/
theorem LoopMove.releases {phase phase' : Phase} {s s' : Scheduler} {label : LoopLabel}
    {seen : List Obs} {bound : Nat} {entry : Entry} (move : LoopMove phase s label phase' s' seen)
    (releasing : phase = .releasing bound) (pending : entry ∈ s.tasks) (due : entry.at ≤ bound) :
    phase' = .releasing bound ∧ s'.tasks.length < s.tasks.length := by
  cases move with
  | crashed at_head | unsent at_head | received at_head | timeout at_head =>
      cases at_head.symm.trans releasing
  | clock reading => cases reading.symm.trans releasing
  | @release index _ _ _ popped =>
      obtain ⟨short, _⟩ := List.getElem?_eq_some_iff.mp popped
      refine ⟨releasing, ?_⟩
      rw [List.length_eraseIdx_of_lt short]
      omega
  | tick _ _ releasing' done =>
      obtain rfl := Phase.releasing.inj (releasing.symm.trans releasing')
      rw [Scheduler.due_iff.mpr ⟨entry, pending, due⟩] at done
      cases done

/-- What is in the heap stays there until it is released. -/
theorem runtime_pending_at (path : (runtimeMachine config name host start).Path) {n : Nat}
    {entry : Entry} (pending : entry ∈ (path.state n).scheduler.tasks)
    (unreleased : Obs.released entry ∉ path.seen n) :
    entry ∈ (path.state (n + 1)).scheduler.tasks := by
  obtain ⟨_, same, _⟩ | ⟨label, _, transition⟩ := runtime_path_cases path n
  · rw [same]
    exact pending
  · obtain ⟨_, _, move⟩ | ⟨_, same, _⟩ := transition.of_loop
    · obtain ⟨_, grown, _⟩ | ⟨bound, other, _, shown, draws⟩ := move.heap
      · rw [grown]
        exact List.mem_append_left _ pending
      · obtain rfl | rest := List.mem_cons.mp (draws.perm.mem_iff.mp pending)
        · exact absurd (shown ▸ List.mem_cons_self) unreleased
        · exact rest
    · rw [Runtime.scheduler, same]
      exact pending

section Loop

variable (fair : Runtime.Fair path) {n : Nat}
include fair

/-- From its head the event loop comes to read the clock, or it ends. -/
theorem Runtime.Fair.reads_from (at_head : (path.state n).loop.phase = .receiving) :
    ∃ k, n ≤ k ∧ (Runtime.Ended path k ∨ (path.state k).loop.phase = .reading) := by
  induction size : (path.state n).scheduler.active.card using Nat.strong_induction_on
    generalizing n with
  | _ r ih =>
      have running : (path.state n).loop.phase.running = true := by rw [at_head]; rfl
      obtain ⟨k, later, _, same, step, _, _, went⟩ :=
        fair.loops (P := fun _ => True) trivial running fun _ _ _ => trivial
      have here : (path.state k).loop.phase = .receiving := same ▸ at_head
      have beyond := Nat.le_succ_of_le later
      obtain ended | reading | ⟨again, fewer⟩ := (LoopState.step_move went).reads here
      · exact ⟨k + 1, beyond, .inl ended⟩
      · exact ⟨k + 1, beyond, .inr reading⟩
      · rw [same] at fewer
        obtain ⟨l, last, done⟩ := ih _ (size ▸ fewer) again rfl
        exact ⟨l, beyond.trans last, done⟩

/-- The event loop comes to read the clock, or it ends. -/
theorem Runtime.Fair.reads (n : Nat) : ∃ k, n ≤ k ∧
    (Runtime.Ended path k ∨ (path.state k).loop.phase = .reading) := by
  obtain ⟨k, later, ended | ⟨_, at_head⟩⟩ := fair.heads (P := fun _ => True) trivial (n := n)
    fun _ _ _ => trivial
  · exact ⟨k, later, .inl ended⟩
  · obtain ⟨l, last, done⟩ := fair.reads_from at_head
    exact ⟨l, later.trans last, done⟩

/-- An entry that is due is released by the release loop. -/
theorem Runtime.Fair.releases {entry : Entry} {bound : Nat}
    (pending : entry ∈ (path.state n).scheduler.tasks) (due : entry.at ≤ bound)
    (releasing : (path.state n).loop.phase = .releasing bound) :
    ∃ k, n ≤ k ∧ Obs.released entry ∈ path.seen k := by
  induction size : (path.state n).scheduler.tasks.length using Nat.strong_induction_on
    generalizing n with
  | _ r ih =>
      have running : (path.state n).loop.phase.running = true := by rw [releasing]; rfl
      obtain ⟨k, later, _, same, step, _, _, went⟩ :=
        fair.loops (P := fun _ => True) trivial running fun _ _ _ => trivial
      by_cases now : Obs.released entry ∈ path.seen k
      · exact ⟨k, later, now⟩
      have here : (path.state k).loop.phase = .releasing bound := same ▸ releasing
      have still : entry ∈ (path.state k).scheduler.tasks := by
        rw [Runtime.scheduler, same]
        exact pending
      have next := runtime_pending_at path still now
      obtain ⟨again, fewer⟩ := (LoopState.step_move went).releases here still due
      rw [same] at fewer
      obtain ⟨l, last, done⟩ := ih _ (size ▸ fewer) next again rfl
      exact ⟨l, later.trans (Nat.le_of_succ_le last), done⟩

/-- An entry waits in the heap until it is released or the event loop ends. -/
theorem Runtime.Fair.expires (clock : Runtime.ClockGoesOn path) {entry : Entry}
    (pending : entry ∈ (path.state n).scheduler.tasks) :
    ∃ k, n ≤ k ∧ (Obs.released entry ∈ path.seen k ∨ Runtime.Ended path k) ∧
      ∀ m, n ≤ m → m < k → entry ∈ (path.state m).scheduler.tasks := by
  apply LeadsTo.exists_first pending
  · exact fun m here stays => .inl (runtime_pending_at path here fun now => stays (.inl now))
  by_contra never
  push Not at never
  have waits (m : Nat) (later : n ≤ m) : entry ∈ (path.state m).scheduler.tasks :=
    Nat.le_induction pending
      (fun m later here => runtime_pending_at path here (never m later).1) m later
  obtain ⟨late, passes⟩ := clock entry.at
  obtain ⟨k, later, ended | reading⟩ := fair.reads (max n late)
  · exact (never k ((Nat.le_max_left n late).trans later)).2 ended
  · have running : (path.state k).loop.phase.running = true := by rw [reading]; rfl
    obtain ⟨l, last, _, same, step, taken, _, went⟩ :=
      fair.loops (P := fun _ => True) trivial running fun _ _ _ => trivial
    have after := (Nat.le_max_left n late).trans (later.trans last)
    have here : (path.state l).loop.phase = .reading := same ▸ reading
    obtain ⟨now, rfl, releasing⟩ := (LoopState.step_move went).clocks here
    have time : entry.at ≤ now :=
      passes l now ((Nat.le_max_right n late).trans (later.trans last)) taken
    have pending := waits (l + 1) (Nat.le_succ_of_le after)
    obtain ⟨m, beyond, released⟩ := fair.releases pending (Nat.le_add_right_of_le time) releasing
    exact (never m (after.trans (Nat.le_of_succ_le beyond))).1 released

end Loop

/-- A received entry is put into the heap. -/
theorem runtime_keeps (meets : path.Meets Runtime.Steady) {n : Nat} {entry : Entry}
    (received : Obs.received (.delay entry) ∈ path.seen n) :
    entry ∈ (path.state (n + 1)).scheduler.tasks := by
  obtain ⟨_, _, silent⟩ | ⟨label, _, transition⟩ := runtime_path_cases path n
  · rw [silent] at received
    cases received
  · obtain ⟨_, _, _, _, arm, _⟩ :=
      transition.hears (runtime_sound (meets.run n)) (Obs.received_mem.mpr received)
    rw [arm.tasks]
    exact List.mem_append_right _ List.mem_cons_self

/-- The entry waits in the action channel until the event loop receives it, and in the heap until
it is released, unless the event loop ends. When it is released, its envelope is delivered. -/
def Runtime.Elapses (path : (runtimeMachine config name host start).Path) (entry : Entry)
    (n : Nat) : Prop :=
  ∃ k, n ≤ k ∧ (∀ m, n < m → m < k → Action.delay entry ∈ (path.state m).actions) ∧
    (Runtime.Ended path k ∨ Obs.received (.delay entry) ∈ path.seen k ∧
      ∃ l, k < l ∧ (∀ m, k < m → m < l → entry ∈ (path.state m).scheduler.tasks) ∧
        (Runtime.Ended path l ∨ Obs.released entry ∈ path.seen l ∧
          Runtime.Delivers path entry.tag entry.envelope l))

/-- **Delays come to their end.** On every fair path on which no callback unwinds a worker loop
and the clock goes on, a delayed envelope that a thread or an actor has sent is received and
released, unless the event loop ends, and then it is delivered like any other envelope. -/
theorem eventually_released (fair : Runtime.Fair path) (meets : path.Meets Runtime.Steady)
    (threads : 0 < config.actorWorkerThreads) (clock : Runtime.ClockGoesOn path) {n : Nat}
    {sender : Sender} {entry : Entry} (sent : Obs.sent sender (.delay entry) ∈ path.seen n) :
    Runtime.Elapses path entry n := by
  obtain ⟨k, later, received | ended, before⟩ :=
    fair.receives_posted (List.mem_filterMap.mpr ⟨_, sent, rfl⟩)
  · have received := Obs.received_mem.mp received
    refine ⟨k, later, before, .inr ⟨received, ?_⟩⟩
    obtain ⟨l, last, released | ended, inside⟩ := fair.expires clock (runtime_keeps meets received)
    · refine ⟨l, last, fun m after => inside m after, .inr ⟨released, ?_⟩⟩
      exact fair.delivers meets threads (List.mem_filterMap.mpr ⟨_, released, rfl⟩)
    · exact ⟨l, last, fun m after => inside m after, .inl ended⟩
  · exact ⟨k, later, before, .inl ended⟩

/-- A thread delays an envelope and shuts the runtime down when it has been received. -/
def reminder : List Label :=
  delaying [1000000] ++
  [Label.loop .timeout, .loop (.clock 1000000), .loop (.release 0), .loop (.tick 0 0)] ++
  turn (.queue "a" (letter 1 0)) ++
  [Label.worker 0 .take, .worker 0 (.finish true), .worker 0 .advance, .worker 0 .advance] ++
  turn (.return "a" ⟨0⟩ true) ++
  [Label.shutdown 0, .loop (.receive .shutdown true), .sendShutdown, .worker 0 .take, .finish]

theorem reminder_follows : (runtimeMachine { SchedulerConfig.default with actorWorkerThreads := 1 }
    "app" "host" 0).Follows reminder := by decide

set_option maxRecDepth 2000 in
theorem eventually_released_reminder :
    Runtime.Elapses (Machine.restingPath reminder_follows) (late 1000000 1) 1 ∧
      Obs.released (late 1000000 1) ∈ (Machine.restingPath reminder_follows).seen 10 ∧
      Obs.called 0 "a" ⟨0⟩ (.receive (letter 1 0)) ∈
        (Machine.restingPath reminder_follows).seen 15 := by
  have fair := Runtime.fair_of_done reminder_follows (by decide) (by decide) (by decide)
  have meets := Runtime.steady_of_calm reminder_follows (by decide)
  have clock : Runtime.ClockGoesOn (Machine.restingPath reminder_follows) := fun time =>
    ⟨reminder.length, fun m now past taken => by
      rw [show (Machine.restingPath reminder_follows).label m = none from
        List.getElem?_eq_none_iff.mpr past] at taken
      cases taken⟩
  have sent : Obs.sent (.thread 0) (.delay (late 1000000 1)) ∈
      (Machine.restingPath reminder_follows).seen 1 := by decide
  exact ⟨eventually_released fair meets (by decide) clock sent, by decide, by decide⟩

end Uppercut
