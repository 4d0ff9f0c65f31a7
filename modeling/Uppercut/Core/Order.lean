import Uppercut.Core.Stop
import Uppercut.Data.Lane

/-!
# Envelopes arrive in order and at most once

For one tag, the mails sent so far, the mailbox and the queue actions that wait in
the action channel form a lane: direct sends enter at its end, released entries join
it, and stops and failures lose envelopes. So mails are in the order of the sends
whatever the sender is.

Workers take events in the order in which they were sent, and an instance is at one
place at a time. Hence an instance has finished one envelope when the next one is
taken, no matter which worker takes it.
-/

namespace Uppercut

/-- The envelope that an action sets aside for `tag`. -/
def Action.delayedTo (tag : Tag) : Action → List Envelope
  | .delay entry => if entry.tag = tag then [entry.envelope] else []
  | _ => []

/-- The envelope of an entry for `tag`. -/
def Entry.envelopeTo (tag : Tag) (entry : Entry) : List Envelope :=
  if entry.tag = tag then [entry.envelope] else []

namespace Obs

/-- The envelope that a call sends directly to `tag`. -/
def pushedTo (tag : Tag) : Obs → List Envelope
  | .sent _ action => action.queuedTo tag
  | _ => []

/-- The envelope that a call sends to `tag` in either way. -/
def givenTo (tag : Tag) : Obs → List Envelope
  | .sent _ action => action.queuedTo tag ++ action.delayedTo tag
  | _ => []

/-- The envelope that is passed to `receive`, with the instance. -/
def receives? : Obs → Option (Tag × Actor × Envelope)
  | .called _ tag actor (.receive envelope) => some (tag, actor, envelope)
  | _ => none

end Obs

/-- The envelope that an event carries, with the instance. -/
def Event.mail? : Event → Option (Tag × Actor × Envelope)
  | .mail tag actor envelope => some (tag, actor, envelope)
  | _ => none

/-- The lane of a tag. -/
def Runtime.lane (tag : Tag) (s : Runtime) (h : List Obs) : Lane Envelope where
  line := (output h).flatMap (Event.mailedTo tag) ++ (s.scheduler.address tag).mailbox ++
    s.actions.flatMap (Action.queuedTo tag)
  aside := s.actions.flatMap (Action.delayedTo tag) ++
    s.scheduler.tasks.flatMap (Entry.envelopeTo tag)
  direct := h.flatMap (Obs.pushedTo tag)
  given := h.flatMap (Obs.givenTo tag)
  bound := s.fresh

section Arm

variable {s s' : Scheduler} {action : Action} {event : Option Event} {flow : Flow} {tag : Tag}

theorem mailedTo_of_ne {event : Option Event}
    (other : ∀ actor envelope, event ≠ some (.mail tag actor envelope)) :
    event.toList.flatMap (Event.mailedTo tag) = [] := by
  cases event with
  | none => rfl
  | some event =>
      cases event with
      | mail tag' actor envelope =>
          have ne : tag' ≠ tag := fun eq => other actor envelope (by rw [eq])
          simp [Event.mailedTo, ne]
      | stop | shutdown => rfl

/-- An arm passes the oldest envelopes on, or it drops them. -/
theorem Arm.line (arm : Arm s action s' event flow) (wf : s.WellFormed) (tag : Tag) :
    (event.toList.flatMap (Event.mailedTo tag) ++ (s'.address tag).mailbox).Sublist
      ((s.address tag).mailbox ++ action.queuedTo tag) := by
  by_cases kept : tag ∈ s.active ∧ tag ∈ s'.active
  · rw [arm.mailbox kept.1 kept.2]
  · have unmailed : event.toList.flatMap (Event.mailedTo tag) = [] := by
      apply mailedTo_of_ne
      intro actor envelope eq
      subst eq
      obtain ⟨active, same, _⟩ := arm.mail
      exact kept ⟨active, same ▸ active⟩
    have empty : (s'.address tag).mailbox = [] := by
      by_cases still : tag ∈ s'.active
      · obtain ⟨_, _, empty, _⟩ := arm.begins (fun active => kept ⟨active, still⟩) still
        exact empty
      · simp [Address.mailbox, (arm.wellFormed wf).queue_of_inactive still]
    rw [unmailed, empty]
    exact List.nil_sublist _

/-- A delayed entry moves from the action to the heap. -/
theorem Arm.aside (arm : Arm s action s' event flow) (tag : Tag) :
    (s'.tasks.flatMap (Entry.envelopeTo tag)).Perm
      (action.delayedTo tag ++ s.tasks.flatMap (Entry.envelopeTo tag)) := by
  cases arm
  case delayed entry =>
    rw [List.flatMap_append]
    apply List.perm_append_comm.trans
    simp [Action.delayedTo, Entry.envelopeTo]
  all_goals rfl

end Arm

/-- What a step of the event loop that does not receive an action does to a lane: a
released entry leaves the heap for the action channel. -/
theorem LoopMove.release_lane {phase phase' : Phase} {s s' : Scheduler} {label : LoopLabel}
    {seen : List Obs} (move : LoopMove phase s label phase' s' seen) (runs : phase' ≠ .panicked)
    (unread : ∀ action connected, label ≠ .receive action connected) (tag : Tag) :
    s'.address tag = s.address tag ∧
      (seen.filterMap Obs.requeued?).flatMap (Action.delayedTo tag) = [] ∧
      ((seen.filterMap Obs.requeued?).flatMap (Action.queuedTo tag) = [] ∧
          (s'.tasks.flatMap (Entry.envelopeTo tag)).Subperm
            (s.tasks.flatMap (Entry.envelopeTo tag)) ∨
        ∃ envelope, (seen.filterMap Obs.requeued?).flatMap (Action.queuedTo tag) = [envelope] ∧
          (s.tasks.flatMap (Entry.envelopeTo tag)).Perm
            (envelope :: s'.tasks.flatMap (Entry.envelopeTo tag))) := by
  cases move with
  | crashed | unsent => exact absurd rfl runs
  | received => exact absurd rfl (unread _ _)
  | timeout | clock => exact ⟨rfl, rfl, .inl ⟨rfl, .refl _⟩⟩
  | tick => exact ⟨rfl, rfl, .inl ⟨rfl, .refl _⟩⟩
  | @release index _ entry _ popped =>
      refine ⟨rfl, rfl, ?_⟩
      have split : s.tasks.Perm (entry :: s.tasks.eraseIdx index) := by
        obtain ⟨bound, rfl⟩ := List.getElem?_eq_some_iff.mp popped
        rw [List.eraseIdx_eq_take_drop_succ]
        calc s.tasks.Perm (s.tasks.take index ++ s.tasks.drop index) := by
              rw [List.take_append_drop]
          _ = s.tasks.take index ++ s.tasks[index] :: s.tasks.drop (index + 1) := by
              rw [List.drop_eq_getElem_cons bound]
          List.Perm _ _ := List.perm_middle
      have pieces := split.flatMap_right (Entry.envelopeTo tag)
      by_cases own : entry.tag = tag
      · refine .inr ⟨entry.envelope, by simp [Obs.requeued?, Action.queuedTo, own], ?_⟩
        simpa [Entry.envelopeTo, own] using pieces
      · refine .inl ⟨by simp [Obs.requeued?, Action.queuedTo, own], ?_⟩
        simpa [Entry.envelopeTo, own] using pieces.symm.subperm

variable {s t : Runtime} {label : Label} {h seen : List Obs}

/-- A call stamps the envelope that it sends. -/
theorem Runtime.Calls.stamp {sender : Sender} {action : Action}
    (calls : s.Calls label sender action) :
    (∃ tag envelope, action = .queue tag envelope ∧ envelope.stamp = s.fresh) ∨
    (∃ entry, action = .delay entry ∧ entry.envelope.stamp = s.fresh) ∨
    ∀ tag, action.queuedTo tag = [] ∧ action.delayedTo tag = [] := by
  have adjusted (address : String) (envelope : Envelope) :
      (adjustRemoteAddress address { envelope with stamp := s.fresh }).2.stamp = s.fresh := by
    simp only [adjustRemoteAddress]
    split <;> rfl
  cases calls with
  | shutdown => exact .inr (.inr fun tag => ⟨rfl, rfl⟩)
  | thread _ sends | actor _ _ sends =>
      cases ‹Call› with
      | send address envelope =>
          cases sends
          exact .inl ⟨_, _, rfl, adjusted address envelope⟩
      | delay address envelope duration =>
          cases sends
          exact .inr (.inl ⟨_, rfl, adjusted address envelope⟩)
      | spawn | stop =>
          cases sends
          exact .inr (.inr fun tag => ⟨rfl, rfl⟩)
      | log | metric => cases sends

/-- A step that shows no send and keeps actions, mails, mailbox and heap for the tag. -/
theorem lane_same (tag : Tag) (loop : t.loop = s.loop) (fresh : s.fresh ≤ t.fresh)
    (queued : (t.actions.flatMap (Action.queuedTo tag)).Sublist
      (s.actions.flatMap (Action.queuedTo tag)))
    (delayed : (t.actions.flatMap (Action.delayedTo tag)).Sublist
      (s.actions.flatMap (Action.delayedTo tag)))
    (unmailed : (output seen).flatMap (Event.mailedTo tag) = [])
    (unsent : seen.flatMap (Obs.givenTo tag) = []) :
    Lane.Step Envelope.stamp (s.lane tag h) (t.lane tag (h ++ seen)) := by
  have direct : seen.flatMap (Obs.pushedTo tag) = [] := by
    rw [List.flatMap_eq_nil_iff] at unsent ⊢
    intro x mem
    have none := unsent x mem
    cases x <;> first | rfl | exact (List.append_eq_nil_iff.mp none).1
  refine .lose ?_ ?_ ?_ ?_ fresh
  · simp only [Runtime.lane, Runtime.scheduler, loop, output_append, List.flatMap_append, unmailed,
      List.append_nil]
    exact queued.append_left _
  · simp only [Runtime.lane, Runtime.scheduler, loop]
    exact (delayed.append_right _).subperm
  · simp [Runtime.lane, direct]
  · simp [Runtime.lane, unsent]

/-- What a worker sends carries no envelope. -/
theorem Worker.Move.unqueued {index : Nat} {connected : Bool} {w w' : Worker}
    {label : WorkerLabel} {input : Option Event} {action : Option Action}
    (move : w.Move index connected label input w' action seen) (tag : Tag) :
    action.toList.flatMap (Action.queuedTo tag) = [] ∧
      action.toList.flatMap (Action.delayedTo tag) = [] ∧ seen.flatMap (Obs.givenTo tag) = [] := by
  cases move
  case flushed next =>
    obtain ⟨_, rfl, _⟩ | ⟨_, _, rfl, _⟩ := Local.drain_some next <;> exact ⟨rfl, rfl, rfl⟩
  all_goals exact ⟨rfl, rfl, rfl⟩

theorem recordObs_given (index : Nat) (owner : Tag) (actor : Actor) (now : Nat) (call : Call)
    (tag : Tag) :
    (Runtime.recordObs index owner actor now call).flatMap (Obs.givenTo tag) = [] := by
  cases call <;> rfl

/-- The event loop makes no calls. -/
theorem LoopMove.not_given {phase phase' : Phase} {s s' : Scheduler} {label : LoopLabel}
    (move : LoopMove phase s label phase' s' seen) (tag : Tag) :
    seen.flatMap (Obs.givenTo tag) = [] ∧ seen.flatMap (Obs.pushedTo tag) = [] := by
  constructor
  · rw [List.flatMap_eq_nil_iff]
    intro x mem
    cases x <;> first | rfl | exact absurd rfl (move.shown _ mem)
  · rw [List.flatMap_eq_nil_iff]
    intro x mem
    cases x <;> first | rfl | exact absurd rfl (move.shown _ mem)

/-- A call that sends an envelope to the tag adds it to the lane. -/
theorem Runtime.Calls.lane {sender : Sender} {action : Action} {handle : Bool}
    (calls : s.Calls label sender action) (tag : Tag) (h : List Obs) :
    Lane.Step Envelope.stamp (s.lane tag h)
      (Runtime.lane tag
        { s with actions := s.actions ++ [action], fresh := s.fresh + 1, handle := handle }
        (h ++ [.sent sender action])) := by
  obtain ⟨owner, envelope, rfl, fresh⟩ | ⟨entry, rfl, fresh⟩ | other := calls.stamp
  · by_cases own : owner = tag
    · subst own
      refine .push envelope fresh ?_ ?_ ?_ ?_ rfl
      · simp [Runtime.lane, Action.queuedTo, output, Obs.emitted?]
      · simp [Runtime.lane, Action.delayedTo]
      · simp [Runtime.lane, Obs.pushedTo, Action.queuedTo]
      · simp [Runtime.lane, Obs.givenTo, Action.queuedTo, Action.delayedTo]
    · refine lane_same tag rfl (Nat.le_succ _) ?_ ?_ rfl ?_
      · simp [Action.queuedTo, own]
      · simp [Action.delayedTo]
      · simp [Obs.givenTo, Action.queuedTo, Action.delayedTo, own]
  · by_cases own : entry.tag = tag
    · refine .put entry.envelope fresh ?_ ?_ ?_ ?_ rfl
      · simp [Runtime.lane, Action.queuedTo, output, Obs.emitted?]
      · simp [Runtime.lane, Action.delayedTo, own]
      · simp [Runtime.lane, Obs.pushedTo, Action.queuedTo]
      · simp [Runtime.lane, Obs.givenTo, Action.queuedTo, Action.delayedTo, own]
    · refine lane_same tag rfl (Nat.le_succ _) ?_ ?_ rfl ?_
      · simp [Action.queuedTo]
      · simp [Action.delayedTo, own]
      · simp [Obs.givenTo, Action.queuedTo, Action.delayedTo, own]
  · obtain ⟨queued, delayed⟩ := other tag
    refine lane_same tag rfl (Nat.le_succ _) ?_ ?_ rfl ?_
    · simp [queued]
    · simp [delayed]
    · simp [Obs.givenTo, queued, delayed]

section Loop

variable {loop : LoopState} {tag : Tag}
variable (given : seen.flatMap (Obs.givenTo tag) = [])
  (pushed : seen.flatMap (Obs.pushedTo tag) = [])
include given pushed

/-- A received action leaves the lane or moves on in it. -/
theorem Arm.lane {action : Action} {event : Option Event} {flow : Flow} {actions : List Action}
    (arm : Arm s.scheduler action loop.loop.scheduler event flow) (sound : s.Sound)
    (head : s.actions = action :: actions)
    (shown : seen = s.scheduler.shows action event) :
    Lane.Step Envelope.stamp (s.lane tag h)
      (Runtime.lane tag
        { s with
          loop := loop
          events := s.events ++ seen.filterMap Obs.emitted?
          actions := s.actions.tail ++ seen.filterMap Obs.requeued? } (h ++ seen)) := by
  have requeued : seen.filterMap Obs.requeued? = [] := by
    rw [shown, requeued_shows]
  have sent : output (h ++ seen) = output h ++ event.toList := by
    rw [output_append, shown, output_shows]
  refine .lose ?_ ?_ ?_ ?_ le_rfl
  · have line := (arm.line sound.wellFormed tag).append_left
      ((output h).flatMap (Event.mailedTo tag))
    have rest := line.append_right (actions.flatMap (Action.queuedTo tag))
    simp only [Runtime.lane, Runtime.scheduler, head, requeued, sent, List.tail_cons,
      List.append_nil, List.flatMap_append, List.flatMap_cons, List.append_assoc] at rest ⊢
    exact rest
  · have aside := (arm.aside tag).append_left (actions.flatMap (Action.delayedTo tag))
    simp only [Runtime.lane, Runtime.scheduler, head, requeued, List.tail_cons, List.append_nil,
      List.flatMap_cons]
    refine (aside.trans ?_).subperm
    rw [← List.append_assoc]
    exact List.perm_append_comm.append_right _
  · simp only [Runtime.lane, List.flatMap_append, pushed, List.append_nil]
  · simp only [Runtime.lane, List.flatMap_append, given, List.append_nil]

/-- A released entry joins the lane; nothing else in the rest of an iteration changes it. -/
theorem LoopMove.lane {loopLabel : LoopLabel}
    (move : LoopMove s.loop.phase s.scheduler loopLabel loop.phase loop.loop.scheduler seen)
    (runs : loop.phase ≠ .panicked)
    (unread : ∀ action connected, loopLabel ≠ .receive action connected)
    (silent : output seen = []) :
    Lane.Step Envelope.stamp (s.lane tag h)
      (Runtime.lane tag
        { s with
          loop := loop
          events := s.events ++ seen.filterMap Obs.emitted?
          actions := s.actions ++ seen.filterMap Obs.requeued? } (h ++ seen)) := by
  obtain ⟨same, undelayed, outcome⟩ := move.release_lane runs unread tag
  have same : loop.loop.scheduler.address tag = s.loop.loop.scheduler.address tag := same
  obtain ⟨unqueued, waits⟩ | ⟨envelope, joined, waits⟩ := outcome
  · refine .lose ?_ ?_ ?_ ?_ le_rfl
    · simp only [Runtime.lane, Runtime.scheduler, output_append, silent, same, unqueued,
        List.flatMap_append, List.append_nil]
      exact .refl _
    · simp only [Runtime.lane, Runtime.scheduler, undelayed, List.flatMap_append, List.append_nil]
      exact (List.Subperm.refl _).append waits
    · simp only [Runtime.lane, List.flatMap_append, pushed, List.append_nil]
    · simp only [Runtime.lane, List.flatMap_append, given, List.append_nil]
  · refine .join envelope ?_ ?_ ?_ ?_ rfl
    · simp only [Runtime.lane, Runtime.scheduler, output_append, silent, same, joined,
        List.flatMap_append, List.append_nil, List.append_assoc]
    · simp only [Runtime.lane, Runtime.scheduler, undelayed, List.flatMap_append, List.append_nil]
      exact (waits.append_left _).trans List.perm_middle
    · simp only [Runtime.lane, List.flatMap_append, pushed, List.append_nil]
    · simp only [Runtime.lane, List.flatMap_append, given, List.append_nil]

end Loop

/-- Every step of the runtime is a step of each lane. -/
theorem Transition.lane (transition : Transition s label t seen) (sound : s.Sound) (tag : Tag)
    (h : List Obs) : Lane.Step Envelope.stamp (s.lane tag h) (t.lane tag (h ++ seen)) := by
  cases transition with
  | posted calls => exact calls.lane tag h
  | unposted => exact lane_same tag rfl (Nat.le_succ _) (.refl _) (.refl _) rfl rfl
  | dropped | finished => exact lane_same tag rfl le_rfl (.refl _) (.refl _) rfl rfl
  | announced => exact lane_same tag rfl le_rfl (.refl _) (.refl _) rfl rfl
  | recorded =>
      refine lane_same tag rfl le_rfl (.refl _) (.refl _) ?_ (recordObs_given ..)
      rw [(recordObs_channel ..).2]
      rfl
  | worker known move =>
      obtain ⟨queued, delayed, given⟩ := move.unqueued tag
      refine lane_same tag rfl le_rfl ?_ ?_ ?_ given
      · simp [queued]
      · simp [delayed]
      · rw [move.takes.2]
        rfl
  | @loop label loop seen offered taken running =>
      have move := LoopState.step_move taken
      obtain ⟨given, pushed⟩ := move.not_given tag
      obtain ⟨action, connected, event, flow, rfl, _, _, arm, shown⟩ | ⟨unread, _, _, _, silent⟩ :=
        move.cases running
      · obtain ⟨actions, head⟩ := (Runtime.offers_receive offered).1
        exact arm.lane given pushed sound head shown
      · rw [Runtime.unread_eq unread]
        exact move.lane given pushed running unread silent
  | crashed offered taken panicked =>
      obtain ⟨rfl, same, _⟩ := (LoopState.step_move taken).panics sound.wellFormed panicked
      refine .lose ?_ ?_ (by simp [Runtime.lane]) (by simp [Runtime.lane]) le_rfl
      · simp [Runtime.lane, Runtime.scheduler, same]
      · simpa [Runtime.lane, Runtime.scheduler, same] using
          (List.sublist_append_right _ _).subperm
  | unannounced => exact lane_same tag rfl le_rfl (List.nil_sublist _) (List.nil_sublist _) rfl rfl
  | drained =>
      refine lane_same tag rfl le_rfl ?_ ?_ rfl rfl
      all_goals
        simp only
        cases s.actions <;> simp

variable {config : SchedulerConfig} {name host : String} {start : Nat}
variable {allowed : Runtime → List Obs → Label → Prop}

theorem runtime_lane (run : (runtimeMachine config name host start).Run allowed s h) (tag : Tag) :
    (s.lane tag h).Ordered Envelope.stamp := by
  induction run with
  | start => exact Lane.ordered_empty
  | step before _ taken ih =>
      exact ih.step ((Runtime.step_transition taken).lane (runtime_sound before) tag _)

/-- Only a call gives envelopes to a lane. -/
theorem Transition.given (transition : Transition s label t seen) :
    (∀ tag, seen.flatMap (Obs.givenTo tag) = []) ∨
      ∃ sender action, seen = [.sent sender action] ∧ s.Calls label sender action := by
  cases transition with
  | posted calls => exact .inr ⟨_, _, rfl, calls⟩
  | recorded => exact .inl fun tag => recordObs_given ..
  | worker _ move => exact .inl fun tag => (move.unqueued tag).2.2
  | loop _ taken | crashed _ taken =>
      exact .inl fun tag => ((LoopState.step_move taken).not_given tag).1
  | unposted | dropped | announced | unannounced | drained | finished => exact .inl fun _ => rfl

theorem mem_givenTo_sent {tag : Tag} {sender : Sender} {action : Action} {envelope : Envelope}
    (mem : envelope ∈ Obs.givenTo tag (.sent sender action)) :
    action = .queue tag envelope ∨ ∃ entry, action = .delay entry ∧ entry.tag = tag ∧
      entry.envelope = envelope := by
  cases action <;> simp [Obs.givenTo, Action.queuedTo, Action.delayedTo] at mem
  case queue owner _ =>
    obtain ⟨rfl, rfl⟩ := mem
    exact .inl rfl
  case delay entry =>
    exact .inr ⟨entry, rfl, mem.1, mem.2.symm⟩

/-- A stamp belongs to one tag. -/
theorem given_tag (run : (runtimeMachine config name host start).Run allowed s h)
    {tag tag' : Tag} {e e' : Envelope} (mem : e ∈ h.flatMap (Obs.givenTo tag))
    (mem' : e' ∈ h.flatMap (Obs.givenTo tag')) (same : e.stamp = e'.stamp) : tag = tag' := by
  induction run with
  | start => simp at mem
  | @step s t h label seen before _ taken ih =>
      simp only [List.flatMap_append, List.mem_append] at mem mem'
      obtain none | ⟨sender, action, rfl, calls⟩ := (Runtime.step_transition taken).given
      · simp only [none, List.not_mem_nil, or_false] at mem mem'
        exact ih mem mem'
      · have old {tag : Tag} {e : Envelope} (mem : e ∈ h.flatMap (Obs.givenTo tag)) :
            e.stamp < s.fresh := (runtime_lane before tag).old e mem
        have new {tag : Tag} {e : Envelope}
            (mem : e ∈ [Obs.sent sender action].flatMap (Obs.givenTo tag)) :
            e.stamp = s.fresh ∧ (action = .queue tag e ∨ ∃ entry, action = .delay entry ∧
              entry.tag = tag ∧ entry.envelope = e) := by
          have origin := mem_givenTo_sent (by simpa using mem)
          refine ⟨?_, origin⟩
          obtain ⟨_, _, rfl, stamp⟩ | ⟨_, rfl, stamp⟩ | other := calls.stamp
          · obtain eq | ⟨_, eq, _⟩ := origin <;> cases eq
            exact stamp
          · obtain eq | ⟨_, eq, _, rfl⟩ := origin <;> cases eq
            exact stamp
          · simp [Obs.givenTo, other tag] at mem
        obtain mem | mem := mem <;> rcases mem' with mem' | mem'
        · exact ih mem mem'
        · have := old mem
          have := (new mem').1
          omega
        · have := old mem'
          have := (new mem).1
          omega
        · obtain rfl | ⟨_, rfl, rfl, _⟩ := (new mem).2 <;>
            obtain eq | ⟨_, eq, rfl, _⟩ := (new mem').2 <;> cases eq <;> rfl

/-- A worker passes on what it takes. -/
theorem Worker.Move.receives {index : Nat} {connected : Bool} {w w' : Worker}
    {label : WorkerLabel} {input : Option Event} {action : Option Action}
    (move : w.Move index connected label input w' action seen) :
    seen.filterMap Obs.receives? = (intakeEvents seen).filterMap Event.mail? := by
  cases move <;> rfl

theorem Transition.receives (transition : Transition s label t seen) :
    seen.filterMap Obs.receives? = (intakeEvents seen).filterMap Event.mail? := by
  cases transition with
  | worker _ move => exact move.receives
  | @recorded index call now _ tag actor => cases call <;> rfl
  | loop _ taken | crashed _ taken =>
      have move := LoopState.step_move taken
      rw [move.not_taken, List.filterMap_nil, List.filterMap_eq_nil_iff]
      intro x mem
      have shown := move.shown x mem
      cases x <;> first | rfl | exact absurd rfl shown
  | posted | unposted | dropped | announced | unannounced | drained | finished => rfl

/-- The envelopes passed to `receive` are the oldest ones that were mailed. -/
theorem received_front (run : (runtimeMachine config name host start).Run allowed s h) :
    h.filterMap Obs.receives? <+: (output h).filterMap Event.mail? := by
  have passed : h.filterMap Obs.receives? = (intakeEvents h).filterMap Event.mail? := by
    induction run with
    | start => rfl
    | step _ _ taken ih =>
        rw [List.filterMap_append, intakeEvents_append, List.filterMap_append, ih,
          (Runtime.step_transition taken).receives]
  obtain ⟨rest, split, _⟩ := runtime_events run
  rw [passed, split, List.filterMap_append]
  exact List.prefix_append _ _

theorem mailedTo_eq (tag : Tag) (events : List Event) :
    events.flatMap (Event.mailedTo tag) =
      (events.filterMap Event.mail?).filterMap fun m => if m.1 = tag then some m.2.2 else none := by
  induction events with
  | nil => rfl
  | cons event events ih =>
      cases event with
      | mail owner actor envelope =>
          by_cases own : owner = tag <;> simp [Event.mailedTo, Event.mail?, own, ih]
      | stop | shutdown => exact ih

/-- Two envelopes passed to `receive` under one tag are in the tag's lane in that order. -/
theorem received_line (run : (runtimeMachine config name host start).Run allowed s h)
    {tag : Tag} {a a' : Actor} {e e' : Envelope}
    (order : [(tag, a, e), (tag, a', e')].Sublist (h.filterMap Obs.receives?)) :
    [e, e'].Sublist (s.lane tag h).line := by
  have mails := (order.trans (received_front run).sublist).filterMap
    fun m => if m.1 = tag then some m.2.2 else none
  rw [← mailedTo_eq] at mails
  simp only [List.filterMap_cons, if_true, List.filterMap_nil] at mails
  apply mails.trans
  simp only [Runtime.lane, List.append_assoc]
  exact List.sublist_append_left _ _

/-- An envelope that was passed to `receive` is in its tag's lane. -/
theorem received_given (run : (runtimeMachine config name host start).Run allowed s h)
    {tag : Tag} {a : Actor} {e : Envelope} (mem : (tag, a, e) ∈ h.filterMap Obs.receives?) :
    e ∈ h.flatMap (Obs.givenTo tag) := by
  have mail := (received_front run).subset mem
  have line : e ∈ (output h).flatMap (Event.mailedTo tag) := by
    rw [mailedTo_eq]
    exact List.mem_filterMap.mpr ⟨_, mail, by simp⟩
  refine (runtime_lane run tag).given e (List.mem_append_left _ ?_)
  simp only [Runtime.lane, List.append_assoc]
  exact List.mem_append_left _ line

/-- No stamp is passed to `receive` twice. -/
theorem received_once (run : (runtimeMachine config name host start).Run allowed s h) :
    ((h.filterMap Obs.receives?).map fun m => m.2.2.stamp).Nodup := by
  refine List.pairwise_map.mpr (List.pairwise_of_forall_sublist ?_)
  rintro ⟨tag, a, e⟩ ⟨tag', a', e'⟩ order same
  have mem := received_given run (order.subset (by simp : (tag, a, e) ∈ _))
  have mem' := received_given run (order.subset (by simp : (tag', a', e') ∈ _))
  obtain rfl := given_tag run mem mem' same
  have line := received_line run order
  have once := (List.nodup_append.mp (List.map_append ▸ (runtime_lane run tag).once)).1
  exact (List.pairwise_map.mp once).forall_sublist line same

/-- Worker `i` is executing `receive` of this instance on this envelope. -/
def Runtime.Receiving (s : Runtime) (i : Nat) (tag : Tag) (actor : Actor)
    (envelope : Envelope) : Prop :=
  ∃ w, s.workers[i]? = some w ∧ w.stage = .receiving tag actor envelope

/-- What a step shows and does to the `receive` calls in progress. -/
theorem Worker.Move.receiving {index : Nat} {connected : Bool} {w w' : Worker}
    {label : WorkerLabel} {input : Option Event} {action : Option Action}
    (move : w.Move index connected label input w' action seen) (tag : Tag) (actor : Actor)
    (envelope : Envelope) :
    (Obs.called index tag actor (.receive envelope) ∈ seen →
      w'.stage = .receiving tag actor envelope) ∧
    (w.stage = .receiving tag actor envelope → w'.stage = .receiving tag actor envelope ∨
      ∃ ok, Obs.ended index tag actor (.receive envelope) ok ∈ seen) ∧
    ∀ i, i ≠ index → Obs.called i tag actor (.receive envelope) ∉ seen := by
  cases move
  case received =>
    refine ⟨by simp [eq_comm], by simp, fun i ne mem => ?_⟩
    simp only [List.mem_cons, reduceCtorEq, Obs.called.injEq, List.not_mem_nil, or_false,
      false_or] at mem
    exact ne mem.1
  case finished | failed =>
    refine ⟨by simp, ?_, by simp⟩
    rintro ⟨⟩
    exact .inr ⟨_, List.mem_cons_self⟩
  all_goals simp

/-- A worker's step ends its own `receive` call or leaves it in progress. -/
theorem Runtime.Receiving.set {index i : Nat} {w v : Worker} {tag : Tag} {actor : Actor}
    {envelope : Envelope} (receiving : s.Receiving i tag actor envelope)
    (known : s.workers[index]? = some w) (kept : t.workers = s.workers.set index v)
    (stays : w.stage = .receiving tag actor envelope → v.stage = .receiving tag actor envelope ∨
      ∃ ok, Obs.ended index tag actor (.receive envelope) ok ∈ seen) :
    t.Receiving i tag actor envelope ∨
      ∃ ok, Obs.ended i tag actor (.receive envelope) ok ∈ seen := by
  obtain ⟨w', here, running⟩ := receiving
  by_cases own : index = i
  · subst own
    obtain rfl := Option.some.inj (known.symm.trans here)
    apply (stays running).imp_left
    intro still
    refine ⟨v, ?_, still⟩
    rw [kept]
    exact List.getElem?_set_self (List.getElem?_eq_some_iff.mp known).1
  · refine .inl ⟨w', ?_, running⟩
    rw [kept, List.getElem?_set_ne own]
    exact here

/-- A `receive` call in progress goes on until its end is seen. -/
theorem Transition.receiving (transition : Transition s label t seen) {i : Nat} {tag : Tag}
    {actor : Actor} {envelope : Envelope} (receiving : s.Receiving i tag actor envelope) :
    t.Receiving i tag actor envelope ∨
      ∃ ok, Obs.ended i tag actor (.receive envelope) ok ∈ seen := by
  cases transition with
  | recorded known => exact receiving.set known rfl .inl
  | worker known move => exact receiving.set known rfl (move.receiving tag actor envelope).2.1
  | loop | crashed | posted | unposted | dropped | announced | unannounced | drained | finished =>
      exact .inl receiving

/-- A `receive` call that is entered is in progress. -/
theorem Transition.entered (transition : Transition s label t seen) {i : Nat} {tag : Tag}
    {actor : Actor} {envelope : Envelope}
    (entered : Obs.called i tag actor (.receive envelope) ∈ seen) :
    t.Receiving i tag actor envelope := by
  cases transition with
  | posted | unposted | dropped | announced | unannounced | drained | finished =>
      simp at entered
  | @recorded _ call => cases call <;> simp [Runtime.recordObs] at entered
  | loop _ went | crashed _ went => exact absurd rfl ((LoopState.step_move went).shown _ entered)
  | @worker index wl w input events w' output seen known move =>
      obtain ⟨enters, _, others⟩ := move.receiving tag actor envelope
      by_cases own : i = index
      · subst own
        exact ⟨w', List.getElem?_set_self (List.getElem?_eq_some_iff.mp known).1, enters entered⟩
      · exact absurd entered (others i own)

/-- Every `receive` call that was entered has ended or is still in progress. -/
theorem receive_ends (run : (runtimeMachine config name host start).Run allowed s h) {i : Nat}
    {tag : Tag} {actor : Actor} {envelope : Envelope}
    (entered : Obs.called i tag actor (.receive envelope) ∈ h) :
    (∃ ok, Obs.ended i tag actor (.receive envelope) ok ∈ h) ∨
      s.Receiving i tag actor envelope := by
  induction run with
  | start => cases entered
  | step before _ taken ih =>
      have transition := Runtime.step_transition taken
      obtain old | new := List.mem_append.mp entered
      · obtain ⟨ok, ended⟩ | running := ih old
        · exact .inl ⟨ok, List.mem_append_left _ ended⟩
        · obtain still | ⟨ok, ended⟩ := transition.receiving running
          · exact .inr still
          · exact .inl ⟨ok, List.mem_append_right _ ended⟩
      · exact .inr (transition.entered new)

/-- An instance that a worker holds is not in a mail. -/
theorem not_mailed_of_receiving (run : (runtimeMachine config name host start).Run allowed s h)
    {i : Nat} {tag : Tag} {actor : Actor} {envelope envelope' : Envelope}
    (running : s.Receiving i tag actor envelope) : Event.mail tag actor envelope' ∉ s.events := by
  intro waits
  obtain ⟨w, known, stage⟩ := running
  have placed := (admission tag actor).run run
  have once := admitted_once run tag actor
  have held := Tally.weight_le_total
    (fun w : Worker => weight tag (one actor Place.admitted) w.stage.token?)
    (List.mem_of_getElem? known)
  have mailed := Tally.weight_le_total
    (fun event => weight tag (one actor Place.admitted) (Event.token? event)) waits
  have own : weight tag (one actor Place.admitted) w.stage.token? = 1 := by
    simp [stage, Stage.token?, Place.admitted]
  have own' : weight tag (one actor Place.admitted)
      (Event.token? (.mail tag actor envelope')) = 1 := by
    simp [Event.token?, Place.admitted]
  simp only [own] at held
  simp only [own'] at mailed
  simp only [census] at placed
  omega

/-- Only a worker that takes a mail enters `receive`. -/
theorem Transition.enters (transition : Transition s label t seen) {i : Nat} {tag : Tag}
    {actor : Actor} {envelope : Envelope}
    (entered : Obs.called i tag actor (.receive envelope) ∈ seen) :
    seen = [.taken i (.mail tag actor envelope), .called i tag actor (.receive envelope)] ∧
      Event.mail tag actor envelope ∈ s.events := by
  cases transition with
  | @recorded index call now _ owner actor' =>
      cases call <;> simp [Runtime.recordObs] at entered
  | worker known move popped =>
      cases move <;> simp at entered
      case received =>
        obtain ⟨rfl, rfl, rfl, rfl⟩ := entered
        exact ⟨rfl, by simp [popped]⟩
  | loop _ taken | crashed _ taken =>
      exact absurd rfl ((LoopState.step_move taken).shown _ entered)
  | posted | unposted | dropped | announced | unannounced | drained | finished =>
      simp at entered

/-- When a worker enters `receive`, all earlier `receive` calls on the instance have ended. -/
theorem receive_alone (run : (runtimeMachine config name host start).Run allowed s h) :
    History.Always (fun before x => ∀ j tag actor e, x = .called j tag actor (.receive e) →
      ∀ i e', Obs.called i tag actor (.receive e') ∈ before →
        ∃ ok, Obs.ended i tag actor (.receive e') ok ∈ before) h := by
  induction run with
  | start => exact History.always_nil
  | @step s t h label seen before _ taken ih =>
      refine (History.always_append h seen).mpr ⟨ih, ?_⟩
      rintro front x back split j tag actor e rfl i e' entered
      have new : Obs.called j tag actor (.receive e) ∈ seen := by simp [split]
      obtain ⟨rfl, waits⟩ := (Runtime.step_transition taken).enters new
      have first : front = [.taken j (.mail tag actor e)] := by
        obtain _ | ⟨y, _ | ⟨z, rest⟩⟩ := front
        · simp at split
        · simp only [List.cons_append, List.nil_append, List.cons.injEq] at split
          rw [split.1]
        · simp at split
      subst first
      have old : Obs.called i tag actor (.receive e') ∈ h := by simpa using entered
      obtain ⟨ok, ended⟩ | running := receive_ends before old
      · exact ⟨ok, List.mem_append_left _ ended⟩
      · exact absurd waits (not_mailed_of_receiving before running)

/-- A direct send is given to the lane of its tag. -/
theorem sent_given {sender : Sender} {tag : Tag} {e : Envelope}
    (sent : Obs.sent sender (.queue tag e) ∈ h) : e ∈ h.flatMap (Obs.givenTo tag) :=
  List.mem_flatMap.mpr ⟨_, sent, by simp [Obs.givenTo, Action.queuedTo]⟩

/-- The worker that an envelope is received by, and the instance. -/
theorem mem_receives {i : Nat} {tag : Tag} {actor : Actor} {e : Envelope}
    (entered : Obs.called i tag actor (.receive e) ∈ h) :
    (tag, actor, e) ∈ h.filterMap Obs.receives? :=
  List.mem_filterMap.mpr ⟨_, entered, rfl⟩

/-- Two members of a list stand in it one before the other. -/
theorem sublist_pair_of_mem {α : Type} {l : List α} {a b : α} (ne : a ≠ b) (a_mem : a ∈ l)
    (b_mem : b ∈ l) : [a, b].Sublist l ∨ [b, a].Sublist l := by
  obtain ⟨front, back, rfl⟩ := List.append_of_mem a_mem
  obtain before | after := List.mem_append.mp b_mem
  · apply Or.inr
    exact (List.singleton_sublist.mpr before).append
      (List.singleton_sublist.mpr List.mem_cons_self)
  · refine .inl ((List.Sublist.cons_cons a ?_).trans (List.sublist_append_right front _))
    exact List.singleton_sublist.mpr ((List.mem_cons.mp after).resolve_left (Ne.symm ne))

/-- **Order and uniqueness.** If two envelopes were sent directly to the same tag, one
after the other, and one instance receives both, then it has finished the first one
when it starts with the second one, whoever sent them and whichever workers ran it.
No envelope is passed to `receive` twice. -/
theorem sends_in_order (run : (runtimeMachine config name host start).Reached s h) :
    (∀ sender tag owner owner' actor e₁ e₂ i j,
      [Obs.sent sender (.queue tag e₁), .sent sender (.queue tag e₂)].Sublist h →
      Obs.called i owner actor (.receive e₁) ∈ h → Obs.called j owner' actor (.receive e₂) ∈ h →
        ∃ ok, [Obs.ended i owner actor (.receive e₁) ok,
          .called j owner' actor (.receive e₂)].Sublist h) ∧
    ((h.filterMap Obs.receives?).map fun m => m.2.2.stamp).Nodup := by
  refine ⟨?_, received_once run⟩
  intro sender tag owner owner' actor e₁ e₂ i j sends first second
  have lane := runtime_lane run tag
  have sent (e : Envelope) (mem : Obs.sent sender (.queue tag e) ∈ h) :
      e ∈ h.flatMap (Obs.pushedTo tag) :=
    List.mem_flatMap.mpr ⟨_, mem, by simp [Obs.pushedTo, Action.queuedTo]⟩
  have sent₁ := sends.subset (by simp : Obs.sent sender (.queue tag e₁) ∈ _)
  have sent₂ := sends.subset (by simp : Obs.sent sender (.queue tag e₂) ∈ _)
  obtain rfl := given_tag run (received_given run (mem_receives first)) (sent_given sent₁) rfl
  obtain rfl := given_tag run (sent_given sent₂) (received_given run (mem_receives second)) rfl
  have stamps : e₁.stamp < e₂.stamp := by
    have direct := sends.flatMap (Obs.pushedTo owner)
    simp only [Obs.pushedTo, Action.queuedTo, List.flatMap_cons, List.flatMap_nil, if_true,
      List.append_nil, List.singleton_append] at direct
    exact lane.increasing.forall_sublist direct
  have apart : Obs.called i owner actor (.receive e₁) ≠ .called j owner actor (.receive e₂) := by
    intro same
    simp only [Obs.called.injEq, Callback.receive.injEq] at same
    rw [same.2.2.2] at stamps
    exact Nat.lt_irrefl _ stamps
  have order : [Obs.called i owner actor (.receive e₁),
      .called j owner actor (.receive e₂)].Sublist h := by
    apply (sublist_pair_of_mem apart first second).resolve_right
    intro swapped
    have line := received_line run (swapped.filterMap Obs.receives?)
    have := lane.ordered.forall_sublist line (sent e₂ sent₂) (sent e₁ sent₁)
    omega
  obtain ⟨front, back, rfl, entered, last⟩ := List.cons_sublist_iff.mp order
  obtain ⟨middle, rest, rfl⟩ := List.append_of_mem (List.singleton_sublist.mp last)
  obtain ⟨ok, ended⟩ := receive_alone run (front ++ middle) _ rest (by simp) j owner actor e₂ rfl
    i e₁ (List.mem_append_left _ entered)
  refine ⟨ok, ?_⟩
  rw [← List.append_assoc]
  exact (List.singleton_sublist.mpr ended).append
    (List.singleton_sublist.mpr List.mem_cons_self)

/-- A thread sends two envelopes to an actor. Two workers receive one each. -/
def relay : List Label :=
  [Label.call 0 (.spawn "a") 0] ++ turn (.spawn "a" ⟨0⟩) ++
  [Label.call 0 (.send "a" (.of (.other 7))) 0, .call 0 (.send "a" (.of (.other 8))) 0] ++
  turn (.queue "a" (letter 1 7)) ++ turn (.queue "a" (letter 2 8)) ++
  [Label.worker 0 .take, .worker 0 (.finish true), .worker 0 .advance] ++
  turn (.return "a" ⟨0⟩ true) ++ [Label.worker 1 .take]

theorem sends_in_order_relay :
    ∃ s h, (runtimeMachine .default "app" "host" 0).Reached s h ∧
      ∃ ok, [Obs.ended 0 "a" ⟨0⟩ (.receive (letter 1 7)) ok,
        .called 1 "a" ⟨0⟩ (.receive (letter 2 8))].Sublist h := by
  have run := Machine.run_replay (runtimeMachine .default "app" "host" 0) (fun _ _ _ => True)
    relay (by decide)
  refine ⟨_, _, run, ?_⟩
  exact (sends_in_order run).1 (.thread 0) "a" "a" "a" ⟨0⟩ (letter 1 7) (letter 2 8) 0 1
    (by decide) (by decide) (by decide)

end Uppercut
