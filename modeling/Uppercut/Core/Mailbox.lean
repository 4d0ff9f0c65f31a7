import Uppercut.Core.Address

/-!
# Mailboxes lose nothing

Since the last accepted spawn of an active tag, what was queued for the tag is what
was mailed to it, followed by what still waits. Envelopes that wait disappear only
when the tag stops being active, by an accepted stop or by a failed return.

The argument is local to one address: each arm either moves the boundary between
the mailed and the waiting part of one sequence, or ends the activation.
-/

namespace Uppercut

/-- The envelope that a received action queues for `tag`. -/
def Action.queuedTo (tag : Tag) : Action → List Envelope
  | .queue other envelope => if other = tag then [envelope] else []
  | _ => []

/-- The envelope that an event carries to `tag`. -/
def Event.mailedTo (tag : Tag) : Event → List Envelope
  | .mail other _ envelope => if other = tag then [envelope] else []
  | _ => []

namespace Obs

def queuedTo (tag : Tag) : Obs → List Envelope
  | .received action => action.queuedTo tag
  | _ => []

def mailedTo (tag : Tag) : Obs → List Envelope
  | .emitted event => event.mailedTo tag
  | _ => []

/-- An accepted spawn of `tag`. -/
def spawns (tag : Tag) : Obs → Bool
  | .spawned other _ => other = tag
  | _ => false

end Obs

/-- What happened since the last accepted spawn of `tag`. -/
def since (tag : Tag) (h : List Obs) : List Obs := h.rtakeWhile fun x => !x.spawns tag

/-- The envelopes of the queue actions received for `tag` since its last accepted spawn. -/
def queuedSince (tag : Tag) (h : List Obs) : List Envelope :=
  (since tag h).flatMap (Obs.queuedTo tag)

/-- The envelopes of the mail events emitted for `tag` since its last accepted spawn. -/
def mailedSince (tag : Tag) (h : List Obs) : List Envelope :=
  (since tag h).flatMap (Obs.mailedTo tag)

/-- While no spawn of the tag is accepted, the window only grows. -/
theorem since_append {tag : Tag} {h seen : List Obs} (none : ∀ x ∈ seen, x.spawns tag = false) :
    since tag (h ++ seen) = since tag h ++ seen := by
  induction seen using List.reverseRecOn with
  | nil => simp
  | append_singleton seen x ih =>
      have last : x.spawns tag = false := none x (by simp)
      have front := ih fun y mem => none y (by simp [mem])
      rw [← List.append_assoc, since, List.rtakeWhile_concat, ← since, front]
      simp [last]

theorem since_spawned (tag : Tag) (h : List Obs) (actor : Actor) :
    since tag (h ++ [.spawned tag actor]) = [] := by
  rw [since, List.rtakeWhile_concat]
  simp [Obs.spawns]

namespace Arm

variable {s s' : Scheduler} {action : Action} {event : Option Event} {flow : Flow} {tag : Tag}

/-- An activation is ended by a stop or by a failed return of its tag. -/
theorem ends (arm : Arm s action s' event flow) (active : tag ∈ s.active) :
    tag ∈ s'.active ∨ action = .stop tag ∨ ∃ actor, action = .return tag actor false := by
  cases arm
  case failed other actor _ =>
    by_cases eq : tag = other
    · exact .inr (.inr ⟨actor, by rw [eq]⟩)
    · exact .inl (Finset.mem_erase.mpr ⟨eq, active⟩)
  case stoppedIdle other _ _ _ =>
    by_cases eq : tag = other
    · exact .inr (.inl (by rw [eq]))
    · exact .inl (Finset.mem_erase.mpr ⟨eq, active⟩)
  case stoppedBusy other _ _ =>
    by_cases eq : tag = other
    · exact .inr (.inl (by rw [eq]))
    · exact .inl (Finset.mem_erase.mpr ⟨eq, active⟩)
  case spawned => exact .inl (Finset.mem_insert_of_mem active)
  all_goals exact .inl active

/-- An activation begins by an accepted spawn, with an empty mailbox. -/
theorem begins (arm : Arm s action s' event flow) (inactive : tag ∉ s.active)
    (active : tag ∈ s'.active) :
    ∃ actor, action = .spawn tag actor ∧ (s'.address tag).mailbox = [] ∧ event = none := by
  cases arm
  case spawned other actor _ =>
    obtain rfl | old := Finset.mem_insert.mp active
    · exact ⟨actor, rfl, by simp [Address.mailbox], rfl⟩
    · exact absurd old inactive
  case failed | stoppedIdle | stoppedBusy => exact absurd (Finset.mem_of_mem_erase active) inactive
  all_goals exact absurd active inactive

/-- While the tag stays active, the boundary between mailed and waiting envelopes
moves, and nothing else. -/
theorem mailbox (arm : Arm s action s' event flow) (active : tag ∈ s.active)
    (still : tag ∈ s'.active) :
    (s.address tag).mailbox ++ action.queuedTo tag =
      event.toList.flatMap (Event.mailedTo tag) ++ (s'.address tag).mailbox := by
  by_cases named : action.tag? = some tag
  · cases arm <;> simp only [Action.tag?, Option.some.injEq, reduceCtorEq] at named
    case failed => subst named; simp at still
    case resumed waiting =>
      subst named; simp [Address.mailbox, Action.queuedTo, Event.mailedTo, waiting]
    case rested waiting => subst named; simp [Address.mailbox, Action.queuedTo, waiting]
    case stale inactive => subst named; exact absurd active inactive
    case spent inactive => subst named; exact absurd active inactive
    case woken waiting idle pushed =>
      subst named; simp [Address.mailbox, Action.queuedTo, Event.mailedTo, waiting, pushed]
    case queued waiting busy => subst named; simp [Address.mailbox, Action.queuedTo, waiting]
    case spawned inactive => subst named; exact absurd active inactive
    case stoppedIdle | stoppedBusy => subst named; simp at still
    case undelivered inactive => subst named; exact absurd active inactive
    case refused => subst named; simp [Action.queuedTo]
    case unstopped inactive => subst named; exact absurd active inactive
  · obtain ⟨same, apart⟩ := arm.address_other named
    have unqueued : action.queuedTo tag = [] := by
      cases action <;> simp_all [Action.tag?, Action.queuedTo]
    have unmailed : event.toList.flatMap (Event.mailedTo tag) = [] := by
      cases event with
      | none => rfl
      | some event => cases event <;> simp_all [Event.tag?, Event.mailedTo]
    simp [same, unqueued, unmailed]

end Arm

section Received

variable (s : Scheduler) (action : Action) (event : Option Event) (tag : Tag)

theorem queuedTo_shows :
    (s.shows action event).flatMap (Obs.queuedTo tag) = action.queuedTo tag := by
  rw [s.shows_flatMap action event _ (fun _ _ => rfl) fun _ => rfl]
  cases event <;> exact List.append_nil _

theorem mailedTo_shows :
    (s.shows action event).flatMap (Obs.mailedTo tag) =
      event.toList.flatMap (Event.mailedTo tag) := by
  rw [s.shows_flatMap action event _ (fun _ _ => rfl) fun _ => rfl]
  rfl

theorem not_spawns_shows (active : tag ∈ s.active) :
    ∀ x ∈ s.shows action event, x.spawns tag = false := by
  intro x mem
  simp only [List.mem_cons, List.mem_append, Option.mem_toList, Option.map_eq_some_iff] at mem
  obtain rfl | accepted | ⟨_, _, rfl⟩ := mem
  · rfl
  · obtain ⟨other, _, _, inactive, rfl⟩ | ⟨_, _, _, rfl⟩ := Scheduler.mem_accepts.mp accepted
    · have ne : other ≠ tag := fun eq => inactive (eq ▸ active)
      simp [Obs.spawns, ne]
    · rfl
  · rfl

end Received

/-- What a step of the event loop means for the envelopes of an active tag. -/
theorem LoopMove.mailbox {phase phase' : Phase} {s s' : Scheduler} {label : LoopLabel}
    {seen : List Obs} {tag : Tag} (move : LoopMove phase s label phase' s' seen)
    (active : tag ∈ s.active) :
    (tag ∈ s'.active ∧ (∀ x ∈ seen, x.spawns tag = false) ∧
      (s.address tag).mailbox ++ seen.flatMap (Obs.queuedTo tag) =
        seen.flatMap (Obs.mailedTo tag) ++ (s'.address tag).mailbox) ∨
    (tag ∉ s'.active ∧ (Obs.received (.stop tag) ∈ seen ∨
      ∃ actor, Obs.received (.return tag actor false) ∈ seen)) := by
  cases move with
  | @received action _ _ event _ _ arm _ =>
      by_cases still : tag ∈ s'.active
      · refine .inl ⟨still, not_spawns_shows s action event tag active, ?_⟩
        rw [queuedTo_shows, mailedTo_shows]
        exact arm.mailbox active still
      · refine .inr ⟨still, ?_⟩
        obtain now | rfl | ⟨actor, rfl⟩ := arm.ends active
        · exact absurd now still
        · exact .inl (by simp)
        · exact .inr ⟨actor, by simp⟩
  | crashed | unsent | timeout | clock => exact .inl ⟨active, by simp, by simp⟩
  | release =>
      exact .inl ⟨active, by simp [Obs.spawns],
        by simp [Obs.queuedTo, Obs.mailedTo, Scheduler.address]⟩
  | tick => exact .inl ⟨active, by simp [Obs.spawns], by simp [Obs.queuedTo, Obs.mailedTo]⟩

/-- An activation begins with an empty window and an empty mailbox. -/
theorem LoopMove.begins {phase phase' : Phase} {s s' : Scheduler} {label : LoopLabel}
    {seen : List Obs} {tag : Tag} (move : LoopMove phase s label phase' s' seen)
    (inactive : tag ∉ s.active) (active : tag ∈ s'.active) :
    ∃ actor, seen = [.received (.spawn tag actor), .spawned tag actor] ∧
      (s'.address tag).mailbox = [] := by
  cases move with
  | received _ arm =>
      obtain ⟨actor, rfl, empty, rfl⟩ := arm.begins inactive active
      exact ⟨actor, by simp [Scheduler.accepts, inactive], empty⟩
  | crashed | unsent | timeout | clock | release | tick => exact absurd active inactive

variable {config : SchedulerConfig} {name host : String} {start : Nat}
variable {s : LoopState} {h : List Obs} {tag : Tag}

theorem loop_wellFormed (run : (loopMachine config name host start).Reached s h) :
    s.loop.scheduler.WellFormed := by
  induction run with
  | start => exact Scheduler.wellFormed_withConfig config
  | step _ _ taken ih => exact (LoopState.step_move taken).wellFormed ih

/-- The history law, kept by every step of the event loop. -/
theorem loop_mailbox (run : (loopMachine config name host start).Reached s h) :
    ∀ tag ∈ s.loop.scheduler.active,
      queuedSince tag h = mailedSince tag h ++ (s.loop.scheduler.address tag).mailbox := by
  induction run with
  | start => intro tag active; simp [loopMachine, EventLoop.init, Scheduler.withConfig] at active
  | @step s t h label seen before _ taken ih =>
      intro tag active
      have move := LoopState.step_move taken
      by_cases old : tag ∈ s.loop.scheduler.active
      · obtain ⟨_, unspawned, law⟩ | ⟨inactive, _⟩ := move.mailbox old
        · simp only [queuedSince, mailedSince, since_append unspawned, List.flatMap_append]
          have past := ih tag old
          simp only [queuedSince, mailedSince] at past
          rw [past, List.append_assoc, law, List.append_assoc]
        · exact absurd active inactive
      · obtain ⟨actor, rfl, empty⟩ := move.begins old active
        have window := since_spawned tag (h ++ [.received (.spawn tag actor)]) actor
        rw [List.append_assoc] at window
        simp only [List.cons_append, List.nil_append] at window
        simp [queuedSince, mailedSince, empty, window]

/-- **Mailbox conservation.** In every state the event loop can reach, whatever it
received, an active tag has a mailbox, and the envelopes queued since the last
accepted spawn are the mailed ones followed by the mailbox. A step keeps the tag
active and extends this law, or it receives a stop or a failed return of the tag
and ends the activation. -/
theorem mailbox_conserved (run : (loopMachine config name host start).Reached s h)
    (active : tag ∈ s.loop.scheduler.active) :
    ∃ waiting, s.loop.scheduler.queue tag = some waiting ∧
      queuedSince tag h = mailedSince tag h ++ waiting ∧
      ∀ label t seen, s.step label = some (t, seen) →
        (tag ∈ t.loop.scheduler.active ∧ ∃ waiting', t.loop.scheduler.queue tag = some waiting' ∧
          waiting ++ seen.flatMap (Obs.queuedTo tag) =
            seen.flatMap (Obs.mailedTo tag) ++ waiting') ∨
        (tag ∉ t.loop.scheduler.active ∧ (Obs.received (.stop tag) ∈ seen ∨
          ∃ actor, Obs.received (.return tag actor false) ∈ seen)) := by
  have wf := loop_wellFormed run
  obtain ⟨waiting, known⟩ := wf.queue_of_active active
  have law := loop_mailbox run tag active
  simp only [Address.mailbox, Scheduler.address_queue, known, Option.getD_some] at law
  refine ⟨waiting, known, law, ?_⟩
  intro label t seen taken
  have move := LoopState.step_move taken
  obtain ⟨still, _, step⟩ | ended := move.mailbox active
  · obtain ⟨waiting', known'⟩ := (move.wellFormed wf).queue_of_active still
    simp only [Address.mailbox, Scheduler.address_queue, known, known', Option.getD_some] at step
    exact .inl ⟨still, waiting', known', step⟩
  · exact .inr ended

/-- An actor is busy with one envelope while the next one waits. -/
def backlog : List LoopLabel :=
  [.receive (.spawn "a" ⟨0⟩) true, .clock 0, .tick 0 0,
    .receive (.queue "a" (.of (.other 1))) true, .clock 0, .tick 0 0,
    .receive (.queue "a" (.of (.other 2))) true]

theorem mailbox_conserved_backlog :
    ∃ s h, (loopMachine .default "app" "host" 0).Reached s h ∧
      ∃ waiting, s.loop.scheduler.queue "a" = some waiting ∧
        queuedSince "a" h = mailedSince "a" h ++ waiting ∧ waiting ≠ [] := by
  have run := Machine.run_replay (loopMachine .default "app" "host" 0) (fun _ _ _ => True)
    backlog (by decide)
  obtain ⟨waiting, known, law, _⟩ := @mailbox_conserved _ _ _ _ _ _ "a" run (by decide)
  refine ⟨_, _, run, waiting, known, law, ?_⟩
  rintro rfl
  revert known
  decide

end Uppercut
